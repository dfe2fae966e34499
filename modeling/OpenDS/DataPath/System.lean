import OpenDS.Aisio.ReadTask
import OpenDS.Engine.Locking

/-!
# The I/O engine with its data

The engine of `OpenDS.Engine` says who does what when; here it moves data. A worker
serves the reads of its queue, each of which is a `ReadTask`, and all of them share the
worker's NVMe queue, the memory of the caller, the bounce buffers of the slots and of
the streams, and the copy descriptors of the streams.

A command in the NVMe queue carries what the device and the callback need and nothing
of the operation it was issued for: it would write to its destination, and its callback
would count for whatever operation its slot holds, also if the operation were long
gone.

`submit` is where a worker spends its time inside `start_read_op`. Every pass of its
loops is a step, and so is every completion in the pokes between them.
-/

set_option autoImplicit false

namespace OpenDS.DataPath

open OpenDS.Library (Machine Memory Ptr)
open OpenDS.Aisio OpenDS.Engine

/-! ## State -/

/-- The bounce slot of a stream, among all bounce buffers: the allocations of streams
have even numbers and those of the I/O threads odd ones. -/
def streamBounceBuf (stream : Nat) : Nat := 2 * stream

/-- The bounce buffer of the allocation with this number by an I/O thread. -/
def hostBounceBuf (allocation : Nat) : Nat := 2 * allocation + 1

/-- The fields of `struct file_op` that only `start_read_op` and the completion of a
read use, with the request as `start_read_op` has read it. `issued` is no field of the
source: it is the log of the commands the queue has taken for the operation, and no
step depends on it. -/
structure OpData where
  request : Request
  bounces : List BounceSlot
  bounceBuf : Option Nat
  issued : List Command

/-- A command of an NVMe queue, with the argument of its callback. `nbytes` is what it
is to move for the operation; `id` is the operation that it was issued for and `place`
its place in that operation's log, and no step depends on them. -/
structure Wire where
  slot : Fin queueSize
  cmd : Command
  nbytes : Nat
  id : Nat
  place : Nat
  deriving DecidableEq, Repr

/-- The command as the engine sees it. -/
def Wire.queued (x : Wire) : QueuedCommand := ⟨x.slot, x.cmd.callback, x.nbytes, x.id⟩

/-- The engine with its data. `submission` is where a worker stands in `start_read_op`,
and `allocated` counts the bounce buffers of the I/O threads. `answers` is the history
of each operation: what it has been told since its dispatch. No step depends on it. -/
structure IoState (n : Nat) (ι : Type) where
  sys : System n ι
  mem : Memory Space UInt8
  disk : Nat → Nat → UInt8
  ops : Fin n → Fin queueSize → OpData
  wires : Fin n → List Wire
  submission : Fin n → Option Submission
  descs : Nat → BounceCopy
  allocated : Nat
  answers : Fin n → Nat → List Answer

/-- What the environment decides in a step of a worker. -/
inductive IoChoice where
  | go
  | resolved (cells : Request) (getExtents : Nat → Except Int (List Extent))
  | enter (alloc : Bool)
  | retry (busy : Bool)
  | attempt (takes : Bool)
  | poked (command : Nat) (ok : Bool)
  | wrote (ret : Int) (disk : Nat → Nat → UInt8)
  | copies (ok : Nat → Bool)

/-- One step of one party. -/
inductive IoLabel (n : Nat) (ι : Type) where
  | thread (t : ι) (act : ThreadAct)
  | worker (w : Fin n) (c : IoChoice)
  | gpu (stream : Nat)
  | stop

/-! ## The read of a slot -/

/-- A copy descriptor as `stream_bounce_alloc` leaves it. -/
def zeroDesc : BounceCopy := ⟨⟨.user, 0⟩, ⟨.user, 0⟩, 0⟩

/-- `op->mode`, with the bounce slot of the stream. -/
def modeOf : OpArgs → FileOpMode
  | .async _ => .async
  | .stream a _ => .stream (streamBounceBuf a.stream)

/-- `start_read_op` reads the request from the operation, or from the caller's cells. -/
def requestOf (u : OpArgs) (cells : Request) : Request :=
  match u with
  | .async a => ⟨a.size, a.fileOffset, a.bufOffset⟩
  | .stream _ _ => cells

/-- The bytes a command is to move for a read. -/
def wireBytes (d : Driver) (st : ReadState) (c : Command) : Nat :=
  match c.callback with
  | .chunk => ReadState.commandBytes d c
  | .bounce => (st.op.bounces.getLast?.map (·.nbytes)).getD 0

/-- The counters of an operation as a read leaves them. -/
def absorb (op : QueuedOp) (read : FileOp) : QueuedOp :=
  { op with
    chunksRemaining := read.chunksRemaining
    bouncesOutstanding := read.bouncesOutstanding
    bytesAcc := read.bytesAcc
    err := read.err }

/-- What a choice tells the read that the worker is submitting. -/
def IoChoice.answer (sub : Submission) (op : FileOp) (fresh : Nat) : IoChoice → Option Answer
  | .enter alloc => some (.enter (op.lent (if alloc then some fresh else none)))
  | .retry busy => some (.retry busy)
  | .attempt takes => some (.attempt takes)
  | .go => some (if sub.poking then .poked else .submitted)
  | _ => none

/-- What an answer makes of an operation, if the queue has taken the commands `new`. -/
def eventOf (a : Answer) (new : List Wire) (task : ReadTask) : Option OpEvent :=
  match new, a, task.sub with
  | x :: _, _, _ => some (.issued x.cmd.callback x.nbytes)
  | [], .submitted, _ => none
  | [], _, none => task.st.op.err.map .refused
  | [], _, some _ => none

/-- `cuda_bounce_kernel`. -/
def bounceKernel (desc : BounceCopy) (mem : Memory Space UInt8) : Memory Space UInt8 :=
  mem.copy desc.nBytes desc.dst desc.src

namespace IoState

variable {n : Nat} {ι : Type} (d : Driver) (s : IoState n ι)

/-- The read in a slot. -/
def view (w : Fin n) (slot : Fin queueSize) : ReadState :=
  let op := (s.sys.workers w).fileOpQueue slot
  let data := s.ops w slot
  { op :=
      { mode := modeOf op.fields.u
        state := op.state
        bufBase := op.fields.bufBase
        size := data.request.size
        fileOffset := data.request.fileOffset
        bufOffset := data.request.bufOffset
        chunksRemaining := op.chunksRemaining
        bouncesOutstanding := op.bouncesOutstanding
        bytesAcc := op.bytesAcc
        err := op.err
        bounces := data.bounces
        bounceBuf := data.bounceBuf
        result := none }
    issued := data.issued
    inflight := ((s.wires w).filter fun x => x.slot = slot).map Wire.place
    mem := s.mem
    desc := match op.fields.u with
      | .async _ => zeroDesc
      | .stream a _ => s.descs a.stream }

/-- The read in a slot with its request read, and an empty log. -/
def requested (w : Fin n) (slot : Fin queueSize) (cells : Request) : ReadState :=
  let r := requestOf ((s.sys.workers w).fileOpQueue slot).fields.u cells
  let read := s.view w slot
  { read with
    op := { read.op with size := r.size, fileOffset := r.fileOffset, bufOffset := r.bufOffset }
    issued := [] }

/-- Store the data of a read into its slot. -/
def storeData (w : Fin n) (slot : Fin queueSize) (st : ReadState) : IoState n ι :=
  { s with
    mem := st.mem
    ops := Function.update s.ops w (Function.update (s.ops w) slot
      ⟨⟨st.op.size, st.op.fileOffset, st.op.bufOffset⟩, st.op.bounces, st.op.bounceBuf, st.issued⟩)
    descs := match ((s.sys.workers w).fileOpQueue slot).fields.u with
      | .async _ => s.descs
      | .stream a _ => Function.update s.descs a.stream st.desc }

/-- Write down what an operation has been told. -/
def tell (w : Fin n) (k : Nat) (a : Answer) : IoState n ι :=
  { s with
    answers :=
      Function.update s.answers w (Function.update (s.answers w) k (s.answers w k ++ [a])) }

/-- The commands that an answer has put into the queue. -/
def newWires (w : Fin n) (st : ReadState) : List Wire :=
  let worker := s.sys.workers w
  let slot := slotOf worker.i
  let before := (s.ops w slot).issued.length
  (st.issued.drop before).map fun c => ⟨slot, c, wireBytes d st c, worker.current.id, before⟩

/-- The worker has told the read it is submitting an answer. -/
def proceed (w : Fin n) (a : Answer) (task : ReadTask) : IoState n ι :=
  let worker := s.sys.workers w
  let slot := slotOf worker.i
  let op := worker.current
  let new := s.newWires d w task.st
  let event := (eventOf a new task).map fun e => (op.id, e)
  let after := if task.sub.isNone then worker.next else worker
  let worker := ({ after with commands := after.commands ++ new.map Wire.queued } : IoWorker).put slot
    (absorb op task.st.op)
  { (s.storeData w slot task.st).tell w op.id a with
    sys := s.sys.setWorker w (worker.record event)
    wires := Function.update s.wires w (s.wires w ++ new)
    submission := Function.update s.submission w task.sub
    allocated :=
      if task.st.op.bounceBuf = some (hostBounceBuf s.allocated) then s.allocated + 1
      else s.allocated }

/-- The device finishes a command of the worker's queue: its data lands if it succeeds,
and its callback runs. -/
def arrive (w : Fin n) (command : Nat) (ok : Bool) : Option (IoState n ι) :=
  (s.wires w)[command]?.bind fun x =>
    (s.sys.workerStep w (.poked command ok)).map fun sys =>
      { s.tell w x.id (.arrived x.place ok) with
        sys := sys
        wires := Function.update s.wires w ((s.wires w).eraseIdx command)
        mem := if ok then
            s.mem.blit x.cmd.dst (ReadState.commandBytes d x.cmd)
              (ReadState.commandData d (obliging s.disk) x.cmd)
          else s.mem }

/-- `reap_in_flight`. -/
def reap (w : Fin n) (ok : Nat → Bool) : Option (IoState n ι) :=
  let op := (s.sys.workers w).current
  let read := s.view w (slotOf (s.sys.workers w).i)
  let dev : Device := { obliging s.disk with copies := ok }
  if op.chunksRemaining = 0 ∧ op.bouncesOutstanding = 0 then
    (s.sys.workerStep w (.copies (runBounceCopies dev 0 read.op.bounces s.mem).1)).map fun sys =>
      { s.tell w op.id (.copies ok) with
        sys := sys
        mem := (completeReadOp dev read).mem }
  else (s.sys.workerStep w (.copies true)).map fun sys => { s with sys := sys }

/-- The descriptors when the worker releases a stream: the completion of a stream read
has stored the size of its copy. -/
def described (w : Fin n) : Nat → BounceCopy :=
  let op := (s.sys.workers w).current
  match op.fields.isWrite, op.fields.u with
  | false, .stream a _ =>
    Function.update s.descs a.stream
      (completeReadOp (obliging s.disk) (s.view w (slotOf (s.sys.workers w).i))).desc
  | _, _ => s.descs

/-- One step of a worker. -/
def workerStep (w : Fin n) (c : IoChoice) : Option (IoState n ι) :=
  let worker := s.sys.workers w
  let slot := slotOf worker.i
  match worker.pc, c with
  | .submit, .resolved cells getExtents =>
    if (s.submission w).isNone then
      some (s.proceed d w (.resolved cells getExtents)
        (.begin d { obliging s.disk with getExtents := getExtents } (s.requested w slot cells)))
    else none
  | .submit, .poked command ok =>
    if (s.submission w).any (·.poking) then s.arrive d w command ok else none
  | .submit, c =>
    (s.submission w).bind fun sub =>
      let read := s.view w slot
      (c.answer sub read.op (hostBounceBuf s.allocated)).bind fun a =>
        (ReadTask.step d s.disk ⟨read, some sub⟩ a).map (s.proceed d w a)
  | .poke, .poked command ok => s.arrive d w command ok
  | .pwrite, .wrote ret disk =>
    (s.sys.workerStep w (.wrote ret)).map fun sys => { s with sys := sys, disk := disk }
  | .reap, .copies ok => s.reap w ok
  | .release _, .go =>
    (s.sys.workerStep w .go).map fun sys => { s with sys := sys, descs := s.described w }
  | _, .go => (s.sys.workerStep w .go).map fun sys => { s with sys := sys }
  | _, _ => none

/-- The next command of a stream. -/
def gpuStep (j : Nat) : Option (IoState n ι) :=
  (s.sys.gpuStep j).map fun sys =>
    { s with
      sys := sys
      mem := match (s.sys.streams j).commands with
        | .copy :: _ => bounceKernel (s.descs j) s.mem
        | _ => s.mem }

end IoState

/-- **The engine with its data.** -/
def io {n : Nat} {ι : Type} [DecidableEq ι] [NeZero n] (d : Driver) :
    Machine (IoState n ι) (IoLabel n ι) where
  step s
    | .thread t act =>
      (s.sys.threadStep d.assumeAlignedOnly t act).map fun sys => { s with sys := sys }
    | .worker w c => s.workerStep d w c
    | .gpu j => s.gpuStep j
    | .stop => some { s with sys := { s.sys with stop := true } }

/-- The engine past `workers_setup`, with the caller's memory and the device as they
are. -/
def ioSetup (n : Nat) (ι : Type) (futures : Nat → Future) (bytesRead : Nat → Int)
    (mem : Memory Space UInt8) (disk : Nat → Nat → UInt8) : IoState n ι where
  sys := setup n ι futures bytesRead
  mem := mem
  disk := disk
  ops _ _ := ⟨⟨0, 0, 0⟩, [], none, []⟩
  wires _ := []
  submission _ := none
  descs _ := zeroDesc
  allocated := 0
  answers _ _ := []

end OpenDS.DataPath
