import OpenDS.Engine.QueueOffer

/-!
# The I/O engine

The parties of the aisio backend: threads that submit operations under
`submit_lock`, I/O workers with a queue each, and the accelerator streams, which
execute what is enqueued to them in order. A step is one step of one party; the order
of the steps, the choices of the workers' environment and the failures of the
accelerator calls are the labels of a run.

`submit_async_op` and `submit_stream_op` are one machine here, as in the source they
differ between the fill of the slot and the store of `FILE_OP_PENDING` only. The
calls that return before they take the lock, for an invalid argument or an unknown
stream, change nothing and are left out.
-/

set_option autoImplicit false

namespace OpenDS.Engine

open OpenDS.Library OpenDS.Aisio

/-! ## State -/

/-- What a call asks for: the operation, without its turn on the stream. -/
inductive CallArgs where
  | async (a : FileOpAsync)
  | stream (a : FileOpStream)
  deriving DecidableEq, Repr

/-- A call of `submit_async_op` or `submit_stream_op`. -/
structure Call where
  isWrite : Bool
  h : Nat
  bufBase : Int
  u : CallArgs
  deriving DecidableEq, Repr

/-- Where a submission stands. `n` is the number of I/O threads. -/
inductive SubmitPc (n : Nat) where
  /-- Outside any call. -/
  | idle
  /-- Before it takes the lock. -/
  | lock (call : Call)
  /-- In `claim_slot_locked`. -/
  | claim (call : Call)
  /-- Before it fills the slot. -/
  | fill (call : Call) (w : Fin n) (head : BitVec 32)
  /-- Before the enqueue of the gate write, or of the callback. -/
  | gate (fields : OpFields) (w : Fin n) (head : BitVec 32)
  /-- Before the enqueue of the gate wait. -/
  | wait (fields : OpFields) (w : Fin n) (head : BitVec 32)
  /-- Before the store of `FILE_OP_PENDING`. -/
  | pend (fields : OpFields) (w : Fin n) (head : BitVec 32)
  /-- Before the store to `queue_head`. -/
  | publish (fields : OpFields) (w : Fin n) (head : BitVec 32)
  /-- Before it releases the lock, with the stream it will enqueue a copy to. -/
  | unlock (copy : Option Nat)
  /-- Before the enqueue of the copy. -/
  | copy (stream : Nat)
  deriving DecidableEq, Repr

/-- A command of a stream. A gate command stands for its turn; the device sees the
words computed from it. -/
inductive StreamCommand (n : Nat) where
  /-- `stream_write_value32(gate, 2 * seq)`. -/
  | write (turn : Nat)
  /-- `stream_wait_value32_geq(gate, 2 * seq + 1)`. -/
  | wait (turn : Nat)
  /-- `launch_host_func(park_gate_cb, op)`. -/
  | park (w : Fin n) (slot : Fin queueSize)
  /-- `park_gate_cb` past its store to the gate of a stream. -/
  | spin (stream turn : Nat)
  /-- `copy_stream(bounce_desc_dev)`. -/
  | copy
  deriving DecidableEq, Repr

/-- `struct opends_stream` with what is enqueued to the stream. `turns` counts the
submissions to the stream; `next_seq` is the count in 32 bits. -/
structure Stream (n : Nat) where
  turns : Nat
  gate : BitVec 32
  commands : List (StreamCommand n)

/-- `opends_async_future_t`. -/
structure Future where
  done : Bool
  result : Int
  deriving DecidableEq, Repr

/-- The shared state of the engine, and where its threads stand. `bytesRead` is the
memory behind the `bytes_read_p` pointers. -/
structure System (n : Nat) (ι : Type) where
  workers : Fin n → IoWorker
  threads : ι → SubmitPc n
  submitLock : Option ι
  rrNext : BitVec 32
  stop : Bool
  streams : Nat → Stream n
  futures : Nat → Future
  bytesRead : Nat → Int

/-! ## Steps -/

/-- What a thread does. -/
inductive ThreadAct where
  | call (c : Call)
  | go
  | accel (ok : Bool)
  deriving DecidableEq, Repr

/-- One step of one party. -/
inductive Label (n : Nat) (ι : Type) where
  | thread (t : ι) (act : ThreadAct)
  | worker (w : Fin n) (c : Choice)
  | gpu (stream : Nat)
  | stop
  deriving DecidableEq, Repr

/-- The gate has reached the release of a turn: `(int32_t)(gate - (2 * seq + 1)) >= 0`.
The wait of the device and `park_gate_cb` compare in the same way. -/
def released (gate : BitVec 32) (turn : Nat) : Bool :=
  decide (0 ≤ (gate - (2#32 * word 32 turn + 1#32)).toInt)

/-- The copy that `submit_stream_op` enqueues past the lock. -/
def copyOf (alignedOnly : Bool) (fields : OpFields) : Option Nat :=
  match fields.u with
  | .async _ => none
  | .stream a _ => if !alignedOnly && !fields.isWrite then some a.stream else none

section Steps

variable {n : Nat} {ι : Type}

/-- `route_op`. -/
def route [NeZero n] (rrNext : BitVec 32) : Fin n := Fin.ofNat n rrNext.toNat

namespace System

variable (s : System n ι)

/-- Change a worker. -/
def setWorker (w : Fin n) (worker : IoWorker) : System n ι :=
  { s with workers := Function.update s.workers w worker }

/-- Change a stream. -/
def setStream (j : Nat) (stream : Stream n) : System n ι :=
  { s with streams := Function.update s.streams j stream }

/-- Enqueue a command to a stream. -/
def enqueue (j : Nat) (c : StreamCommand n) : System n ι :=
  s.setStream j { s.streams j with commands := (s.streams j).commands ++ [c] }

/-- Store to the gate of a stream. -/
def setGate (j : Nat) (gate : BitVec 32) : System n ι :=
  s.setStream j { s.streams j with gate := gate }

/-- Store to a future. -/
def setFuture (f : Nat) (future : Future) : System n ι :=
  { s with futures := Function.update s.futures f future }

/-- What happens to an operation, in memory: the store of its result, and the store
to its future's `done` or the release of its gate. -/
def apply (event : Option (Nat × OpEvent)) : System n ι :=
  match event with
  | some (_, .stored (.future f) m) => s.setFuture f { s.futures f with result := m }
  | some (_, .stored (.gate cell _ _) m) =>
    { s with bytesRead := Function.update s.bytesRead cell m }
  | some (_, .completed (.future f) _) => s.setFuture f { s.futures f with done := true }
  | some (_, .completed (.gate _ j turn) _) => s.setGate j (2#32 * word 32 turn + 1#32)
  | _ => s

/-- One step of a worker. -/
def workerStep (w : Fin n) (c : Choice) : Option (System n ι) :=
  ((s.workers w).act (fun j => (s.streams j).gate) s.stop c).map fun out =>
    (s.setWorker w (out.1.record out.2)).apply out.2

/-- The next command of a stream. -/
def gpuStep (j : Nat) : Option (System n ι) :=
  let stream := s.streams j
  match stream.commands with
  | [] => none
  | .write turn :: rest => some (s.setStream j ⟨stream.turns, 2#32 * word 32 turn, rest⟩)
  | .wait turn :: rest =>
    if released stream.gate turn then some (s.setStream j { stream with commands := rest })
    else none
  | .park w slot :: rest => match ((s.workers w).fileOpQueue slot).fields.u with
    | .async _ => none
    | .stream a turn =>
      some ((s.setStream j { stream with commands := .spin a.stream turn :: rest }).setGate a.stream
        (2#32 * word 32 turn))
  | .spin target turn :: rest =>
    if released (s.streams target).gate turn then
      some (s.setStream j { stream with commands := rest })
    else none
  | .copy :: rest => some (s.setStream j { stream with commands := rest })

end System

variable [DecidableEq ι]

namespace System

variable (s : System n ι)

/-- A thread goes on. -/
def setThread (t : ι) (pc : SubmitPc n) : System n ι :=
  { s with threads := Function.update s.threads t pc }

/-- The result of an accelerator call under the lock. -/
def enqueued (t : ι) (ok : Bool) (j : Nat) (c : StreamCommand n) (pc : SubmitPc n) :
    System n ι :=
  if ok then (s.enqueue j c).setThread t pc else s.setThread t (.unlock none)

/-- One step of a thread. -/
def threadStep [NeZero n] (alignedOnly : Bool) (t : ι) (act : ThreadAct) : Option (System n ι) :=
  match s.threads t, act with
  | .idle, .call c => match c.u with
    | .async a => some ((s.setFuture a.future ⟨false, 0⟩).setThread t (.lock c))
    | .stream _ => some (s.setThread t (.lock c))
  | .lock c, .go =>
    if s.submitLock.isNone then some ({ s with submitLock := some t }.setThread t (.claim c))
    else none
  | .claim c, .go =>
    let w := route s.rrNext
    let s := { s with rrNext := s.rrNext + 1#32 }
    if (s.workers w).hasRoom then some (s.setThread t (.fill c w (s.workers w).queueHead))
    else some ({ s with submitLock := none }.setThread t (.lock c))
  | .fill c w head, .go => match c.u with
    | .async a =>
      let fields : OpFields := ⟨c.isWrite, c.h, c.bufBase, .async a⟩
      some ((s.setWorker w ((s.workers w).fill head fields)).setThread t (.pend fields w head))
    | .stream a =>
      let turn := (s.streams a.stream).turns + 1
      let fields : OpFields := ⟨c.isWrite, c.h, c.bufBase, .stream a turn⟩
      some (((s.setStream a.stream { s.streams a.stream with turns := turn }).setWorker w
        ((s.workers w).fill head fields)).setThread t (.gate fields w head))
  | .gate fields w head, .accel ok => match fields.u with
    | .async _ => none
    | .stream a turn =>
      if alignedOnly then
        some (s.enqueued t ok a.stream (.park w (slotOf head)) (.pend fields w head))
      else some (s.enqueued t ok a.stream (.write turn) (.wait fields w head))
  | .wait fields w head, .accel ok => match fields.u with
    | .async _ => none
    | .stream a turn => some (s.enqueued t ok a.stream (.wait turn) (.pend fields w head))
  | .pend fields w head, .go =>
    some ((s.setWorker w ((s.workers w).pend head)).setThread t (.publish fields w head))
  | .publish fields w head, .go =>
    some ((s.setWorker w ((s.workers w).publish head)).setThread t
      (.unlock (copyOf alignedOnly fields)))
  | .unlock copy, .go =>
    some ({ s with submitLock := none }.setThread t (match copy with
      | none => .idle
      | some j => .copy j))
  | .copy j, .accel ok =>
    some ((if ok then s.enqueue j .copy else s).setThread t .idle)
  | _, _ => none

end System

/-- **The engine**, with the assumption on alignment that selects the gate mode. -/
def engine [NeZero n] (alignedOnly : Bool) : Machine (System n ι) (Label n ι) where
  step s
    | .thread t act => s.threadStep alignedOnly t act
    | .worker w c => s.workerStep w c
    | .gpu j => s.gpuStep j
    | .stop => some { s with stop := true }

end Steps

/-! ## The start -/

/-- A slot of a queue as `calloc` gives it. -/
def zeroOp : QueuedOp :=
  ⟨.free, ⟨false, 0, 0, .stream ⟨0, 0, 0, 0, 0⟩ 0⟩, 0, 0, 0, none, 0⟩

/-- A worker past `workers_setup`. -/
def zeroWorker : IoWorker := ⟨fun _ => zeroOp, 0, 0, [], .load, 0, 0, false, [], []⟩

/-- The engine past `workers_setup`, with the caller's memory as it is. -/
def setup (n : Nat) (ι : Type) (futures : Nat → Future) (bytesRead : Nat → Int) : System n ι where
  workers _ := zeroWorker
  threads _ := .idle
  submitLock := none
  rrNext := 0
  stop := false
  streams _ := ⟨0, 0, []⟩
  futures := futures
  bytesRead := bytesRead

end OpenDS.Engine
