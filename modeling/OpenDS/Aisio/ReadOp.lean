import OpenDS.Status
import OpenDS.Library.Memory

/-!
# The read engine of the aisio backend

One read operation of an I/O worker, from its dispatch to its completion, as
`opends_aisio.c` computes it: the extents are walked in file order, the part of
the request in each extent is cut into a leading partial LBA, whole LBAs in
chunks of at most MDTS bytes, and a trailing partial LBA; whole LBAs are read
straight into the user's buffer, partial ones into a bounce buffer.

What the device and the runtime answer is an argument, `Device`: the finitely
many times the queue has no free context or answers `-EBUSY` before it takes a
command, whether it takes it, the status a command completes with, and which
outstanding commands each poke completes, in which order. A command moves its
data when it completes.

`Submit` is the control flow of the submission path: a `goto out` or an early
`return` keeps the state reached so far, and a loop that runs out of fuel spins.
-/

set_option autoImplicit false

namespace OpenDS.Aisio

open OpenDS.Library

/-! ## Data -/

/-- `struct ds_extent`: where a byte range of the file lives on the device. -/
structure Extent where
  fileOffset : Nat
  slba : Nat
  length : Nat
  deriving DecidableEq, Repr

/-- The end of the extent's byte range in the file. -/
def Extent.fileEnd (e : Extent) : Nat := e.fileOffset + e.length

/-- The fields of `struct driver` that the read path uses. -/
structure Driver where
  lbaSize : Nat
  lbaShift : Nat
  mdtsNbytes : Nat
  assumeAlignedOnly : Bool
  deriving DecidableEq, Repr

/-- `NVME_MAX_NLB`. -/
def nvmeMaxNlb : Nat := 65536

/-- `NVME_PRP_OFFSET_ALIGN`. -/
def nvmePrpOffsetAlign : Nat := 4

/-- `BOUNCE_SLOTS`. -/
def bounceSlots : Nat := 2

/-- `ESTALE_RETRIES`. -/
def estaleRetries : Nat := 6000

/-- The value of `ESTALE`. -/
def estale : Int := 116

/-- The caller's memory, and the bounce buffers by allocation. -/
inductive Space where
  | user
  | bounce (buf : Nat)
  deriving DecidableEq, Repr

/-- The callback a command context carries. -/
inductive Callback where
  | chunk
  | bounce
  deriving DecidableEq, Repr

/-- An NVMe read command the queue has taken. -/
structure Command where
  callback : Callback
  slba : Nat
  nlb : Nat
  dst : Ptr Space
  deriving DecidableEq, Repr

/-- `enum file_op_mode`, with the bounce slot of the stream a stream operation
belongs to. -/
inductive FileOpMode where
  | stream (bounceBuf : Nat)
  | async
  deriving DecidableEq, Repr

/-- `enum file_op_state`. -/
inductive FileOpState where
  | free
  | pending
  | inFlight
  deriving DecidableEq, Repr

/-- `struct bounce_slot`. -/
structure BounceSlot where
  dst : Ptr Space
  src : Ptr Space
  nbytes : Nat
  deriving DecidableEq, Repr

/-- `struct ds_bounce_copy`. -/
structure BounceCopy where
  dst : Ptr Space
  src : Ptr Space
  nBytes : Nat
  deriving DecidableEq, Repr

/-- `struct file_op` of a read. The request fields hold the values of the
caller's cells, `bounces` is the filled part of the slot array, and `result` is
the future, or the byte-count cell of a stream operation. -/
structure FileOp where
  mode : FileOpMode
  state : FileOpState
  bufBase : Int
  size : Nat
  fileOffset : Int
  bufOffset : Int
  chunksRemaining : Int
  bouncesOutstanding : Int
  bytesAcc : Nat
  err : Option OpError
  bounces : List BounceSlot
  bounceBuf : Option Nat
  result : Option Int
  deriving DecidableEq, Repr

/-- An operation with what it shares with its environment: the log of the
commands taken for it, those of them still outstanding by their place in the
log, the memory, and the copy descriptor of its stream. -/
structure ReadState where
  op : FileOp
  issued : List Command
  inflight : List Nat
  mem : Memory Space UInt8
  desc : BounceCopy

/-- Why one pass of a submission loop took no command, with the outstanding
commands that the poke in that pass completes. -/
inductive Retry where
  | noCtx (poked : List Nat)
  | busy (poked : List Nat)
  deriving DecidableEq, Repr

/-- The answers of the device, the queue, HOMI and the accelerator runtime. The
retries and the verdict of a command are indexed by the number of commands
taken before it, its status by its place in the log. -/
structure Device where
  disk : Nat → Nat → UInt8
  getExtents : Nat → Except Int (List Extent)
  retries : Nat → List Retry
  takes : Nat → Bool
  succeeds : Nat → Bool
  bufAlloc : Option Nat
  copies : Nat → Bool

/-! ## Control flow of the submission path -/

/-- The outcome of a part of the submission path: it goes on with a value, it
leaves through `out` in some state, or its fuel does not suffice. -/
inductive Submit (α : Type) where
  | ok (value : α)
  | out (st : ReadState)
  | spin

/-- Run the rest of the path unless this part left it. -/
def Submit.bind {α β : Type} (first : Submit α) (rest : α → Submit β) : Submit β :=
  match first with
  | .ok value => rest value
  | .out st => .out st
  | .spin => .spin

instance : Monad Submit where
  pure := .ok
  bind := Submit.bind

@[simp] theorem Submit.pure_eq {α : Type} (value : α) : (pure value : Submit α) = .ok value := rfl

@[simp] theorem Submit.ok_bind {α β : Type} (value : α) (rest : α → Submit β) :
    (Submit.ok value >>= rest) = rest value := rfl

@[simp] theorem Submit.out_bind {α β : Type} (st : ReadState) (rest : α → Submit β) :
    (Submit.out st >>= rest) = .out st := rfl

@[simp] theorem Submit.spin_bind {α β : Type} (rest : α → Submit β) :
    (Submit.spin >>= rest) = .spin := rfl

/-- The state a path ended in. -/
def Submit.finalState : Submit ReadState → Option ReadState
  | .ok st => some st
  | .out st => some st
  | .spin => none

/-! ## Completions -/

namespace ReadState

/-- `op->err = e`. -/
def fail (st : ReadState) (e : OpError) : ReadState :=
  { st with op := { st.op with err := some e } }

/-- The bytes a command transfers. -/
def commandBytes (d : Driver) (c : Command) : Nat := (c.nlb + 1) * d.lbaSize

/-- The byte at offset `k` of the LBAs a command reads. -/
def commandData (d : Driver) (dev : Device) (c : Command) (k : Nat) : UInt8 :=
  dev.disk (c.slba + k / d.lbaSize) (k % d.lbaSize)

/-- `chunk_cb`. -/
def chunkCb (d : Driver) (c : Command) (success : Bool) (op : FileOp) : FileOp :=
  let op := if success then { op with bytesAcc := op.bytesAcc + commandBytes d c }
    else { op with err := some .deviceDriverError }
  { op with chunksRemaining := op.chunksRemaining - 1 }

/-- `bounce_cb`. -/
def bounceCb (success : Bool) (op : FileOp) : FileOp :=
  let op := if !success && op.err.isNone then { op with err := some .deviceDriverError } else op
  { op with bouncesOutstanding := op.bouncesOutstanding - 1 }

/-- The device finishes an outstanding command and runs its callback. -/
def complete (d : Driver) (dev : Device) (st : ReadState) (id : Nat) : ReadState :=
  match st.inflight.contains id, st.issued[id]? with
  | true, some c =>
    { st with
      inflight := st.inflight.erase id
      mem := if dev.succeeds id then
          st.mem.blit c.dst (commandBytes d c) (commandData d dev c)
        else st.mem
      op := match c.callback with
        | .chunk => chunkCb d c (dev.succeeds id) st.op
        | .bounce => bounceCb (dev.succeeds id) st.op }
  | _, _ => st

/-- `xnvme_queue_poke`: the listed commands complete, in this order. -/
def poke (d : Driver) (dev : Device) (poked : List Nat) (st : ReadState) : ReadState :=
  poked.foldl (complete d dev) st

/-- The queue takes a command. -/
def take (c : Command) (st : ReadState) : ReadState :=
  { st with issued := st.issued ++ [c], inflight := st.inflight ++ [st.issued.length] }

end ReadState

open ReadState

/-! ## Submission -/

/-- `op->chunks_remaining += n`. -/
def addChunks (n : Int) (st : ReadState) : ReadState :=
  { st with op := { st.op with chunksRemaining := st.op.chunksRemaining + n } }

/-- A pass of the loop in `submit_read_middle` that took no command. -/
def retryMiddle (d : Driver) (dev : Device) (st : ReadState) : Retry → ReadState
  | .noCtx poked => poke d dev poked st
  | .busy poked => poke d dev poked (addChunks (-1) (addChunks 1 st))

/-- `struct read_cursor`. -/
structure ReadCursor where
  curSlba : Nat
  absDst : Ptr Space
  remaining : Nat

/-- The `while` loop of `submit_read_middle`, from `lbas_done` on. -/
def submitReadMiddleLoop (d : Driver) (dev : Device) (c : ReadCursor) (middleLbas : Nat) :
    Nat → Nat → ReadState → Submit ReadState
  | 0, lbasDone, st => if lbasDone < middleLbas then .spin else .ok st
  | fuel + 1, lbasDone, st =>
    if lbasDone < middleLbas then
      let maxChunkLbas := d.mdtsNbytes >>> d.lbaShift
      let chunkLbas := min (min (middleLbas - lbasDone) maxChunkLbas) nvmeMaxNlb
      -- `(uint16_t)(chunk_lbas - 1)`
      let nlb := (chunkLbas + 65535) % 65536
      let cmd : Command := ⟨.chunk, c.curSlba + lbasDone, nlb, c.absDst.add (lbasDone * d.lbaSize)⟩
      let n := st.issued.length
      let st := (dev.retries n).foldl (retryMiddle d dev) st
      let st := addChunks 1 st
      if dev.takes n then
        submitReadMiddleLoop d dev c middleLbas fuel (lbasDone + chunkLbas) (take cmd st)
      else
        .out ((addChunks (-1) st).fail .deviceDriverError)
    else .ok st

/-- `submit_read_middle`. Every pass takes at least one LBA when MDTS holds one,
so `middleLbas` passes suffice. -/
def submitReadMiddle (d : Driver) (dev : Device) (c : ReadCursor) (middleLbas : Nat)
    (st : ReadState) : Submit (ReadCursor × ReadState) := do
  let st ← submitReadMiddleLoop d dev c middleLbas middleLbas 0 st
  return ({ curSlba := c.curSlba + middleLbas
            absDst := c.absDst.add (middleLbas * d.lbaSize)
            remaining := c.remaining - middleLbas * d.lbaSize }, st)

/-- A pass of the loop in `submit_bounce_read` that took no command. -/
def retryBounce (d : Driver) (dev : Device) (st : ReadState) : Retry → ReadState
  | .noCtx poked => poke d dev poked st
  | .busy poked => poke d dev poked st

/-- `submit_bounce_read`. -/
def submitBounceRead (d : Driver) (dev : Device) (bounceBuf : Nat) (absDst : Ptr Space)
    (slba srcOff nbytes : Nat) (st : ReadState) : Submit ReadState :=
  if bounceSlots ≤ st.op.bounces.length ∨ d.lbaSize < srcOff + nbytes then
    .out (st.fail .internalError)
  else
    let slot := st.op.bounces.length
    let bounce : Ptr Space := ⟨.bounce bounceBuf, ((slot * d.lbaSize : Nat) : Int)⟩
    let n := st.issued.length
    let st := (dev.retries n).foldl (retryBounce d dev) st
    if dev.takes n then
      let st := take ⟨.bounce, slba, 0, bounce⟩ st
      .ok { st with op := { st.op with
              bounces := st.op.bounces ++ [⟨absDst, bounce.add srcOff, nbytes⟩]
              bouncesOutstanding := st.op.bouncesOutstanding + 1
              bytesAcc := st.op.bytesAcc + nbytes } }
    else .out (st.fail .deviceDriverError)

/-- `submit_stream_bounce`. -/
def submitStreamBounce (d : Driver) (dev : Device) (bounceBuf : Nat) (absDst : Ptr Space)
    (curSlba nbytes : Nat) (st : ReadState) : Submit ReadState :=
  if st.op.bounces ≠ [] then .out (st.fail .internalError)
  else do
    let st ← submitBounceRead d dev bounceBuf absDst curSlba 0 nbytes st
    return { st with desc := { st.desc with dst := absDst, src := ⟨.bounce bounceBuf, 0⟩ } }

/-- `submit_host_bounce`. -/
def submitHostBounce (d : Driver) (dev : Device) (absDst : Ptr Space)
    (slba srcOff nbytes : Nat) (st : ReadState) : Submit ReadState :=
  let bounceBuf := st.op.bounceBuf <|> dev.bufAlloc
  match bounceBuf with
  | none => .out (st.fail .internalError)
  | some buf =>
    submitBounceRead d dev buf absDst slba srcOff nbytes
      { st with op := { st.op with bounceBuf := some buf } }

/-- `submit_partial`. -/
def submitPartial (d : Driver) (dev : Device) (absDst : Ptr Space)
    (slba srcOff nbytes : Nat) (st : ReadState) : Submit ReadState :=
  if d.assumeAlignedOnly then .out (st.fail .invalidValue)
  else match st.op.mode with
    | .stream bounceBuf =>
      if srcOff ≠ 0 then .out (st.fail .invalidValue)
      else submitStreamBounce d dev bounceBuf absDst slba nbytes st
    | .async => submitHostBounce d dev absDst slba srcOff nbytes st

/-- `resolve_extents` from one attempt on. -/
def resolveExtentsLoop (dev : Device) : Nat → Nat → Except Int (List Extent)
  | 0, _ => .error (-estale)
  | left + 1, attempt =>
    match dev.getExtents attempt with
    | .error rc => if rc = -estale then resolveExtentsLoop dev left (attempt + 1) else .error rc
    | .ok extents => .ok extents

/-- `resolve_extents`. -/
def resolveExtents (dev : Device) : Except Int (List Extent) :=
  resolveExtentsLoop dev estaleRetries 0

/-- The byte range a read asks for and where it goes. -/
structure Span where
  reqStart : Nat
  reqEnd : Nat
  dstBase : Ptr Space

/-- The `if (head_off)` block of `start_read_op`, for the part
`[spanStart, spanEnd)` of the request in extent `e`. The cursor stands past the
leading partial LBA afterwards. -/
def submitHead (d : Driver) (dev : Device) (r : Span) (e : Extent) (spanStart spanEnd : Nat)
    (st : ReadState) : Submit (ReadCursor × ReadState) :=
  let lbaMask := d.lbaSize - 1
  let offInExt := spanStart - e.fileOffset
  let absDst := r.dstBase.add (spanStart - r.reqStart)
  let curSlba := e.slba + (offInExt >>> d.lbaShift)
  let remaining := spanEnd - spanStart
  let headOff := offInExt &&& lbaMask
  if headOff ≠ 0 then do
    let headBytes := min (d.lbaSize - headOff) remaining
    if d.lbaSize ≤ remaining - headBytes ∧ headBytes &&& (nvmePrpOffsetAlign - 1) ≠ 0 then
      Submit.out (st.fail .invalidValue)
    else
      let st ← submitPartial d dev absDst curSlba headOff headBytes st
      return (⟨curSlba + 1, absDst.add headBytes, remaining - headBytes⟩, st)
  else return (⟨curSlba, absDst, remaining⟩, st)

/-- The rest of the body of the extent loop: the whole LBAs and the trailing
partial one. -/
def submitBody (d : Driver) (dev : Device) (c : ReadCursor) (st : ReadState) :
    Submit ReadState := do
  let lbaMask := d.lbaSize - 1
  let tailBytes := c.remaining &&& lbaMask
  let middleLbas := (c.remaining - tailBytes) >>> d.lbaShift
  let (c, st) ← (if middleLbas ≠ 0 then submitReadMiddle d dev c middleLbas st
    else return (c, st) : Submit (ReadCursor × ReadState))
  if tailBytes ≠ 0 then submitPartial d dev c.absDst c.curSlba 0 tailBytes st
  else return st

/-- The body of the extent loop of `start_read_op`. -/
def submitSpan (d : Driver) (dev : Device) (r : Span) (e : Extent) (spanStart spanEnd : Nat)
    (st : ReadState) : Submit ReadState := do
  let (c, st) ← submitHead d dev r e spanStart spanEnd st
  submitBody d dev c st

/-- The extent loop of `start_read_op`. -/
def submitExtents (d : Driver) (dev : Device) (r : Span) :
    List Extent → ReadState → Submit ReadState
  | [], st => .ok st
  | e :: rest, st =>
    if r.reqEnd ≤ e.fileOffset then .ok st
    else
      let spanStart := max r.reqStart e.fileOffset
      let spanEnd := min r.reqEnd e.fileEnd
      if spanEnd ≤ spanStart then submitExtents d dev r rest st
      else do
        let st ← submitSpan d dev r e spanStart spanEnd st
        submitExtents d dev r rest st

/-- The range and destination of an operation, as `start_read_op` computes them. -/
def FileOp.span (op : FileOp) : Span where
  reqStart := u64 op.fileOffset
  reqEnd := u64 op.fileOffset + op.size
  dstBase := ⟨.user, op.bufBase + op.bufOffset⟩

/-- `start_read_op`. -/
def startReadOp (d : Driver) (dev : Device) (st : ReadState) : Submit ReadState :=
  if d.lbaSize = 0 then .out (st.fail .internalError)
  else if d.mdtsNbytes >>> d.lbaShift = 0 then .out (st.fail .invalidValue)
  else if 2 ^ 64 - 1 - u64 st.op.fileOffset < st.op.size then .out (st.fail .invalidValue)
  else match resolveExtents dev with
    | .error _ => .out (st.fail .fsSetupError)
    | .ok extents => submitExtents d dev st.op.span extents st

/-! ## Dispatch and completion -/

/-- `dispatch_pending` of a read. -/
def dispatchPending (d : Driver) (dev : Device) (st : ReadState) : Option ReadState :=
  (startReadOp d dev { st with op := { st.op with
    chunksRemaining := 0, bouncesOutstanding := 0, bytesAcc := 0, err := none, bounces := []
    state := .inFlight } }).finalState

/-- `run_bounce_copies` from slot `i` on: whether all copies succeed, and the
memory after those that ran. -/
def runBounceCopies (dev : Device) : Nat → List BounceSlot → Memory Space UInt8 →
    Bool × Memory Space UInt8
  | _, [], mem => (true, mem)
  | i, slot :: rest, mem =>
    if dev.copies i then runBounceCopies dev (i + 1) rest (mem.copy slot.nbytes slot.dst slot.src)
    else (false, mem)

/-- `complete_read_op`. The release of the gate of a stream operation is the
store of its result here. -/
def completeReadOp (dev : Device) (st : ReadState) : ReadState :=
  let n : Int := match st.op.err with
    | some e => -e.code
    | none => ssize st.op.bytesAcc
  match st.op.mode with
  | .stream _ =>
    let tailBytes := if st.op.err.isSome then 0 else (st.op.bounces.head?.map (·.nbytes)).getD 0
    { st with
      desc := { st.desc with nBytes := tailBytes }
      op := { st.op with result := some n, state := .free } }
  | .async =>
    if st.op.err.isNone then
      let (copied, mem) := runBounceCopies dev 0 st.op.bounces st.mem
      let n := if copied then n else -OpError.deviceDriverError.code
      { st with mem := mem, op := { st.op with result := some n, state := .free } }
    else { st with op := { st.op with result := some n, state := .free } }

/-- `reap_in_flight`. -/
def reapInFlight (dev : Device) (st : ReadState) : ReadState :=
  if st.op.chunksRemaining = 0 ∧ st.op.bouncesOutstanding = 0 then completeReadOp dev st else st

/-- One iteration of `io_thread_main` as far as it concerns this operation: the
scan visits it, and the poke at the end completes the listed commands. -/
def ioPass (d : Driver) (dev : Device) (st : ReadState) (poked : List Nat) : Option ReadState :=
  (match st.op.state with
    | .pending => dispatchPending d dev st
    | .inFlight => some (reapInFlight dev st)
    | .free => some st).map (poke d dev poked)

/-- The iterations of `io_thread_main` with the given pokes. -/
def ioThread (d : Driver) (dev : Device) : List (List Nat) → ReadState → Option ReadState
  | [], st => some st
  | poked :: rest, st => (ioPass d dev st poked).bind (ioThread d dev rest)

end OpenDS.Aisio
