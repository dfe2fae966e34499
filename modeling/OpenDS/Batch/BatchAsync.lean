import OpenDS.Library.SlotTable
import OpenDS.Library.Transition

/-!
# Batches on the asynchronous API

The batch object of `opends_batch_async.c` and its calls. A batch is used by one
thread, so its calls follow each other, and the only thing that happens beside them is
that the asynchronous layer completes an operation it has accepted: it writes the
result through the future it was given, which lies in an entry of the batch, and then
sets `done`.

A step is one pass of a loop of a call. What the batch cannot decide is a label: the
operations that the asynchronous layer accepts, what they complete with and when, and
what the clock says.
-/

set_option autoImplicit false

namespace OpenDS.Batch

open OpenDS.Library

/-! ## Data -/

/-- The members of `opends_op_error_t` that a call on a batch returns. -/
inductive BatchError where
  | success
  | invalidValue
  | internalError
  | batchFull
  deriving DecidableEq, Repr

/-- The value of the enumerator in `opends.h`. -/
def BatchError.code : BatchError → Int
  | .success => 0
  | .invalidValue => 5022
  | .internalError => 5030
  | .batchFull => 5037

/-- The members of `opends_status_t` that an event carries. -/
inductive EventStatus where
  | canceled
  | complete
  | failed
  deriving DecidableEq, Repr

/-- `opends_io_events_t`. -/
structure IoEvent where
  cookie : Nat
  status : EventStatus
  ret : Nat
  deriving DecidableEq, Repr

/-- `opends_opcode_t`. -/
inductive Opcode where
  | read
  | write
  deriving DecidableEq, Repr

/-- `opends_io_params_t`, without the mode, which nothing reads. -/
structure IoParams where
  devPtrBase : Nat
  fileOffset : Int
  devPtrOffset : Int
  size : Nat
  fh : Nat
  opcode : Opcode
  cookie : Nat
  deriving DecidableEq, Repr

/-- `opends_async_future_t`. -/
structure AsyncFuture where
  done : Bool
  result : Int
  deriving DecidableEq, Repr

/-- `struct batch_entry`. `id` is no field of the source: it is the place of the
operation among those submitted, and no step depends on it. -/
structure BatchEntry where
  future : AsyncFuture
  cookie : Nat
  failed : Bool
  canceled : Bool
  delivered : Bool
  id : Nat
  deriving DecidableEq, Repr

/-- An entry of zero bytes. -/
def zeroEntry : BatchEntry := ⟨⟨false, 0⟩, 0, false, false, false, 0⟩

/-- `struct async_batch`. The entries are the memory that `entries` points to, and the
counters are `unsigned`. -/
structure AsyncBatch where
  entries : Nat → BatchEntry
  used : Nat
  inflight : Nat
  capacity : Nat

/-- `struct timespec`. -/
structure Timespec where
  tvSec : Int
  tvNsec : Int
  deriving DecidableEq, Repr

/-- The arguments and the deadline of a call of `opends_batch_get_status`. -/
structure StatusCall where
  minNr : Nat
  nr : Nat
  deadline : Option Timespec
  deriving DecidableEq, Repr

/-- Where the thread that uses the batch stands. -/
inductive BatchPc where
  /-- Between two calls. -/
  | idle
  /-- In the loop of `opends_batch_submit`, before these operations. -/
  | submit (rest : List IoParams)
  /-- In `count_ready`. -/
  | count (call : StatusCall) (i ready : Nat)
  /-- Before the clock is read in the waiting loop of `opends_batch_get_status`. -/
  | clock (call : StatusCall)
  /-- In the loop of `opends_batch_get_status` that writes the events. -/
  | collect (call : StatusCall) (i out : Nat)
  /-- In the loop of `opends_batch_cancel`. -/
  | cancel (i : Nat)
  /-- In the loop of `opends_batch_destroy`. -/
  | destroy (i : Nat)
  /-- Past `opends_batch_destroy`. -/
  | destroyed
  deriving DecidableEq, Repr

/-- An operation that the asynchronous layer has accepted and not completed: what it
was asked for, and the entry whose future it completes. -/
structure AsyncOp where
  params : IoParams
  slot : Nat
  id : Nat
  deriving DecidableEq, Repr

/-- An operation that was submitted, and whether the asynchronous layer accepted it. -/
structure Submission where
  params : IoParams
  accepted : Bool
  deriving DecidableEq, Repr

/-- An event, and the operation in whose entry it was found. -/
structure Delivery where
  op : Nat
  event : IoEvent
  deriving DecidableEq, Repr

/-- What has happened to a batch. No step depends on it. -/
structure History where
  submitted : List Submission
  results : Nat → Option Int
  canceled : Nat → Bool
  events : List Delivery

/-- A batch, the thread that uses it, what the asynchronous layer has in flight for it,
and what the last call returned. -/
structure BatchState where
  batch : AsyncBatch
  pc : BatchPc
  outstanding : List AsyncOp
  returned : BatchError
  history : History

/-- What the caller, the asynchronous layer and the clock decide. -/
inductive BatchLabel where
  | submit (iocbp : Option (List IoParams))
  | getStatus (minNr : Nat) (nr : Option Nat) (iocbp : Bool) (timeout : Option Timespec)
      (now : Timespec)
  | cancel
  | destroy
  | go
  | async (accepted : Bool)
  | clock (now : Timespec)
  | complete (index : Nat) (result : Int)
  deriving DecidableEq, Repr

/-! ## The entries -/

/-- `entry_done`. -/
def BatchEntry.isDone (e : BatchEntry) : Bool := e.failed || e.future.done

/-- The entry holds an operation that was not delivered. -/
def BatchEntry.undelivered (e : BatchEntry) : Bool := !e.delivered

namespace AsyncBatch

/-- Store an entry. -/
def store (b : AsyncBatch) (i : Nat) (e : BatchEntry) : AsyncBatch :=
  { b with entries := Function.update b.entries i e }

@[simp] theorem store_entries (b : AsyncBatch) (i : Nat) (e : BatchEntry) :
    (b.store i e).entries = Function.update b.entries i e := rfl

/-- `entry_take`, with the place of the entry it returns. -/
def entryTake (b : AsyncBatch) : Nat × AsyncBatch :=
  match (List.range b.used).find? fun i => (b.entries i).delivered with
  | some i => (i, b.store i zeroEntry)
  | none => (b.used, { b with used := (b.used + 1) % 2 ^ 32 })

/-- `capacity - inflight`. -/
def room (b : AsyncBatch) : Nat := (b.capacity + (2 ^ 32 - b.inflight)) % 2 ^ 32

/-- The entries with an operation that was not delivered. -/
def undelivered (b : AsyncBatch) : Multiset BatchEntry :=
  held BatchEntry.undelivered b.entries b.used

end AsyncBatch

/-- The `size_t` that an event reports for a result, and its status. -/
def reported (r : Int) : EventStatus × Nat := if r < 0 then (.failed, 0) else (.complete, r.toNat)

/-- `opends_async_await` past its loop. It waits as long as the future is not done. -/
def AsyncFuture.await (f : AsyncFuture) : Option Int := if f.done then some f.result else none

/-- The event of an entry. -/
def BatchEntry.event (e : BatchEntry) : Option IoEvent :=
  if e.canceled then some ⟨e.cookie, .canceled, 0⟩
  else if e.failed then some ⟨e.cookie, .failed, 0⟩
  else e.future.await.map fun r => ⟨e.cookie, (reported r).1, (reported r).2⟩

/-! ## The clock -/

/-- The value that a `time_t` holds after an addition. C leaves the overflow undefined; the
compiled code wraps. -/
def timeT (seconds : Int) : Int := Int.bmod seconds (2 ^ 64)

/-- The deadline of a call: the timeout past the time of the call. -/
def Timespec.deadline (now timeout : Timespec) : Timespec :=
  let tvSec := timeT (now.tvSec + timeout.tvSec)
  let tvNsec := now.tvNsec + timeout.tvNsec
  if 1000000000 ≤ tvNsec then ⟨timeT (tvSec + 1), tvNsec - 1000000000⟩ else ⟨tvSec, tvNsec⟩

/-- The deadline has come. -/
def Timespec.reached (deadline now : Timespec) : Bool :=
  decide (deadline.tvSec < now.tvSec ∨
    (now.tvSec = deadline.tvSec ∧ deadline.tvNsec ≤ now.tvNsec))

/-! ## The calls -/

/-- `opends_batch_setup` past its allocations. -/
def batchSetup (nr : UInt32) : Except BatchError BatchState :=
  if nr = 0 then .error .invalidValue
  else .ok {
    batch := ⟨fun _ => zeroEntry, 0, 0, nr.toNat⟩
    pc := .idle
    outstanding := []
    returned := .success
    history := ⟨[], fun _ => none, fun _ => false, []⟩ }

namespace BatchState

/-- A call returns. -/
def leave (s : BatchState) (err : BatchError) : BatchState :=
  { s with pc := .idle, returned := err }

/-- The thread goes on. -/
def goTo (s : BatchState) (pc : BatchPc) : BatchState := { s with pc := pc }

/-- The checks of `opends_batch_submit`. -/
def submitCall (s : BatchState) (iocbp : Option (List IoParams)) : BatchState :=
  match iocbp with
  | none => s.leave .invalidValue
  | some params =>
    if s.batch.room < params.length then s.leave .batchFull else s.goTo (.submit params)

/-- One pass of the loop of `opends_batch_submit`. -/
def submitOne (s : BatchState) (p : IoParams) (rest : List IoParams) (accepted : Bool) :
    BatchState :=
  let (slot, b) := s.batch.entryTake
  let id := s.history.submitted.length
  let e := { b.entries slot with cookie := p.cookie, id := id }
  let e := if accepted then e else { e with failed := true }
  { s with
    batch := { b.store slot e with inflight := (b.inflight + 1) % 2 ^ 32 }
    pc := .submit rest
    outstanding := s.outstanding ++ (if accepted then [⟨p, slot, id⟩] else [])
    history := { s.history with submitted := s.history.submitted ++ [⟨p, accepted⟩] } }

/-- The checks of `opends_batch_get_status`, and its deadline. -/
def statusCall (s : BatchState) (minNr : Nat) (nr : Option Nat) (iocbp : Bool)
    (timeout : Option Timespec) (now : Timespec) : BatchState :=
  match nr, iocbp with
  | some nr, true =>
    if nr < minNr ∨ s.batch.inflight < minNr then s.leave .invalidValue
    else s.goTo (.count ⟨minNr, nr, timeout.map now.deadline⟩ 0 0)
  | _, _ => s.leave .invalidValue

/-- One pass of the loop of `count_ready`, or the test of the waiting loop past it. -/
def countOne (s : BatchState) (call : StatusCall) (i ready : Nat) : BatchState :=
  if i < s.batch.used then
    let e := s.batch.entries i
    s.goTo (.count call (i + 1) (if !e.delivered && e.isDone then ready + 1 else ready))
  else if ready < call.minNr then
    match call.deadline with
    | some _ => s.goTo (.clock call)
    | none => s.goTo (.count call 0 0)
  else s.goTo (.collect call 0 0)

/-- The waiting loop past `clock_gettime`. -/
def waitOne (s : BatchState) (call : StatusCall) (now : Timespec) : BatchState :=
  match call.deadline with
  | some deadline =>
    if deadline.reached now then s.goTo (.collect call 0 0) else s.goTo (.count call 0 0)
  | none => s.goTo (.count call 0 0)

/-- The delivery of an entry. -/
def deliver (s : BatchState) (call : StatusCall) (i out : Nat) (event : IoEvent) : BatchState :=
  let e := s.batch.entries i
  { s with
    batch := { s.batch.store i { e with delivered := true } with
      inflight := (s.batch.inflight + (2 ^ 32 - 1)) % 2 ^ 32 }
    pc := .collect call (i + 1) (out + 1)
    history := { s.history with events := s.history.events ++ [⟨e.id, event⟩] } }

/-- One pass of the loop of `opends_batch_get_status` that writes the events. -/
def collectOne (s : BatchState) (call : StatusCall) (i out : Nat) : Option BatchState :=
  if i < s.batch.used ∧ out < call.nr then
    let e := s.batch.entries i
    if e.delivered || !e.isDone then some (s.goTo (.collect call (i + 1) out))
    else e.event.map (s.deliver call i out)
  else some (s.leave .success)

/-- `opends_batch_cancel` is called. -/
def cancelCall (s : BatchState) : BatchState :=
  { s with
    pc := .cancel 0
    history := { s.history with
      canceled := fun k => s.history.canceled k ||
        decide (k ∈ s.batch.undelivered.map BatchEntry.id) } }

/-- One pass of the loop of `opends_batch_cancel`. -/
def cancelOne (s : BatchState) (i : Nat) : Option BatchState :=
  if i < s.batch.used then
    let e := s.batch.entries i
    if e.delivered then some (s.goTo (.cancel (i + 1)))
    else
      let canceled := { s with
        batch := s.batch.store i { e with canceled := true }
        pc := .cancel (i + 1) }
      if e.failed then some canceled else e.future.await.map fun _ => canceled
  else some (s.leave .success)

/-- One pass of the loop of `opends_batch_destroy`. -/
def destroyOne (s : BatchState) (i : Nat) : Option BatchState :=
  if i < s.batch.used then
    let e := s.batch.entries i
    if e.failed then some (s.goTo (.destroy (i + 1)))
    else e.future.await.map fun _ => s.goTo (.destroy (i + 1))
  else some (s.goTo .destroyed)

/-- The asynchronous layer completes an operation. -/
def arrive (s : BatchState) (index : Nat) (result : Int) : Option BatchState :=
  (s.outstanding[index]?).map fun a =>
    { s with
      batch := s.batch.store a.slot { s.batch.entries a.slot with future := ⟨true, result⟩ }
      outstanding := s.outstanding.eraseIdx index
      history := { s.history with
        results := Function.update s.history.results a.id (some result) } }

end BatchState

/-- **The batch.** -/
def batchMachine : Machine BatchState BatchLabel where
  step s label := match s.pc, label with
    | _, .complete index result => s.arrive index result
    | .idle, .submit iocbp => some (s.submitCall iocbp)
    | .idle, .getStatus minNr nr iocbp timeout now =>
      some (s.statusCall minNr nr iocbp timeout now)
    | .idle, .cancel => some s.cancelCall
    | .idle, .destroy => some (s.goTo (.destroy 0))
    | .submit (p :: rest), .async accepted => some (s.submitOne p rest accepted)
    | .submit [], .go => some (s.leave .success)
    | .count call i ready, .go => some (s.countOne call i ready)
    | .clock call, .clock now => some (s.waitOne call now)
    | .collect call i out, .go => s.collectOne call i out
    | .cancel i, .go => s.cancelOne i
    | .destroy i, .go => s.destroyOne i
    | _, _ => none

end OpenDS.Batch
