import OpenDS.Aisio.ReadPlan
import OpenDS.Aisio.ReadRun
import OpenDS.Library.Transition

/-!
# A read, one answer at a time

The read engine of an I/O worker serves many reads at once: while it waits for the
queue to take a command of one read, a poke may complete commands of any other. A read
alone is therefore a machine that is told one answer after the other: what the cells of
the caller hold, the extents, the allocation of a bounce buffer, whether the queue takes
the command it is offered, which outstanding command has completed and how, and the
results of the copies.

Its states hold what is left of the plan while `start_read_op` runs. The operations on
the state are those of `ReadOp`, each on a device that gives the one answer.
-/

set_option autoImplicit false

namespace OpenDS.Aisio

open OpenDS.Library ReadState

/-! ## Answers -/

/-- The values that `start_read_op` reads of a request. -/
structure Request where
  size : Nat
  fileOffset : Int
  bufOffset : Int
  deriving DecidableEq, Repr

/-- What a read is told. -/
inductive Answer where
  /-- The read is dispatched; what the cells of a stream operation hold, and what
  `homic_get_extents` answers, attempt by attempt. -/
  | resolved (cells : Request) (getExtents : Nat → Except Int (List Extent))
  /-- What `buf_alloc_locked` answers if it is asked. -/
  | enter (alloc : Option Nat)
  /-- There is no free context, or the queue is busy; a poke begins. -/
  | retry (busy : Bool)
  /-- A poke completes the command at a place of the log. -/
  | arrived (place : Nat) (ok : Bool)
  /-- The poke ends. -/
  | poked
  /-- The queue takes the command, or refuses it. -/
  | attempt (takes : Bool)
  /-- Nothing is left to submit. -/
  | submitted
  /-- The read is reaped; which copies out of the bounce buffer succeed. -/
  | copies (ok : Nat → Bool)

/-- What `start_read_op` has still to do, and whether it is in a poke. -/
structure Submission where
  todo : List Item
  poking : Bool
  deriving DecidableEq, Repr

/-- A read between two answers. -/
structure ReadTask where
  st : ReadState
  sub : Option Submission

/-- A device that takes every command at once and completes it with success. -/
def obliging (disk : Nat → Nat → UInt8) : Device := .serving disk []

/-- `start_read_op` reads the request from the operation, or from the caller's cells. -/
def ReadState.ask (cells : Request) (st : ReadState) : ReadState :=
  match st.op.mode with
  | .async => st
  | .stream _ => { st with op := { st.op with
      size := cells.size, fileOffset := cells.fileOffset, bufOffset := cells.bufOffset } }

/-- The bounce buffer that an operation reads a partial LBA into, if the allocation of
one is answered with `alloc`. -/
def FileOp.lent (op : FileOp) (alloc : Option Nat) : Option Nat :=
  match op.mode with
  | .stream buf => some buf
  | .async => op.bounceBuf <|> alloc

/-- A pass of the loop around a command that the queue does not take. -/
def retryItem (d : Driver) (dev : Device) (item : Item) (busy : Bool) (st : ReadState) :
    ReadState :=
  let retry : Retry := if busy then .busy [] else .noCtx []
  match item with
  | .chunk _ _ _ => retryMiddle d dev st retry
  | _ => retryBounce d dev st retry

namespace ReadTask

/-- Go on with the rest of the plan, or leave through `out`. -/
def goOn (rest : List Item) : Submit ReadState → Option ReadTask
  | .ok st => some ⟨st, some ⟨rest, false⟩⟩
  | .out st => some ⟨st, none⟩
  | .spin => none

/-- `dispatch_pending`, and `start_read_op` up to the extent loop. -/
def begin (d : Driver) (dev : Device) (st : ReadState) : ReadTask :=
  let st := dispatched st
  match planRead d dev st.op with
  | .error e => ⟨st.fail e, none⟩
  | .ok items => ⟨st, some ⟨items, false⟩⟩

/-- One answer. -/
def step (d : Driver) (disk : Nat → Nat → UInt8) (t : ReadTask) : Answer → Option ReadTask
  | .resolved cells getExtents =>
    if t.sub = none ∧ t.st.op.state = .pending then
      some (begin d { obliging disk with getExtents := getExtents } (t.st.ask cells))
    else none
  | .enter alloc => match t.sub with
    | some ⟨.partialLba absDst slba srcOff nbytes :: rest, false⟩ =>
      match enterPartial d alloc srcOff nbytes t.st with
      | .ok (buf, st) => some ⟨st, some ⟨.bounceRead buf absDst slba srcOff nbytes :: rest, false⟩⟩
      | .out st => some ⟨st, none⟩
      | .spin => none
    | _ => none
  | .retry busy => match t.sub with
    | some ⟨item :: rest, false⟩ =>
      if item.waits then
        some ⟨retryItem d (obliging disk) item busy t.st, some ⟨item :: rest, true⟩⟩
      else none
    | _ => none
  | .arrived place ok =>
    if place ∈ t.st.inflight ∧ (∀ sub, t.sub = some sub → sub.poking = true) then
      some ⟨complete d { obliging disk with succeeds := fun _ => ok } t.st place, t.sub⟩
    else none
  | .poked => match t.sub with
    | some ⟨todo, true⟩ => some ⟨t.st, some ⟨todo, false⟩⟩
    | _ => none
  | .attempt takes => match t.sub with
    | some ⟨.partialLba _ _ _ _ :: _, false⟩ => none
    | some ⟨item :: rest, false⟩ =>
      goOn rest (runItem d { obliging disk with takes := fun _ => takes } item t.st)
    | _ => none
  | .submitted => match t.sub with
    | some ⟨[], false⟩ => some ⟨t.st, none⟩
    | _ => none
  | .copies ok =>
    if t.sub = none ∧ t.st.op.state = .inFlight ∧ t.st.op.chunksRemaining = 0 ∧
        t.st.op.bouncesOutstanding = 0 then
      some ⟨completeReadOp { obliging disk with copies := ok } t.st, none⟩
    else none

end ReadTask

/-- **A read alone**, on a device with the given bytes. -/
def readAlone (d : Driver) (disk : Nat → Nat → UInt8) : Machine ReadTask Answer where
  step := ReadTask.step d disk

/-! ## What an answer can do -/

section Partial

variable {d : Driver} {alloc : Option Nat} {srcOff nbytes buf : Nat} {st st' : ReadState}

/-- What a partial LBA is read into once it is entered: the bounce slot of the stream,
for the only partial LBA of an operation that starts on a boundary, or the buffer of the
operation. -/
inductive Entered (st : ReadState) (alloc : Option Nat) (srcOff buf : Nat) : ReadState → Prop where
  | stream : st.op.mode = .stream buf → srcOff = 0 → st.op.bounces = [] →
      Entered st alloc srcOff buf st
  | host : st.op.mode = .async → (st.op.bounceBuf <|> alloc) = some buf →
      Entered st alloc srcOff buf { st with op := { st.op with bounceBuf := some buf } }

theorem enterPartial_ok (entered : enterPartial d alloc srcOff nbytes st = .ok (buf, st')) :
    Entered st alloc srcOff buf st' ∧ st.op.bounces.length < bounceSlots ∧
      srcOff + nbytes ≤ d.lbaSize := by
  unfold enterPartial checkBounce at entered
  split at entered
  · cases entered
  · split at entered
    · rename_i mode
      split at entered
      · cases entered
      · rename_i head
        split at entered
        · cases entered
        · rename_i first
          split at entered
          · cases entered
          · rename_i fits
            cases entered
            exact ⟨.stream mode (by omega) (not_not.mp first), by omega, by omega⟩
    · rename_i mode
      split at entered
      · cases entered
      · rename_i found
        split at entered
        · cases entered
        · rename_i fits
          cases entered
          exact ⟨.host mode found, by simp only at fits; omega, by simp only at fits; omega⟩

/-- What bars a partial LBA leaves an error and at most a bounce buffer behind. -/
theorem enterPartial_out (barred : enterPartial d alloc srcOff nbytes st = .out st') :
    ∃ e held, st' = ({ st with op := { st.op with bounceBuf := held } } : ReadState).fail e ∧
      (held = st.op.bounceBuf ∨ st.op.mode = .async ∧ held = (st.op.bounceBuf <|> alloc)) := by
  unfold enterPartial checkBounce at barred
  split at barred
  · cases barred
    exact ⟨_, st.op.bounceBuf, rfl, .inl rfl⟩
  · split at barred
    · split at barred
      · cases barred
        exact ⟨_, st.op.bounceBuf, rfl, .inl rfl⟩
      · split at barred
        · cases barred
          exact ⟨_, st.op.bounceBuf, rfl, .inl rfl⟩
        · split at barred
          · cases barred
            exact ⟨_, st.op.bounceBuf, rfl, .inl rfl⟩
          · cases barred
    · rename_i mode
      split at barred
      · cases barred
        exact ⟨_, st.op.bounceBuf, rfl, .inl rfl⟩
      · rename_i found
        split at barred
        · cases barred
          exact ⟨_, _, rfl, .inr ⟨mode, found.symm⟩⟩
        · cases barred

end Partial

/-- The queue takes the command of an item. -/
def Item.Takes (d : Driver) (item : Item) (st st' : ReadState) : Prop :=
  match item with
  | .chunk slba nlb dst => st' = take ⟨.chunk, slba, nlb, dst⟩ (addChunks 1 st)
  | .bounceRead buf absDst slba srcOff nbytes =>
    let bounce : Ptr Space := ⟨.bounce buf, ((st.op.bounces.length * d.lbaSize : Nat) : Int)⟩
    st' = describe st.op.mode absDst
      { take ⟨.bounce, slba, 0, bounce⟩ st with op := { st.op with
        bounces := st.op.bounces ++ [⟨absDst, bounce.add srcOff, nbytes⟩]
        bouncesOutstanding := st.op.bouncesOutstanding + 1
        bytesAcc := st.op.bytesAcc + nbytes } }
  | _ => False

/-- The effects of the answers. -/
inductive TaskEffect (d : Driver) (disk : Nat → Nat → UInt8) (t : ReadTask) :
    Answer → ReadTask → Prop where
  | fails (cells : Request) (getExtents : Nat → Except Int (List Extent)) (e : OpError) :
      t.sub = none → t.st.op.state = .pending →
      planRead d { obliging disk with getExtents := getExtents } (dispatched (t.st.ask cells)).op =
        .error e →
      TaskEffect d disk t (.resolved cells getExtents) ⟨(dispatched (t.st.ask cells)).fail e, none⟩
  | planned (cells : Request) (getExtents : Nat → Except Int (List Extent)) (items : List Item) :
      t.sub = none → t.st.op.state = .pending →
      planRead d { obliging disk with getExtents := getExtents } (dispatched (t.st.ask cells)).op =
        .ok items →
      TaskEffect d disk t (.resolved cells getExtents)
        ⟨dispatched (t.st.ask cells), some ⟨items, false⟩⟩
  | entered (alloc : Option Nat) (absDst : Ptr Space) (slba srcOff nbytes : Nat)
      (rest : List Item) (buf : Nat) (st : ReadState) :
      t.sub = some ⟨.partialLba absDst slba srcOff nbytes :: rest, false⟩ →
      enterPartial d alloc srcOff nbytes t.st = .ok (buf, st) →
      TaskEffect d disk t (.enter alloc)
        ⟨st, some ⟨.bounceRead buf absDst slba srcOff nbytes :: rest, false⟩⟩
  | barred (alloc : Option Nat) (absDst : Ptr Space) (slba srcOff nbytes : Nat)
      (rest : List Item) (st : ReadState) :
      t.sub = some ⟨.partialLba absDst slba srcOff nbytes :: rest, false⟩ →
      enterPartial d alloc srcOff nbytes t.st = .out st →
      TaskEffect d disk t (.enter alloc) ⟨st, none⟩
  | retry (busy : Bool) (item : Item) (rest : List Item) : t.sub = some ⟨item :: rest, false⟩ →
      item.waits = true → TaskEffect d disk t (.retry busy) ⟨t.st, some ⟨item :: rest, true⟩⟩
  | arrived (place : Nat) (ok : Bool) : place ∈ t.st.inflight →
      (∀ sub, t.sub = some sub → sub.poking = true) →
      TaskEffect d disk t (.arrived place ok)
        ⟨complete d { obliging disk with succeeds := fun _ => ok } t.st place, t.sub⟩
  | poked (todo : List Item) : t.sub = some ⟨todo, true⟩ →
      TaskEffect d disk t .poked ⟨t.st, some ⟨todo, false⟩⟩
  | taken (item : Item) (rest : List Item) (st : ReadState) : t.sub = some ⟨item :: rest, false⟩ →
      item.Takes d t.st st → TaskEffect d disk t (.attempt true) ⟨st, some ⟨rest, false⟩⟩
  | refused (item : Item) (rest : List Item) : t.sub = some ⟨item :: rest, false⟩ →
      item.waits = true →
      TaskEffect d disk t (.attempt false) ⟨t.st.fail .deviceDriverError, none⟩
  | rejected (takes : Bool) (e : OpError) (rest : List Item) :
      t.sub = some ⟨.reject e :: rest, false⟩ →
      TaskEffect d disk t (.attempt takes) ⟨t.st.fail e, none⟩
  | submitted : t.sub = some ⟨[], false⟩ → TaskEffect d disk t .submitted ⟨t.st, none⟩
  | reaped (ok : Nat → Bool) : t.sub = none → t.st.op.state = .inFlight →
      t.st.op.chunksRemaining = 0 → t.st.op.bouncesOutstanding = 0 →
      TaskEffect d disk t (.copies ok)
        ⟨completeReadOp { obliging disk with copies := ok } t.st, none⟩

variable {d : Driver} {disk : Nat → Nat → UInt8}

/-- What is undone of an attempt on a busy queue leaves nothing behind. -/
theorem retryItem_eq (dev : Device) (item : Item) (busy : Bool) (st : ReadState) :
    retryItem d dev item busy st = st := by
  cases item with
  | chunk => cases busy <;> simp [retryItem, retryMiddle, poke]
  | _ => cases busy <;> rfl

/-- **Every answer has one of the effects.** -/
theorem ReadTask.step_effect {t t' : ReadTask} {a : Answer} (step : t.step d disk a = some t') :
    TaskEffect d disk t a t' := by
  obtain ⟨st, sub⟩ := t
  cases a with
  | resolved cells getExtents =>
      simp only [ReadTask.step] at step
      split at step
      · rename_i ready
        simp only [begin, Option.some.injEq] at step
        split at step
        · rename_i e failed
          cases step
          exact .fails cells getExtents e ready.1 ready.2 failed
        · rename_i items planned
          cases step
          exact .planned cells getExtents items ready.1 ready.2 planned
      · cases step
  | enter alloc =>
      simp only [ReadTask.step] at step
      split at step
      · rename_i absDst slba srcOff nbytes rest
        split at step
        · rename_i buf st' entered
          cases step
          exact .entered alloc absDst slba srcOff nbytes rest buf st' rfl entered
        · rename_i st' barred
          cases step
          exact .barred alloc absDst slba srcOff nbytes rest st' rfl barred
        · cases step
      · cases step
  | retry busy =>
      simp only [ReadTask.step] at step
      split at step
      · rename_i item rest
        split at step
        · rename_i waits
          rw [retryItem_eq] at step
          cases step
          exact .retry busy item rest rfl waits
        · cases step
      · cases step
  | arrived place ok =>
      simp only [ReadTask.step] at step
      split at step
      · rename_i ready
        cases step
        exact .arrived place ok ready.1 ready.2
      · cases step
  | poked =>
      simp only [ReadTask.step] at step
      split at step
      · rename_i todo
        cases step
        exact .poked todo rfl
      · cases step
  | attempt takes =>
      simp only [ReadTask.step] at step
      split at step
      · cases step
      · rename_i item rest notPartial
        cases item with
        | chunk slba nlb dst =>
            cases takes with
            | true =>
                cases step
                exact .taken _ rest _ rfl rfl
            | false =>
                have undone : addChunks (-1) (addChunks 1 st) = st := addChunks_cancel st
                have out : some (ReadTask.mk ((addChunks (-1) (addChunks 1 st)).fail
                    .deviceDriverError) none) = some t' := step
                rw [undone] at out
                cases out
                exact .refused _ rest rfl rfl
        | partialLba absDst slba srcOff nbytes =>
            exact absurd rfl (notPartial absDst slba srcOff nbytes)
        | bounceRead buf absDst slba srcOff nbytes =>
            cases takes with
            | true =>
                cases step
                exact .taken _ rest _ rfl rfl
            | false =>
                cases step
                exact .refused _ rest rfl rfl
        | reject e =>
            cases step
            exact .rejected takes e rest rfl
        | spin => cases step
      · cases step
  | submitted =>
      simp only [ReadTask.step] at step
      split at step
      · cases step
        exact .submitted rfl
      · cases step
  | copies ok =>
      simp only [ReadTask.step] at step
      split at step
      · rename_i ready
        cases step
        exact .reaped ok ready.1 ready.2.1 ready.2.2.1 ready.2.2.2
      · cases step

end OpenDS.Aisio
