import OpenDS.Library.Counter
import OpenDS.Library.Transition
import OpenDS.Aisio.ReadOp

/-!
# Operations and their lives

What a submission writes into a `struct file_op`, what happens to the operation from
its dispatch to its completion, and the life an operation should have: it is
dispatched once, its commands and only its commands are accounted to it, its result
is stored once, and its own future or its own gate is completed once.

The life says what the I/O engine is for. It knows nothing of queues, slots and
threads.
-/

set_option autoImplicit false

namespace OpenDS.Engine

open OpenDS.Library OpenDS.Aisio

/-! ## What a submission writes -/

/-- `struct file_op_async`. -/
structure FileOpAsync where
  size : Nat
  fileOffset : Int
  bufOffset : Int
  future : Nat
  deriving DecidableEq, Repr

/-- `struct file_op_stream` without `seq`: the caller's cells and the stream. -/
structure FileOpStream where
  sizeP : Nat
  fileOffsetP : Nat
  bufOffsetP : Nat
  bytesReadP : Nat
  stream : Nat
  deriving DecidableEq, Repr

/-- The union `u` of `struct file_op`. `seq` is the turn of the operation on its
stream in 32 bits. -/
inductive OpArgs where
  | async (a : FileOpAsync)
  | stream (a : FileOpStream) (turn : Nat)
  deriving DecidableEq, Repr

/-- The fields of `struct file_op` that a submission writes. -/
structure OpFields where
  isWrite : Bool
  h : Nat
  bufBase : Int
  u : OpArgs
  deriving DecidableEq, Repr

/-- What an operation reports to: its future, or its byte count cell and its gate. -/
inductive Target where
  | future (future : Nat)
  | gate (bytesReadP stream turn : Nat)
  deriving DecidableEq, Repr

/-- What the operation has to report to. -/
def OpFields.target (f : OpFields) : Target :=
  match f.u with
  | .async a => .future a.future
  | .stream a turn => .gate a.bytesReadP a.stream turn

/-! ## Results -/

/-- The value of `EINVAL`. -/
def einval : Int := 22

/-- The result of `dispatch_write`, from that of `pwrite_op`. -/
def writeResult (n : Int) : Int :=
  if n < 0 then
    (if n = -einval then -OpError.invalidValue.code else -OpError.deviceDriverError.code)
  else n

/-- The result of `complete_read_op`, from what has been accounted and whether
`run_bounce_copies` succeeds. -/
def OpFields.readResult (f : OpFields) (bytesAcc : Nat) (err : Option OpError) (copied : Bool) :
    Int :=
  match err, f.u with
  | some e, _ => -e.code
  | none, .stream _ _ => ssize bytesAcc
  | none, .async _ => if copied then ssize bytesAcc else -OpError.deviceDriverError.code

/-! ## What happens to an operation -/

/-- What happens to an operation past its publication. A command is told by its
callback and the bytes it is to move. -/
inductive OpEvent where
  | dispatched
  | issued (callback : Callback) (nbytes : Nat)
  | arrived (callback : Callback) (nbytes : Nat) (ok : Bool)
  | refused (e : OpError)
  | wrote (ret : Int)
  | copied (ok : Bool)
  | stored (target : Target) (n : Int)
  | completed (target : Target) (n : Int)
  deriving DecidableEq, Repr

/-- How far an operation has come. -/
inductive Stage where
  | waiting
  | reading (bytesAcc : Nat) (err : Option OpError)
  | writing
  | reported (n : Int)
  | stored (n : Int)
  | completed (n : Int)
  deriving DecidableEq, Repr

/-- What a command adds to the byte count when it is issued. -/
def issuedBytes : Callback → Nat → Nat
  | .chunk, _ => 0
  | .bounce, nbytes => nbytes

/-- What the completion of a command leaves of the byte count and the error. -/
def arrival : Callback → Nat → Bool → Nat → Option OpError → Nat × Option OpError
  | .chunk, nbytes, true, bytesAcc, err => (bytesAcc + nbytes, err)
  | .chunk, _, false, bytesAcc, _ => (bytesAcc, some .deviceDriverError)
  | .bounce, _, true, bytesAcc, err => (bytesAcc, err)
  | .bounce, _, false, bytesAcc, err => (bytesAcc, err <|> some .deviceDriverError)

/-- **The life of an operation.** -/
def OpFields.life (f : OpFields) : Machine Stage OpEvent where
  step
    | .waiting, .dispatched => some (if f.isWrite then .writing else .reading 0 none)
    | .reading bytesAcc err, .issued callback nbytes =>
      some (.reading (bytesAcc + issuedBytes callback nbytes) err)
    | .reading bytesAcc err, .arrived callback nbytes ok =>
      let out := arrival callback nbytes ok bytesAcc err
      some (.reading out.1 out.2)
    | .reading bytesAcc _, .refused e => some (.reading bytesAcc (some e))
    | .reading bytesAcc err, .copied ok => some (.reported (f.readResult bytesAcc err ok))
    | .writing, .wrote ret => some (.reported (writeResult ret))
    | .reported n, .stored target m =>
      if target = f.target ∧ m = n then some (.stored n) else none
    | .stored n, .completed target m =>
      if target = f.target ∧ m = n then some (.completed n) else none
    | _, _ => none

/-! ## What a life says -/

/-- The order of the stages. -/
def Stage.rank : Stage → Nat
  | .waiting => 0
  | .reading _ _ => 1
  | .writing => 1
  | .reported _ => 2
  | .stored _ => 3
  | .completed _ => 4

/-- The rank an event leads to, if it leads to another one. -/
def OpEvent.rank : OpEvent → Option Nat
  | .dispatched => some 1
  | .wrote _ => some 2
  | .copied _ => some 2
  | .stored _ _ => some 3
  | .completed _ _ => some 4
  | _ => none

variable {f : OpFields} {stage stage' : Stage} {events : List OpEvent}

/-- An event leads to the next rank or keeps the rank. -/
theorem OpFields.life_rank {e : OpEvent} (step : f.life.step stage e = some stage') :
    (e.rank = none ∧ stage'.rank = stage.rank) ∨
      (e.rank = some stage'.rank ∧ stage'.rank = stage.rank + 1) := by
  cases stage with
  | waiting =>
      cases e with
      | dispatched =>
          cases step
          cases f.isWrite <;> exact .inr ⟨rfl, rfl⟩
      | _ => cases step
  | reading bytesAcc err =>
      cases e with
      | issued | arrived | refused =>
          cases step
          exact .inl ⟨rfl, rfl⟩
      | copied =>
          cases step
          exact .inr ⟨rfl, rfl⟩
      | _ => cases step
  | writing =>
      cases e with
      | wrote =>
          cases step
          exact .inr ⟨rfl, rfl⟩
      | _ => cases step
  | reported n =>
      cases e with
      | stored target m =>
          simp only [life] at step
          split at step
          · cases step
            exact .inr ⟨rfl, rfl⟩
          · cases step
      | _ => cases step
  | stored n =>
      cases e with
      | completed target m =>
          simp only [life] at step
          split at step
          · cases step
            exact .inr ⟨rfl, rfl⟩
          · cases step
      | _ => cases step
  | completed n => cases e <;> cases step

/-- **Each turn of a life is taken once**, and exactly if the life has come so far. -/
theorem OpFields.life_count (lived : f.life.run events .waiting = some stage) (rank : Nat)
    (past : 0 < rank) :
    events.countP (fun e => e.rank = some rank) = if rank ≤ stage.rank then 1 else 0 := by
  induction events using List.reverseRecOn generalizing stage with
  | nil =>
      cases lived
      rw [if_neg (by simp only [Stage.rank]; omega)]
      rfl
  | append_singleton events e ih =>
      obtain ⟨before, lived, step⟩ := Machine.exists_of_run_snoc lived
      rw [List.countP_append, ih lived]
      rcases life_rank step with ⟨none, same⟩ | ⟨here, next⟩
      · rw [same, List.countP_cons_of_neg (by simp [none])]
        rfl
      · rw [next] at here ⊢
        by_cases this : rank = before.rank + 1
        · subst this
          rw [List.countP_cons_of_pos (by simp [here])]
          simp
        · rw [List.countP_cons_of_neg (by simp [here]; omega)]
          simp only [List.countP_nil, Nat.add_zero]
          refine if_congr ?_ rfl rfl
          omega

/-- What is stored and what is completed is the operation's own. -/
def OpEvent.Own (f : OpFields) (n : Int) : OpEvent → Prop
  | .stored target m => target = f.target ∧ m = n
  | .completed target m => target = f.target ∧ m = n
  | _ => True

/-- The event stores or completes. -/
def OpEvent.Reports : OpEvent → Prop
  | .stored _ _ => True
  | .completed _ _ => True
  | _ => False

/-- The result a stage has fixed. -/
def Stage.result : Stage → Option Int
  | .reported n => some n
  | .stored n => some n
  | .completed n => some n
  | _ => none

/-- A step keeps the result, and reports nothing but it. -/
theorem OpFields.life_step_own {e : OpEvent} (step : f.life.step stage e = some stage') :
    (∀ n, stage.result = some n → stage'.result = some n) ∧
      (e.Reports → ∃ n, stage'.result = some n ∧ e.Own f n) := by
  cases stage with
  | waiting | reading | writing =>
      refine ⟨fun n result => (by cases result), fun reports => ?_⟩
      cases e with
      | stored | completed => cases step
      | _ => exact reports.elim
  | reported n =>
      cases e with
      | stored target m =>
          simp only [life] at step
          split at step
          · rename_i own
            cases step
            exact ⟨fun n result => result, fun _ => ⟨n, rfl, own⟩⟩
          · cases step
      | _ => cases step
  | stored n =>
      cases e with
      | completed target m =>
          simp only [life] at step
          split at step
          · rename_i own
            cases step
            exact ⟨fun n result => result, fun _ => ⟨n, rfl, own⟩⟩
          · cases step
      | _ => cases step
  | completed n => cases e <;> cases step

/-- **An operation stores and completes its own result at its own target.** -/
theorem OpFields.life_own (lived : f.life.run events .waiting = some stage) :
    ∀ e ∈ events, e.Reports → ∃ n, stage.result = some n ∧ e.Own f n := by
  induction events using List.reverseRecOn generalizing stage with
  | nil => simp
  | append_singleton events e ih =>
      obtain ⟨before, lived, step⟩ := Machine.exists_of_run_snoc lived
      have own := life_step_own step
      intro e' member reports
      rcases List.mem_append.mp member with old | new
      · obtain ⟨n, result, this⟩ := ih lived e' old reports
        exact ⟨n, own.1 n result, this⟩
      · obtain rfl := List.mem_singleton.mp new
        exact own.2 reports

/-- A completed operation has come to the end of its life. -/
theorem OpFields.life_completed (lived : f.life.run events .waiting = some stage) {target : Target}
    {n : Int} (completed : .completed target n ∈ events) : stage = .completed n := by
  have count := life_count lived 4 (by decide)
  have positive : 0 < events.countP (fun e => e.rank = some 4) :=
    List.countP_pos_iff.mpr ⟨_, completed, by simp [OpEvent.rank]⟩
  obtain ⟨m, result, own⟩ := life_own lived _ completed trivial
  cases stage with
  | completed m' =>
      cases result
      rw [own.2]
  | _ => simp [count, Stage.rank] at positive

end OpenDS.Engine
