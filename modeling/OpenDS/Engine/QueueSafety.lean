import OpenDS.Engine.Locking

/-!
# No operation is lost, duplicated or overwritten

In every run of the engine, whatever its threads, its workers, the device and the
accelerator do, a queue never holds more than `FILE_OP_QUEUE_SIZE` operations, its
tail passes completed operations only, and every published operation lives its life
once (`queueSafe_of_run`). The counters may wrap as often as they like.

A slot outside of the queue is free, but not always: the submitter makes it pending
before it moves the head (`slot_pending_outside_queue`).
-/

set_option autoImplicit false

namespace OpenDS.Engine

open OpenDS.Library OpenDS.Aisio

/-- The event completes the operation. -/
def OpEvent.completes : OpEvent → Bool
  | .completed _ _ => true
  | _ => false

variable {f : OpFields} {stage : Stage} {events : List OpEvent}

/-- An operation is dispatched once and completed once. -/
theorem OpFields.life_once (lived : f.life.run events .waiting = some stage) :
    events.count .dispatched ≤ 1 ∧ events.countP OpEvent.completes ≤ 1 := by
  have dispatched : events.count .dispatched = events.countP (fun e => e.rank = some 1) := by
    refine List.countP_congr fun e _ => ?_
    cases e <;> simp [OpEvent.rank]
  have completed : events.countP OpEvent.completes = events.countP (fun e => e.rank = some 4) := by
    refine List.countP_congr fun e _ => ?_
    cases e <;> simp [OpEvent.rank, OpEvent.completes]
  rw [dispatched, completed, life_count lived 1 (by decide), life_count lived 4 (by decide)]
  constructor <;> split <;> omega

/-- At the end of its life an operation has completed its result at its target. -/
theorem OpFields.life_end {n : Int} (lived : f.life.run events .waiting = some (.completed n)) :
    .completed f.target n ∈ events := by
  have count := life_count lived 4 (by decide)
  rw [if_pos (show 4 ≤ (Stage.completed n).rank from Nat.le_refl _)] at count
  obtain ⟨e, member, rank⟩ := List.countP_pos_iff.mp (show 0 < _ by rw [count]; decide)
  cases e with
  | completed target m =>
      obtain ⟨m', result, own⟩ := life_own lived _ member trivial
      cases result
      rw [← own.1, ← own.2]
      exact member
  | _ => simp [OpEvent.rank] at rank

variable {n : Nat} {ι : Type}

/-- The worker has completed an operation of its queue. -/
def IoWorker.Completed (w : IoWorker) (k : Nat) : Prop :=
  ∃ target n, .completed target n ∈ w.history k

/-- What the queue of a worker guarantees, when its tail has passed `t` operations:
the slots from tail to head, at most all of them, hold published operations with the
fields they were published with; the others are free, apart from the one at the head
while the holder of `submit_lock` is about to move it; the operations behind the tail
are completed; and each operation lives its life, in which it is dispatched and
completed at most once, with its own target and its own result. -/
structure QueueSafe (s : System n ι) (w : Fin n) (t : Nat) : Prop where
  tail : (s.workers w).queueTail = word 32 t
  head : (s.workers w).queueHead = word 32 (s.workers w).published.length
  order : t ≤ (s.workers w).published.length
  bounded : ((s.workers w).queueHead - (s.workers w).queueTail).toNat ≤ queueSize
  outside : ∀ slot, (∀ k, t ≤ k → k < (s.workers w).published.length → slotAt k ≠ slot) →
    ((s.workers w).fileOpQueue slot).state = .free ∨
      slot = slotOf (s.workers w).queueHead ∧ ∃ thread fields, s.submitLock = some thread ∧
        s.threads thread = .publish fields w (s.workers w).queueHead
  kept : ∀ k (lt : k < (s.workers w).published.length), ¬ (s.workers w).Completed k →
    t ≤ k ∧ ((s.workers w).opAt k).fields = (s.workers w).published[k]
  passed : ∀ k, k < t → (s.workers w).Completed k
  lives : ∀ k (lt : k < (s.workers w).published.length), ∃ stage,
    (s.workers w).published[k].life.run ((s.workers w).history k) .waiting = some stage
  once : ∀ k, k < (s.workers w).published.length →
    ((s.workers w).history k).count .dispatched ≤ 1 ∧
      ((s.workers w).history k).countP OpEvent.completes ≤ 1
  own : ∀ k (lt : k < (s.workers w).published.length) target n,
    .completed target n ∈ (s.workers w).history k →
      target = (s.workers w).published[k].target ∧
        (s.workers w).published[k].life.run ((s.workers w).history k) .waiting =
          some (.completed n)

theorem QueueInv.lived {w : IoWorker} {offer : Option Offer} {m : Marks} {k : Nat}
    (inv : QueueInv w offer m) (lt : k < w.published.length) :
    ∃ stage, w.published[k].life.run (w.history k) .waiting = some stage := by
  by_cases before : k < m.tail
  · obtain ⟨n, lived⟩ := inv.lives.done k lt before
    exact ⟨_, lived⟩
  · obtain ⟨stage, lived, -⟩ := inv.lives.live k lt (Nat.le_of_not_lt before)
    exact ⟨stage, lived⟩

/-- What the holder of the lock has made pending it is about to publish. -/
theorem SubmitPc.offer_pending {pc : SubmitPc n} {w : Fin n} {o : Offer}
    (offered : pc.offer w = some o) (pending : o.pending = true) :
    ∃ fields, pc = .publish fields w o.head := by
  cases pc with
  | publish fields v head =>
      simp only [offer] at offered
      split at offered
      · rename_i same
        cases offered
        exact ⟨fields, by rw [same]⟩
      · cases offered
  | fill | gate | wait | pend =>
      simp only [offer] at offered
      split at offered <;> cases offered
      cases pending
  | _ => cases offered

/-- A queue in order guarantees all of it. -/
theorem EngineInv.queueSafe {s : System n ι} (inv : EngineInv s) (w : Fin n) :
    ∃ t, QueueSafe s w t := by
  obtain ⟨m, queue⟩ := inv.queues w
  have counters := queue.counters
  have low := counters.low
  have room := counters.room
  have passed : ∀ k, k < m.tail → (s.workers w).Completed k := by
    intro k before
    obtain ⟨n, lived⟩ := queue.lives.done k (by omega) before
    exact ⟨_, n, OpFields.life_end lived⟩
  refine ⟨m.tail, counters.tail, counters.head, low, ?_, fun slot out => ?_, fun k lt live => ?_,
    passed, fun k lt => queue.lived lt, fun k lt => ?_, fun k lt target n completed => ?_⟩
  · rw [counters.head, counters.tail, word_sub_toNat low (by simp only [queueSize] at room; omega)]
    omega
  · refine (queue.slots.outside slot out).imp_right ?_
    rintro ⟨⟨o, offered, pending⟩, head⟩
    have word := (queue.slots.offered o offered).head
    obtain ⟨thread, holds, offers⟩ := Option.bind_eq_some_iff.mp offered
    obtain ⟨fields, pc⟩ := SubmitPc.offer_pending offers pending
    rw [word, ← counters.head] at pc
    rw [counters.head, slotOf_word, ← counters.head]
    exact ⟨head, thread, fields, holds, pc⟩
  · by_cases before : k < m.tail
    · exact absurd (passed k before) live
    · exact ⟨Nat.le_of_not_lt before, (queue.slots.window k lt (Nat.le_of_not_lt before)).2⟩
  · obtain ⟨stage, lived⟩ := queue.lived lt
    exact OpFields.life_once lived
  · obtain ⟨stage, lived⟩ := queue.lived lt
    obtain ⟨n', result, own⟩ := OpFields.life_own lived _ completed trivial
    refine ⟨own.1, ?_⟩
    rw [lived, OpFields.life_completed lived completed]

/-- **Queue safety.** In every reachable state of the engine, every queue holds what
was published to it and no operation is lost, duplicated or overwritten. -/
theorem queueSafe_of_run [NeZero n] [DecidableEq ι] {alignedOnly : Bool}
    {labels : List (Label n ι)} {futures : Nat → Future} {bytesRead : Nat → Int} {s : System n ι}
    (ran : (engine alignedOnly).run labels (setup n ι futures bytesRead) = some s) (w : Fin n) :
    ∃ t, QueueSafe s w t :=
  (EngineInv.run ran).queueSafe w

/-! ## One worker and one thread -/

/-- The memory of the caller before the first call. -/
def noFutures : Nat → Future := fun _ => ⟨false, 0⟩

/-- An asynchronous write of one byte. -/
def oneWrite : Call := ⟨true, 0, 0, .async ⟨1, 0, 0, 7⟩⟩

/-- The steps of a thread that submits the write. -/
def submits : List (Label 1 Unit) :=
  .thread () (.call oneWrite) :: List.replicate 6 (.thread () .go)

/-- The steps of the worker that takes it from its queue. -/
def completes : List (Label 1 Unit) :=
  List.replicate 3 (.worker 0 .go) ++ [.worker 0 (.wrote 1)] ++ List.replicate 7 (.worker 0 .go)

/-- The queue is safe when a write has gone through it. -/
theorem queueSafe_of_run_oneWrite :
    ∃ s, (engine false).run (submits ++ completes) (setup 1 Unit noFutures fun _ => 0) = some s ∧
      ∃ t, QueueSafe s 0 t := by
  have runs : ((engine false).run (submits ++ completes)
      (setup 1 Unit noFutures fun _ => 0)).isSome = true := by decide +kernel
  obtain ⟨s, ran⟩ := Option.isSome_iff_exists.mp runs
  exact ⟨s, ran, queueSafe_of_run ran 0⟩

/-- The state of the first slot past a run. -/
def firstSlot (labels : List (Label 1 Unit)) : Option (BitVec 32 × BitVec 32 × FileOpState) :=
  ((engine false).run labels (setup 1 Unit noFutures fun _ => 0)).map fun s =>
    ((s.workers 0).queueTail, (s.workers 0).queueHead, ((s.workers 0).opAt 0).state)

/-- **A slot outside of the queue is not always free**: the submitter makes it pending
before it moves the head. -/
theorem slot_pending_outside_queue :
    ¬ ∀ (labels : List (Label 1 Unit)) (s : System 1 Unit),
        (engine false).run labels (setup 1 Unit noFutures fun _ => 0) = some s →
        ∀ slot, (∀ i : BitVec 32, i - (s.workers 0).queueTail <
            (s.workers 0).queueHead - (s.workers 0).queueTail → slotOf i ≠ slot) →
          ((s.workers 0).fileOpQueue slot).state = .free := by
  intro free
  have first : firstSlot (submits.take 5) = some (0, 0, .pending) := by decide +kernel
  obtain ⟨s, ran, facts⟩ := Option.map_eq_some_iff.mp first
  simp only [Prod.mk.injEq] at facts
  have state := free _ s ran (slotAt 0) fun i inside => ?_
  · exact absurd (facts.2.2.symm.trans state) (by decide)
  · rw [facts.1, facts.2.1] at inside
    exact absurd inside (BitVec.not_lt_zero)

end OpenDS.Engine
