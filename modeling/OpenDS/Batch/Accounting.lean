import OpenDS.Batch.Delivery

/-!
# The slots of a batch

The two counters of a batch and the `delivered` flags agree in every reachable state
(`batch_accounts`): no counter passes the capacity, `inflight` counts the undelivered
entries, and so a submission that passes the check finds a slot for each of its
operations, inside the array and without an undelivered operation in it.

A batch awaits futures in three places (`BatchState.awaits`). Every future it awaits
was submitted, and a cancel or a destroy returns only when every operation that the
asynchronous layer has accepted has completed.
-/

set_option autoImplicit false

namespace OpenDS.Batch

open OpenDS.Library

variable {s s' : BatchState}

/-! ## Awaited futures -/

/-- The entry whose future the next step awaits. -/
def BatchState.awaits (s : BatchState) : Option Nat :=
  match s.pc with
  | .collect call i out =>
    let e := s.batch.entries i
    if i < s.batch.used ∧ out < call.nr ∧ !e.delivered ∧ e.isDone ∧ !e.canceled ∧ !e.failed then
      some i
    else none
  | .cancel i =>
    let e := s.batch.entries i
    if i < s.batch.used ∧ !e.delivered ∧ !e.failed then some i else none
  | .destroy i => if i < s.batch.used ∧ !(s.batch.entries i).failed then some i else none
  | _ => none

theorem AsyncFuture.await_eq_none {f : AsyncFuture} : f.await = none ↔ f.done = false := by
  unfold AsyncFuture.await
  cases f.done <;> simp

/-- **A loop is held up exactly by the future it awaits.** -/
theorem awaits_iff (loop : (∃ call i out, s.pc = .collect call i out) ∨
      (∃ i, s.pc = .cancel i) ∨ ∃ i, s.pc = .destroy i) :
    batchMachine.step s .go = none ↔
      ∃ i, s.awaits = some i ∧ (s.batch.entries i).future.done = false := by
  rcases loop with ⟨call, i, out, pc⟩ | ⟨i, pc⟩ | ⟨i, pc⟩
  · have step : batchMachine.step s .go = s.collectOne call i out := by simp only [batchMachine, pc]
    rw [step, BatchState.collectOne, BatchState.awaits, pc]
    by_cases more : i < s.batch.used ∧ out < call.nr
    · cases delivered : (s.batch.entries i).delivered <;>
        cases failed : (s.batch.entries i).failed <;>
        cases canceled : (s.batch.entries i).canceled <;>
        cases done : (s.batch.entries i).future.done <;>
        simp [more, delivered, failed, canceled, done, BatchEntry.isDone, BatchEntry.event,
          AsyncFuture.await]
    · rw [if_neg more]
      simp only [reduceCtorEq, false_iff, not_exists, not_and]
      intro j awaits
      split at awaits
      · rename_i all
        exact absurd ⟨all.1, all.2.1⟩ more
      · cases awaits
  · have step : batchMachine.step s .go = s.cancelOne i := by simp only [batchMachine, pc]
    rw [step, BatchState.cancelOne, BatchState.awaits, pc]
    by_cases more : i < s.batch.used
    · cases delivered : (s.batch.entries i).delivered <;>
        cases failed : (s.batch.entries i).failed <;>
        simp [more, delivered, failed, AsyncFuture.await_eq_none]
    · simp [more]
  · have step : batchMachine.step s .go = s.destroyOne i := by simp only [batchMachine, pc]
    rw [step, BatchState.destroyOne, BatchState.awaits, pc]
    by_cases more : i < s.batch.used
    · cases failed : (s.batch.entries i).failed <;>
        simp [more, failed, AsyncFuture.await_eq_none]
    · simp [more]

theorem BatchState.awaits_spec {i : Nat} (awaits : s.awaits = some i) :
    i < s.batch.used ∧ (s.batch.entries i).failed = false := by
  unfold BatchState.awaits at awaits
  split at awaits
  · dsimp only at awaits
    split at awaits
    · rename_i all
      cases awaits
      exact ⟨all.1, by simpa using all.2.2.2.2.2⟩
    · cases awaits
  · dsimp only at awaits
    split at awaits
    · rename_i all
      cases awaits
      exact ⟨all.1, by simpa using all.2.2⟩
    · cases awaits
  · split at awaits
    · rename_i all
      cases awaits
      exact ⟨all.1, by simpa using all.2⟩
    · cases awaits
  · cases awaits

/-! ## Accounting -/

/-- Every operation that the asynchronous layer has accepted has completed. -/
def History.Drained (h : History) : Prop :=
  ∀ k sub, h.submitted[k]? = some sub → sub.accepted = true → (h.results k).isSome = true

/-- The future of the entry was submitted: its operation was accepted, and it has
completed or is in flight with this future. -/
def BatchState.Accepted (s : BatchState) (i : Nat) : Prop :=
  ∃ sub, s.history.submitted[(s.batch.entries i).id]? = some sub ∧ sub.accepted = true ∧
    ((s.batch.entries i).future.done = true ∨
      ∃ a ∈ s.outstanding, a.slot = i ∧ a.id = (s.batch.entries i).id)

/-- The counters, the slots that are taken, the check for room, and the futures that
are awaited. -/
structure Accounts (nr : Nat) (s : BatchState) : Prop where
  capacity : s.batch.capacity = nr
  used : s.batch.used ≤ nr
  inflight : s.batch.inflight ≤ nr
  counted : s.batch.inflight = s.batch.undelivered.card
  room : s.batch.room = nr - s.batch.undelivered.card
  takes : ∀ p rest, s.pc = .submit (p :: rest) → s.batch.entryTake.1 < nr ∧
    (s.batch.entryTake.1 < s.batch.used →
      (s.batch.entries s.batch.entryTake.1).delivered = true)
  full : ∀ params s', s.pc = .idle → batchMachine.step s (.submit (some params)) = some s' →
    if nr < s.batch.undelivered.card + params.length then s' = { s with returned := .batchFull }
    else s' = { s with pc := .submit params }
  awaited : ∀ i, s.awaits = some i → s.Accepted i
  canceled : ∀ i s', s.pc = .cancel i → batchMachine.step s .go = some s' → s'.pc = .idle →
    s.history.Drained
  destroyed : ∀ i s', s.pc = .destroy i → batchMachine.step s .go = some s' →
    s'.pc = .destroyed → s.history.Drained

/-- Nothing is in flight once all entries are done. -/
theorem TableInv.drained (inv : TableInv s)
    (done : ∀ j, j < s.batch.used → (s.batch.entries j).delivered = false →
      (s.batch.entries j).isDone = true) : s.history.Drained := by
  intro k sub submitted taken
  rcases inv.flight k sub submitted taken with completed | ⟨a, member, -⟩
  · exact completed
  · obtain ⟨lt, -, waits, -⟩ := inv.asyncs a member
    rw [done a.slot lt (inv.undelivered_of_waits lt waits)] at waits
    cases waits

/-- The entry of an accepted operation has its future from the asynchronous layer. -/
theorem TableInv.accepted (inv : TableInv s) {i : Nat} (lt : i < s.batch.used)
    (failed : (s.batch.entries i).failed = false) : s.Accepted i := by
  obtain ⟨sub, submitted, -, refused⟩ := (inv.entries i lt).submission
  refine ⟨sub, submitted, ?_, ?_⟩
  · simpa [failed] using refused
  · cases done : (s.batch.entries i).future.done with
    | true => exact .inl rfl
    | false =>
        obtain ⟨a, member, slot⟩ :=
          (inv.entries i lt).waiting (by rw [BatchEntry.isDone, failed, done, Bool.or_false])
        refine .inr ⟨a, member, slot, ?_⟩
        rw [← (inv.asyncs a member).id, slot]

/-- The capacity is never changed. -/
theorem capacity_step {label : BatchLabel} (step : batchMachine.step s label = some s') :
    s'.batch.capacity = s.batch.capacity := by
  have entryTake : s.batch.entryTake.2.capacity = s.batch.capacity := by
    have takes := s.batch.entryTake_takes
    generalize s.batch.entryTake.1 = slot at takes
    generalize s.batch.entryTake.2 = b at takes
    cases takes <;> rfl
  simp only [batchMachine] at step
  split at step
  · obtain ⟨a, -, rfl⟩ := Option.map_eq_some_iff.mp step
    rfl
  · cases step
    unfold BatchState.submitCall
    split
    · rfl
    · split <;> rfl
  · cases step
    unfold BatchState.statusCall
    split
    · split <;> rfl
    · rfl
  · cases step
    rfl
  · cases step
    rfl
  · cases step
    exact entryTake
  · cases step
    rfl
  · cases step
    unfold BatchState.countOne
    repeat' (first | rfl | split)
  · cases step
    unfold BatchState.waitOne
    repeat' (first | rfl | split)
  · unfold BatchState.collectOne at step
    dsimp only at step
    split at step
    · split at step
      · cases step
        rfl
      · obtain ⟨event, -, rfl⟩ := Option.map_eq_some_iff.mp step
        rfl
    · cases step
      rfl
  · unfold BatchState.cancelOne at step
    dsimp only at step
    split at step
    · split at step
      · cases step
        rfl
      · split at step
        · cases step
          rfl
        · obtain ⟨r, -, rfl⟩ := Option.map_eq_some_iff.mp step
          rfl
    · cases step
      rfl
  · unfold BatchState.destroyOne at step
    dsimp only at step
    split at step
    · split at step
      · cases step
        rfl
      · obtain ⟨r, -, rfl⟩ := Option.map_eq_some_iff.mp step
        rfl
    · cases step
      rfl
  · cases step

/-- A loop that has come to its end has passed every entry. -/
theorem cancelOne_idle {i : Nat} (step : s.cancelOne i = some s') (idle : s'.pc = .idle) :
    s.batch.used ≤ i := by
  unfold BatchState.cancelOne at step
  dsimp only at step
  split at step
  · exfalso
    split at step
    · cases step
      cases idle
    · split at step
      · cases step
        cases idle
      · obtain ⟨r, -, rfl⟩ := Option.map_eq_some_iff.mp step
        cases idle
  · omega

theorem destroyOne_destroyed {i : Nat} (step : s.destroyOne i = some s')
    (destroyed : s'.pc = .destroyed) : s.batch.used ≤ i := by
  unfold BatchState.destroyOne at step
  dsimp only at step
  split at step
  · exfalso
    split at step
    · cases step
      cases destroyed
    · obtain ⟨r, -, rfl⟩ := Option.map_eq_some_iff.mp step
      cases destroyed
  · omega

/-- **The counters, the slots and the awaited futures of a batch are in order in every
reachable state.** Neither counter passes the capacity, `inflight` counts the
undelivered operations, and the free room does not wrap; a submission takes slots
inside the array that hold no undelivered operation; it returns `OPENDS_BATCH_FULL`
exactly when it has more operations than can still be held, and then leaves the batch
as it is; only futures that were submitted are awaited; and a cancel or a destroy is
over only when every operation that was accepted has completed. -/
theorem batch_accounts {nr : UInt32} {s₀ : BatchState} (setup : batchSetup nr = .ok s₀)
    {labels : List BatchLabel} (ran : batchMachine.run labels s₀ = some s) :
    Accounts nr.toNat s := by
  have inv := BatchInv.run setup ran
  have capacity : s.batch.capacity = nr.toNat := by
    have keeps : ∀ s label s', s.batch.capacity = nr.toNat →
        batchMachine.step s label = some s' → s'.batch.capacity = nr.toNat :=
      fun _ _ _ same step => (capacity_step step).trans same
    refine Machine.run_invariant_of_step keeps ?_ ran
    unfold batchSetup at setup
    split at setup
    · cases setup
    · cases setup
      rfl
  have table := inv.table
  have room := table.room_eq
  have below := table.card_le
  rw [capacity] at room below
  refine ⟨capacity, capacity ▸ table.used, ?_, table.inflight, room, ?_, ?_, ?_, ?_, ?_⟩
  · rw [table.inflight]
    exact below
  · intro p rest pc
    have loop := inv.loop.submit _ pc
    rw [List.length_cons] at loop
    have used := table.used
    have takes := s.batch.entryTake_takes
    generalize s.batch.entryTake.1 = slot at takes
    generalize s.batch.entryTake.2 = b at takes
    cases takes with
    | reuse _ lt delivered => exact ⟨by omega, fun _ => delivered⟩
    | fresh none =>
        have full : s.batch.undelivered.card = s.batch.used :=
          card_held_of_full _ _ fun i lt => BatchEntry.undelivered_iff.mpr (none i lt)
        exact ⟨by omega, fun lt => absurd lt (Nat.lt_irrefl _)⟩
  · intro params s' pc step
    simp only [batchMachine, pc, Option.some.injEq, BatchState.submitCall] at step
    rw [room] at step
    subst step
    by_cases tooMany : nr.toNat < s.batch.undelivered.card + params.length
    · rw [if_pos tooMany, if_pos (by omega), BatchState.leave, ← pc]
    · rw [if_neg tooMany, if_neg (by omega), BatchState.goTo]
  · intro i awaits
    obtain ⟨lt, failed⟩ := BatchState.awaits_spec awaits
    exact table.accepted lt failed
  · intro i s' pc step idle
    simp only [batchMachine, pc] at step
    have past := cancelOne_idle step idle
    refine table.drained ?_
    intro j lt undelivered
    exact (inv.loop.cancel i pc j lt undelivered).2 (by omega)
  · intro i s' pc step destroyed
    simp only [batchMachine, pc] at step
    have past := destroyOne_destroyed step destroyed
    refine table.drained ?_
    intro j lt _
    exact inv.loop.destroy i pc j lt (by omega)

/-- After the first operations of the run have been reaped both slots are free. -/
theorem batch_accounts_reuseRun :
    ∃ s₀ s, batchSetup 2 = .ok s₀ ∧ batchMachine.run reuseRun s₀ = some s ∧ Accounts 2 s ∧
      s.batch.room = 2 := by
  obtain ⟨s₀, setup⟩ : ∃ s₀, batchSetup 2 = .ok s₀ := ⟨_, rfl⟩
  have computed : (batchSetup 2).toOption.bind (fun s₀ =>
      (batchMachine.run reuseRun s₀).map fun s => s.batch.room) = some 2 := by
    decide
  rw [setup] at computed
  obtain ⟨s, ran, room⟩ := Option.map_eq_some_iff.mp computed
  exact ⟨s₀, s, setup, ran, batch_accounts setup ran, room⟩

end OpenDS.Batch
