import OpenDS.Batch.Entries

/-!
# A batch delivers every operation once

In every run of a batch, whatever is submitted, refused, completed, reaped and
canceled, and in whatever order, the submitted operations are those of the events and
those of the undelivered entries, no operation is in two of these places, and every
event says of its operation what has become of it (`batch_delivers`).
-/

set_option autoImplicit false

namespace OpenDS.Batch

open OpenDS.Library

variable {s s' : BatchState}

/-! ## The loops -/

/-- The free room is what is left of the capacity. It does not wrap. -/
theorem TableInv.room_eq (inv : TableInv s) :
    s.batch.room = s.batch.capacity - s.batch.undelivered.card := by
  have small := inv.small
  have below := inv.card_le
  rw [AsyncBatch.room, inv.inflight]
  omega

/-- Nothing is known of the loops while none of them runs. -/
theorem LoopInv.plain {s : BatchState} (submit : ∀ rest, s.pc ≠ .submit rest)
    (cancel : ∀ i, s.pc ≠ .cancel i) (destroy : ∀ i, s.pc ≠ .destroy i) : LoopInv s where
  submit rest here := absurd here (submit rest)
  cancel i here := absurd here (cancel i)
  destroy i here := absurd here (destroy i)

/-- The thread stands in a call that neither submits, cancels nor destroys, or in
none. -/
def BatchPc.Plain : BatchPc → Prop
  | .submit _ => False
  | .cancel _ => False
  | .destroy _ => False
  | _ => True

/-- The thread goes on, or returns, to where no loop needs to know anything. -/
theorem BatchInv.goTo (inv : BatchInv s) (pc : BatchPc) (plain : pc.Plain) (returned : BatchError)
    (past : ∀ i, s.pc = .cancel i → s.batch.used ≤ i) :
    BatchInv { s with pc := pc, returned := returned } := by
  refine ⟨inv.table.goTo pc returned ?_, .plain ?_ ?_ ?_⟩
  · intro j lt _ _
    cases here : s.pc with
    | cancel i =>
        have all := past i here
        simp only [BatchPc.passed, decide_eq_true_eq]
        omega
    | _ => rfl
  · rintro rest rfl
    exact plain
  · rintro i rfl
    exact plain
  · rintro i rfl
    exact plain

/-- The loops are not disturbed by a completion. -/
theorem LoopInv.arrive (inv : BatchInv s) {index : Nat} {result : Int}
    (step : s.arrive index result = some s') : LoopInv s' := by
  obtain ⟨a, found, rfl⟩ := Option.map_eq_some_iff.mp step
  obtain ⟨lt, -, -, -⟩ := inv.table.asyncs a (List.mem_of_getElem? found)
  let arrived := { s.batch.entries a.slot with future := ⟨true, result⟩ }
  have card := (AsyncBatch.undelivered_store (e := arrived) lt rfl rfl).2
  -- The entry of the operation is done, and otherwise as it was.
  have done : ∀ j, (s.batch.entries j).isDone = true →
      ((s.batch.store a.slot arrived).entries j).isDone = true := by
    intro j already
    by_cases here : j = a.slot
    · subst here
      rw [AsyncBatch.store_entries, Function.update_self]
      exact Bool.or_true _
    · rw [AsyncBatch.store_entries, Function.update_of_ne here]
      exact already
  refine ⟨?_, ?_, ?_⟩
  · intro rest pc
    refine Nat.le_trans ?_ (inv.loop.submit rest pc)
    exact Nat.add_le_add_right (Nat.le_of_eq card) _
  · intro i pc j lt' undelivered
    have same := AsyncBatch.store_field BatchEntry.delivered s.batch arrived rfl j
    have id := AsyncBatch.store_field BatchEntry.id s.batch arrived rfl j
    obtain ⟨canceled, past⟩ := inv.loop.cancel i pc j lt' (same.symm.trans undelivered)
    exact ⟨(congrArg s.history.canceled id).trans canceled, fun before => done j (past before)⟩
  · intro i pc j lt' before
    exact done j (inv.loop.destroy i pc j lt' before)

/-- A future that has been awaited is done. -/
theorem AsyncFuture.done_of_await {f : AsyncFuture} {r : Int} (awaited : f.await = some r) :
    f.done = true := by
  unfold AsyncFuture.await at awaited
  split at awaited
  · assumption
  · cases awaited

/-- The loop of `opends_batch_cancel` goes on past an entry. -/
theorem LoopInv.cancel_next (inv : BatchInv s) {i : Nat} (pc : s.pc = .cancel i) {t : BatchState}
    (there : t.pc = .cancel (i + 1)) (history : t.history = s.history)
    (used : t.batch.used = s.batch.used)
    (same : ∀ j, (t.batch.entries j).delivered = (s.batch.entries j).delivered ∧
      (t.batch.entries j).id = (s.batch.entries j).id ∧
      (t.batch.entries j).isDone = (s.batch.entries j).isDone)
    (here : (s.batch.entries i).delivered = false → (s.batch.entries i).isDone = true) :
    LoopInv t := by
  refine ⟨?_, ?_, ?_⟩
  · intro rest pc'
    rw [there] at pc'
    cases pc'
  · intro k pc' j lt undelivered
    rw [there] at pc'
    cases pc'
    obtain ⟨delivered, id, done⟩ := same j
    rw [delivered] at undelivered
    rw [history, id, done]
    obtain ⟨canceled, past⟩ := inv.loop.cancel i pc j (used ▸ lt) undelivered
    refine ⟨canceled, ?_⟩
    intro before
    rcases Nat.lt_succ_iff_lt_or_eq.mp before with less | rfl
    · exact past less
    · exact here undelivered
  · intro k pc'
    rw [there] at pc'
    cases pc'

/-! ## The steps -/

theorem BatchInv.submitCall (inv : BatchInv s) (pc : s.pc = .idle)
    (iocbp : Option (List IoParams)) : BatchInv (s.submitCall iocbp) := by
  have returns : ∀ err, BatchInv (s.leave err) := by
    intro err
    exact inv.goTo .idle trivial err (by simp [pc])
  unfold BatchState.submitCall
  cases iocbp with
  | none => exact returns _
  | some params =>
      dsimp only
      split
      · exact returns _
      · rename_i fits
        rw [inv.table.room_eq] at fits
        have below := inv.table.card_le
        refine ⟨inv.table.goTo_plain (.submit params) s.returned (by simp [pc]), ?_, nofun, nofun⟩
        intro rest here
        cases here
        change s.batch.undelivered.card + params.length ≤ s.batch.capacity
        omega

theorem BatchInv.submitOne (inv : BatchInv s) {p : IoParams} {rest : List IoParams}
    (pc : s.pc = .submit (p :: rest)) (accepted : Bool) :
    BatchInv (s.submitOne p rest accepted) := by
  have room := inv.loop.submit _ pc
  rw [List.length_cons] at room
  obtain ⟨slot, submits⟩ := inv.table.submits p rest accepted (by omega)
  refine ⟨inv.table.submitOne submits (by simp [pc]), ?_, nofun, nofun⟩
  intro rest' here
  cases here
  rw [submits.undelivered, Multiset.card_cons, submits.capacity]
  omega

theorem BatchInv.statusCall (inv : BatchInv s) (pc : s.pc = .idle) (minNr : Nat)
    (nr : Option Nat) (iocbp : Bool) (timeout : Option Timespec) (now : Timespec) :
    BatchInv (s.statusCall minNr nr iocbp timeout now) := by
  have idle : ∀ i, s.pc = .cancel i → s.batch.used ≤ i := by simp [pc]
  unfold BatchState.statusCall
  split
  · split
    · exact inv.goTo .idle trivial _ idle
    · exact inv.goTo (.count _ 0 0) trivial s.returned idle
  · exact inv.goTo .idle trivial _ idle

theorem BatchInv.countOne (inv : BatchInv s) {call : StatusCall} {i ready : Nat}
    (pc : s.pc = .count call i ready) : BatchInv (s.countOne call i ready) := by
  have plain : ∀ i, s.pc = .cancel i → s.batch.used ≤ i := by simp [pc]
  unfold BatchState.countOne
  split
  · exact inv.goTo (.count ..) trivial s.returned plain
  · split
    · split
      · exact inv.goTo (.clock call) trivial s.returned plain
      · exact inv.goTo (.count ..) trivial s.returned plain
    · exact inv.goTo (.collect ..) trivial s.returned plain

theorem BatchInv.waitOne (inv : BatchInv s) {call : StatusCall} (pc : s.pc = .clock call)
    (now : Timespec) : BatchInv (s.waitOne call now) := by
  have plain : ∀ i, s.pc = .cancel i → s.batch.used ≤ i := by simp [pc]
  unfold BatchState.waitOne
  split
  · split
    · exact inv.goTo (.collect ..) trivial s.returned plain
    · exact inv.goTo (.count ..) trivial s.returned plain
  · exact inv.goTo (.count ..) trivial s.returned plain

theorem BatchInv.collectOne (inv : BatchInv s) {call : StatusCall} {i out : Nat}
    (pc : s.pc = .collect call i out) (step : s.collectOne call i out = some s') :
    BatchInv s' := by
  have plain : ∀ i, s.pc = .cancel i → s.batch.used ≤ i := by simp [pc]
  unfold BatchState.collectOne at step
  split at step
  · rename_i more
    dsimp only at step
    split at step
    · cases step
      exact inv.goTo (.collect ..) trivial s.returned plain
    · rename_i ready
      simp only [Bool.or_eq_true, Bool.not_eq_true', not_or, Bool.not_eq_true,
        Bool.not_eq_false] at ready
      obtain ⟨event, found, rfl⟩ := Option.map_eq_some_iff.mp step
      exact ⟨inv.table.deliver (by simp [pc]) more.1 ready.1 ready.2 found call out,
        .plain nofun nofun nofun⟩
  · cases step
    exact inv.goTo .idle trivial _ plain

theorem BatchInv.cancelCall (inv : BatchInv s) : BatchInv s.cancelCall := by
  refine ⟨inv.table.cancelCall, nofun, ?_, nofun⟩
  intro i here j lt undelivered
  cases here
  refine ⟨?_, fun before => absurd before (Nat.not_lt_zero j)⟩
  have known : (s.batch.entries j).id ∈ s.batch.undelivered.map BatchEntry.id :=
    Multiset.mem_map_of_mem _ (mem_undelivered.mpr ⟨j, lt, rfl, undelivered⟩)
  change (s.history.canceled (s.batch.entries j).id ||
    decide ((s.batch.entries j).id ∈ s.batch.undelivered.map BatchEntry.id)) = true
  rw [decide_eq_true known, Bool.or_true]

theorem BatchInv.cancelOne (inv : BatchInv s) {i : Nat} (pc : s.pc = .cancel i)
    (step : s.cancelOne i = some s') : BatchInv s' := by
  unfold BatchState.cancelOne at step
  split at step
  · rename_i lt
    dsimp only at step
    split at step
    · rename_i delivered
      cases step
      refine ⟨inv.table.goTo (.cancel (i + 1)) s.returned ?_,
        .cancel_next inv pc rfl rfl rfl (fun _ => ⟨rfl, rfl, rfl⟩) ?_⟩
      · intro j _ undelivered past
        have other : j ≠ i := by
          rintro rfl
          rw [delivered] at undelivered
          cases undelivered
        simp only [BatchPc.passed, pc, decide_eq_true_eq] at past ⊢
        omega
      · intro undelivered
        rw [delivered] at undelivered
        cases undelivered
    · rename_i undelivered
      rw [Bool.not_eq_true] at undelivered
      -- The await, if the entry needs one, is over.
      have done : (s.batch.entries i).isDone = true := by
        split at step
        · rename_i failed
          rw [BatchEntry.isDone, failed, Bool.true_or]
        · obtain ⟨r, awaited, -⟩ := Option.map_eq_some_iff.mp step
          rw [BatchEntry.isDone, AsyncFuture.done_of_await awaited, Bool.or_true]
      have marked : s' = { s with
          batch := s.batch.store i { s.batch.entries i with canceled := true }
          pc := .cancel (i + 1) } := by
        split at step
        · exact (Option.some.inj step).symm
        · obtain ⟨-, -, same⟩ := Option.map_eq_some_iff.mp step
          exact same.symm
      rw [marked]
      have canceled := (inv.loop.cancel i pc i lt undelivered).1
      refine ⟨inv.table.mark pc lt canceled, .cancel_next inv pc rfl rfl rfl ?_ fun _ => done⟩
      intro j
      let marked := { s.batch.entries i with canceled := true }
      exact ⟨AsyncBatch.store_field BatchEntry.delivered _ marked rfl j,
        AsyncBatch.store_field BatchEntry.id _ marked rfl j,
        AsyncBatch.store_field BatchEntry.isDone _ marked rfl j⟩
  · rename_i past
    cases step
    refine inv.goTo .idle trivial _ ?_
    intro k here
    rw [pc] at here
    cases here
    omega

theorem BatchInv.destroyOne (inv : BatchInv s) {i : Nat} (pc : s.pc = .destroy i)
    (step : s.destroyOne i = some s') : BatchInv s' := by
  have plain : ∀ i, s.pc = .cancel i → s.batch.used ≤ i := by simp [pc]
  unfold BatchState.destroyOne at step
  split at step
  · have done : (s.batch.entries i).isDone = true := by
      dsimp only at step
      split at step
      · rename_i failed
        rw [BatchEntry.isDone, failed, Bool.true_or]
      · obtain ⟨r, awaited, -⟩ := Option.map_eq_some_iff.mp step
        rw [BatchEntry.isDone, AsyncFuture.done_of_await awaited, Bool.or_true]
    have next : s' = s.goTo (.destroy (i + 1)) := by
      dsimp only at step
      split at step
      · exact (Option.some.inj step).symm
      · obtain ⟨-, -, same⟩ := Option.map_eq_some_iff.mp step
        exact same.symm
    rw [next]
    refine ⟨inv.table.goTo_plain (.destroy (i + 1)) s.returned (by simp [pc]),
      fun _ here => (by cases here), fun _ here => (by cases here), ?_⟩
    intro k here j lt before
    cases here
    rcases Nat.lt_succ_iff_lt_or_eq.mp before with less | rfl
    · exact inv.loop.destroy i pc j lt less
    · exact done
  · cases step
    exact inv.goTo .destroyed trivial s.returned plain

/-- **Every step keeps the batch in order.** -/
theorem BatchInv.step (inv : BatchInv s) {label : BatchLabel}
    (step : batchMachine.step s label = some s') : BatchInv s' := by
  simp only [batchMachine] at step
  split at step
  · exact ⟨inv.table.arrive step, .arrive inv step⟩
  · rename_i pc
    cases step
    exact inv.submitCall pc _
  · rename_i pc
    cases step
    exact inv.statusCall pc ..
  · cases step
    exact inv.cancelCall
  · rename_i pc
    cases step
    refine ⟨inv.table.goTo_plain (.destroy 0) s.returned (by simp [pc]), nofun, nofun, ?_⟩
    intro i here j _ before
    cases here
    exact absurd before (Nat.not_lt_zero j)
  · rename_i pc
    cases step
    exact inv.submitOne pc _
  · rename_i pc
    cases step
    exact inv.goTo .idle trivial _ (by simp [pc])
  · rename_i pc
    cases step
    exact inv.countOne pc
  · rename_i pc
    cases step
    exact inv.waitOne pc _
  · rename_i pc
    exact inv.collectOne pc step
  · rename_i pc
    exact inv.cancelOne pc step
  · rename_i pc
    exact inv.destroyOne pc step
  · cases step

/-! ## The runs -/

theorem BatchInv.start {nr : UInt32} (setup : batchSetup nr = .ok s) : BatchInv s := by
  unfold batchSetup at setup
  split at setup
  · cases setup
  · cases setup
    refine ⟨⟨nr.toNat_lt, Nat.zero_le _, fun _ _ => rfl, rfl, rfl, nofun, nofun, List.nodup_nil,
      nofun, fun _ _ => rfl, nofun⟩, .plain nofun nofun nofun⟩

/-- **The batch is in order in every reachable state.** -/
theorem BatchInv.run {nr : UInt32} {s₀ : BatchState} (setup : batchSetup nr = .ok s₀)
    {labels : List BatchLabel} (ran : batchMachine.run labels s₀ = some s) : BatchInv s := by
  have keeps : ∀ s label s', BatchInv s → batchMachine.step s label = some s' → BatchInv s' :=
    fun _ _ _ inv step => inv.step step
  exact Machine.run_invariant_of_step keeps (.start setup) ran

/-- What a batch has delivered, and what it has not. -/
structure Delivers (s : BatchState) : Prop where
  once : (s.history.events.map Delivery.op).Nodup
  operations : Multiset.range s.history.submitted.length =
    ↑(s.history.events.map Delivery.op) + s.batch.undelivered.map BatchEntry.id
  cookies : (↑(s.history.submitted.map fun sub => sub.params.cookie) : Multiset Nat) =
    ↑(s.history.events.map fun d => d.event.cookie) + s.batch.undelivered.map BatchEntry.cookie
  own : ∀ d ∈ s.history.events, d.Own s.history

/-- The cookie an operation was submitted with. -/
def History.cookieOf (h : History) (k : Nat) : Nat :=
  (h.submitted[k]?.map fun sub => sub.params.cookie).getD 0

theorem History.map_cookieOf (h : History) :
    (Multiset.range h.submitted.length).map h.cookieOf =
      ↑(h.submitted.map fun sub => sub.params.cookie) := by
  rw [Multiset.range, Multiset.map_coe]
  congr 1
  refine List.ext_getElem (by simp) ?_
  intro k bound bound'
  simp only [List.length_map] at bound'
  simp [History.cookieOf, List.getElem?_eq_getElem bound']

/-- **A batch delivers every operation at most once, with its own cookie and result.**
Whatever has been submitted, refused, completed, reaped and canceled: the submitted
operations, and so their cookies, are those of the events and those of the undelivered
entries; an operation is in one place only; and an event is failed for an operation
that was refused or completed with an error, complete with the byte count for one that
was not, and canceled for one that a cancel met undelivered. -/
theorem batch_delivers {nr : UInt32} {s₀ : BatchState} (setup : batchSetup nr = .ok s₀)
    {labels : List BatchLabel} (ran : batchMachine.run labels s₀ = some s) : Delivers s := by
  have inv := (BatchInv.run setup ran).table
  have once := (Multiset.nodup_add.mp inv.nodup).1
  refine ⟨Multiset.coe_nodup.mp once, inv.operations, ?_, inv.events⟩
  rw [← History.map_cookieOf, inv.operations, Multiset.map_add, Multiset.map_map,
    Multiset.map_coe, List.map_map]
  congr 1
  · refine congrArg _ (List.map_congr_left ?_)
    intro d member
    obtain ⟨sub, found, cookie, -⟩ := inv.events d member
    simp [History.cookieOf, found, cookie]
  · refine Multiset.map_congr rfl ?_
    intro e member
    obtain ⟨i, lt, rfl, -⟩ := mem_undelivered.mp member
    obtain ⟨sub, found, cookie, -⟩ := (inv.entries i lt).submission
    simp [History.cookieOf, found, cookie]

/-- A read of 512 bytes. -/
def oneRead (cookie : Nat) : IoParams := ⟨4096, 0, 0, 512, 1, .read, cookie⟩

/-- Two operations are submitted, of which the second is refused; the first completes
and both are reaped. A third one takes a slot again, completes, and is canceled before
it is reaped. -/
def reuseRun : List BatchLabel :=
  [.submit (some [oneRead 70, oneRead 80]), .async true, .async false, .go, .complete 0 512,
    .getStatus 1 (some 4) true none ⟨0, 0⟩, .go, .go, .go, .go, .go, .go,
    .submit (some [oneRead 90]), .async true, .go, .cancel, .complete 0 512, .go, .go, .go,
    .getStatus 0 (some 4) true none ⟨0, 0⟩, .go, .go, .go, .go]

/-- The run ends with an event for each of the three operations. -/
theorem batch_delivers_reuseRun :
    ∃ s₀ s, batchSetup 2 = .ok s₀ ∧ batchMachine.run reuseRun s₀ = some s ∧ Delivers s ∧
      s.history.events = [⟨0, ⟨70, .complete, 512⟩⟩, ⟨1, ⟨80, .failed, 0⟩⟩,
        ⟨2, ⟨90, .canceled, 0⟩⟩] := by
  obtain ⟨s₀, setup⟩ : ∃ s₀, batchSetup 2 = .ok s₀ := ⟨_, rfl⟩
  have computed : (batchSetup 2).toOption.bind (fun s₀ =>
      (batchMachine.run reuseRun s₀).map fun s => s.history.events) =
        some [⟨0, ⟨70, .complete, 512⟩⟩, ⟨1, ⟨80, .failed, 0⟩⟩, ⟨2, ⟨90, .canceled, 0⟩⟩] := by
    decide
  rw [setup] at computed
  obtain ⟨s, ran, events⟩ := Option.map_eq_some_iff.mp computed
  exact ⟨s₀, s, setup, ran, batch_delivers setup ran, events⟩

end OpenDS.Batch
