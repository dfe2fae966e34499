import OpenDS.Batch.BatchAsync

/-!
# The entries of a batch

What holds of a batch at any time, whatever the caller calls, the asynchronous layer
accepts and completes, and the clock says. The submitted operations are those that
were delivered and those in undelivered entries (`TableInv.operations`), each entry
holds one operation with what the asynchronous layer has made of it (`EntryInv`), and
each operation in flight writes to the entry of its own (`AsyncInv`).

A step stores to one entry at most, so each kind of step is one lemma about the
operation of that entry, and the frame `EntryInv.congr` for the others.
-/

set_option autoImplicit false

namespace OpenDS.Batch

open OpenDS.Library

/-! ## The invariant -/

/-- What an event should say of an operation: canceled when a cancel met it
undelivered, failed when it was refused, and else what it completed with. -/
def Submission.outcome (sub : Submission) (result : Option Int) (canceled : Bool) :
    Option (EventStatus × Nat) :=
  if canceled then some (.canceled, 0)
  else if sub.accepted then result.map reported
  else some (.failed, 0)

/-- The event is that of its operation. -/
def Delivery.Own (h : History) (d : Delivery) : Prop :=
  ∃ sub, h.submitted[d.op]? = some sub ∧ d.event.cookie = sub.params.cookie ∧
    sub.outcome (h.results d.op) (h.canceled d.op) = some (d.event.status, d.event.ret)

/-- `opends_batch_cancel`, if it is running, is past the entry. -/
def BatchPc.passed : BatchPc → Nat → Bool
  | .cancel i, j => decide (j < i)
  | _, _ => true

/-- An entry holds an operation with what has become of it. -/
structure EntryInv (s : BatchState) (i : Nat) (e : BatchEntry) : Prop where
  submission : ∃ sub, s.history.submitted[e.id]? = some sub ∧ e.cookie = sub.params.cookie ∧
    e.failed = !sub.accepted
  result : e.delivered = false → e.future.done = true →
    s.history.results e.id = some e.future.result
  waiting : e.isDone = false → ∃ a ∈ s.outstanding, a.slot = i
  settled : e.delivered = true → e.isDone = true
  flag : e.delivered = false → e.canceled = true → s.history.canceled e.id = true
  flagged : e.delivered = false → s.pc.passed i = true → e.canceled = s.history.canceled e.id

/-- An operation in flight is one that was accepted, and its entry waits for it. -/
structure AsyncInv (s : BatchState) (a : AsyncOp) : Prop where
  slot : a.slot < s.batch.used
  id : (s.batch.entries a.slot).id = a.id
  waits : (s.batch.entries a.slot).isDone = false
  accepted : s.history.submitted[a.id]? = some ⟨a.params, true⟩

/-- **What holds of the entries at any time.** -/
structure TableInv (s : BatchState) : Prop where
  small : s.batch.capacity < 2 ^ 32
  used : s.batch.used ≤ s.batch.capacity
  blank : ∀ i, s.batch.used ≤ i → s.batch.entries i = zeroEntry
  inflight : s.batch.inflight = s.batch.undelivered.card
  operations : Multiset.range s.history.submitted.length =
    ↑(s.history.events.map Delivery.op) + s.batch.undelivered.map BatchEntry.id
  entries : ∀ i, i < s.batch.used → EntryInv s i (s.batch.entries i)
  asyncs : ∀ a ∈ s.outstanding, AsyncInv s a
  apart : (s.outstanding.map AsyncOp.slot).Nodup
  flight : ∀ k sub, s.history.submitted[k]? = some sub → sub.accepted = true →
    (s.history.results k).isSome = true ∨ ∃ a ∈ s.outstanding, a.id = k
  fresh : ∀ k, s.history.submitted.length ≤ k → s.history.canceled k = false
  events : ∀ d ∈ s.history.events, d.Own s.history

/-- What holds in the loops of the calls. -/
structure LoopInv (s : BatchState) : Prop where
  submit : ∀ rest, s.pc = .submit rest →
    s.batch.undelivered.card + rest.length ≤ s.batch.capacity
  cancel : ∀ i, s.pc = .cancel i → ∀ j, j < s.batch.used →
    (s.batch.entries j).delivered = false →
      s.history.canceled (s.batch.entries j).id = true ∧
        (j < i → (s.batch.entries j).isDone = true)
  destroy : ∀ i, s.pc = .destroy i → ∀ j, j < s.batch.used → j < i →
    (s.batch.entries j).isDone = true

/-- **What holds of a batch at any time.** -/
structure BatchInv (s : BatchState) : Prop where
  table : TableInv s
  loop : LoopInv s

/-! ## Entries and operations -/

variable {s s' : BatchState} {i j : Nat}

theorem mem_undelivered {e : BatchEntry} :
    e ∈ s.batch.undelivered ↔
      ∃ i, i < s.batch.used ∧ s.batch.entries i = e ∧ e.delivered = false := by
  rw [AsyncBatch.undelivered, mem_held]
  simp [BatchEntry.undelivered]

theorem BatchEntry.undelivered_iff {e : BatchEntry} :
    e.undelivered = true ↔ e.delivered = false := by
  simp [BatchEntry.undelivered]

namespace TableInv

/-- No operation is in two places. -/
theorem nodup (inv : TableInv s) :
    (↑(s.history.events.map Delivery.op) + s.batch.undelivered.map BatchEntry.id).Nodup := by
  rw [← inv.operations]
  exact Multiset.nodup_range _

/-- The operation of an undelivered entry was not delivered. -/
theorem delivered_ne (inv : TableInv s) (lt : i < s.batch.used)
    (undelivered : (s.batch.entries i).delivered = false) {d : Delivery}
    (member : d ∈ s.history.events) : d.op ≠ (s.batch.entries i).id := by
  intro same
  have disjoint := (Multiset.nodup_add.mp inv.nodup).2.2
  refine Multiset.disjoint_left.mp disjoint
    (Multiset.mem_coe.mpr (List.mem_map_of_mem member)) ?_
  rw [same]
  exact Multiset.mem_map_of_mem _ (mem_undelivered.mpr ⟨i, lt, rfl, undelivered⟩)

/-- The operation of an entry was submitted. -/
theorem id_lt (inv : TableInv s) (lt : i < s.batch.used) :
    (s.batch.entries i).id < s.history.submitted.length := by
  obtain ⟨sub, found, -⟩ := (inv.entries i lt).submission
  exact (List.getElem?_eq_some_iff.mp found).1

/-- An entry that waits for its operation was not delivered. -/
theorem undelivered_of_waits (inv : TableInv s) (lt : i < s.batch.used)
    (waits : (s.batch.entries i).isDone = false) : (s.batch.entries i).delivered = false := by
  cases delivered : (s.batch.entries i).delivered with
  | false => rfl
  | true =>
      rw [(inv.entries i lt).settled delivered] at waits
      cases waits

/-- The operation in flight of an entry. -/
theorem async_eq (inv : TableInv s) {a a' : AsyncOp} (member : a ∈ s.outstanding)
    (member' : a' ∈ s.outstanding) (same : a.slot = a'.slot) : a = a' :=
  List.inj_on_of_nodup_map inv.apart member member' same

theorem card_le (inv : TableInv s) : s.batch.undelivered.card ≤ s.batch.capacity := by
  have all : s.batch.undelivered.card ≤ s.batch.used := card_held_le _ _ _
  have used := inv.used
  omega

end TableInv

/-- What an entry holds survives a step that leaves its operation alone. -/
theorem EntryInv.congr {e : BatchEntry} (inv : EntryInv s i e)
    (submitted : s'.history.submitted[e.id]? = s.history.submitted[e.id]?)
    (results : e.delivered = false → s'.history.results e.id = s.history.results e.id)
    (waits : ∀ a ∈ s.outstanding, a.slot = i → a ∈ s'.outstanding)
    (canceled : s'.history.canceled e.id = s.history.canceled e.id)
    (passed : e.delivered = false → s'.pc.passed i = true → s.pc.passed i = true) :
    EntryInv s' i e := by
  refine ⟨?_, ?_, ?_, inv.settled, ?_, ?_⟩
  · rw [submitted]
    exact inv.submission
  · intro undelivered
    rw [results undelivered]
    exact inv.result undelivered
  · intro waiting
    obtain ⟨a, member, slot⟩ := inv.waiting waiting
    exact ⟨a, waits a member slot, slot⟩
  · rw [canceled]
    exact inv.flag
  · intro undelivered past
    rw [canceled]
    exact inv.flagged undelivered (passed undelivered past)

/-- An event survives what happens to other operations. -/
theorem Delivery.Own.congr {h h' : History} {d : Delivery} (own : d.Own h)
    (submitted : ∀ sub, h.submitted[d.op]? = some sub → h'.submitted[d.op]? = some sub)
    (results : h'.results d.op = h.results d.op)
    (canceled : h'.canceled d.op = h.canceled d.op) : d.Own h' := by
  obtain ⟨sub, found, cookie, outcome⟩ := own
  exact ⟨sub, submitted sub found, cookie, by rw [results, canceled]; exact outcome⟩

/-! ## Steps that leave the entries alone -/

/-- The thread goes on, or a call returns. -/
theorem TableInv.goTo (inv : TableInv s) (pc : BatchPc) (returned : BatchError)
    (passed : ∀ i, i < s.batch.used → (s.batch.entries i).delivered = false →
      pc.passed i = true → s.pc.passed i = true) :
    TableInv { s with pc := pc, returned := returned } := by
  refine ⟨inv.small, inv.used, inv.blank, inv.inflight, inv.operations, ?_, ?_, inv.apart,
    inv.flight, inv.fresh, inv.events⟩
  · intro i lt
    exact (inv.entries i lt).congr rfl (fun _ => rfl) (fun a member _ => member) rfl (passed i lt)
  · intro a member
    obtain ⟨slot, id, waits, accepted⟩ := inv.asyncs a member
    exact ⟨slot, id, waits, accepted⟩

/-- Outside of `opends_batch_cancel` the flags of all entries are up to date. -/
theorem BatchPc.passed_of_ne {pc : BatchPc} (other : ∀ i, pc ≠ .cancel i) (j : Nat) :
    pc.passed j = true := by
  cases pc with
  | cancel i => exact absurd rfl (other i)
  | _ => rfl

/-- The thread goes on from a loop that does not cancel. -/
theorem TableInv.goTo_plain (inv : TableInv s) (pc : BatchPc) (returned : BatchError)
    (plain : ∀ i, s.pc ≠ .cancel i) : TableInv { s with pc := pc, returned := returned } :=
  inv.goTo pc returned fun i _ _ _ => BatchPc.passed_of_ne plain i

/-! ## A submission -/

/-- The entry of a new operation. -/
def newEntry (p : IoParams) (id : Nat) (accepted : Bool) : BatchEntry :=
  { zeroEntry with cookie := p.cookie, id := id, failed := !accepted }

/-- What `entry_take` returns, and leaves. -/
inductive Takes (b : AsyncBatch) : Nat → AsyncBatch → Prop where
  | reuse (i : Nat) : i < b.used → (b.entries i).delivered = true →
      Takes b i (b.store i zeroEntry)
  | fresh : (∀ i, i < b.used → (b.entries i).delivered = false) →
      Takes b b.used { b with used := (b.used + 1) % 2 ^ 32 }

theorem AsyncBatch.entryTake_takes (b : AsyncBatch) : Takes b b.entryTake.1 b.entryTake.2 := by
  unfold AsyncBatch.entryTake
  cases found : (List.range b.used).find? fun i => (b.entries i).delivered with
  | some i =>
      have member := List.mem_of_find?_eq_some found
      have delivered := List.find?_some found
      exact .reuse i (List.mem_range.mp member) delivered
  | none =>
      refine .fresh ?_
      intro i lt
      have undelivered := List.find?_eq_none.mp found i (List.mem_range.mpr lt)
      simpa using undelivered

/-- The effect of a submission: one slot that held no undelivered operation holds the
new one. -/
structure Submits (s s' : BatchState) (slot : Nat) (p : IoParams) (accepted : Bool) : Prop where
  entries : s'.batch.entries =
    Function.update s.batch.entries slot (newEntry p s.history.submitted.length accepted)
  place : (slot < s.batch.used ∧ (s.batch.entries slot).delivered = true ∧
      s'.batch.used = s.batch.used) ∨
    (slot = s.batch.used ∧ s.batch.used < s.batch.capacity ∧ s'.batch.used = s.batch.used + 1)
  inflight : s'.batch.inflight = s.batch.inflight + 1
  capacity : s'.batch.capacity = s.batch.capacity
  outstanding : s'.outstanding = s.outstanding ++
    (if accepted then [⟨p, slot, s.history.submitted.length⟩] else [])
  history : s'.history = { s.history with
    submitted := s.history.submitted ++ [⟨p, accepted⟩] }

theorem zeroEntry_submitted (p : IoParams) (id : Nat) (accepted : Bool) :
    (if accepted then { zeroEntry with cookie := p.cookie, id := id }
      else { zeroEntry with cookie := p.cookie, id := id, failed := true }) =
      newEntry p id accepted := by
  cases accepted <;> rfl

/-- **A slot is found** as long as fewer operations are undelivered than the batch
holds. -/
theorem TableInv.submits (inv : TableInv s) (p : IoParams) (rest : List IoParams)
    (accepted : Bool) (room : s.batch.undelivered.card < s.batch.capacity) :
    ∃ slot, Submits s (s.submitOne p rest accepted) slot p accepted := by
  have small := inv.small
  have count := inv.inflight
  have takes := s.batch.entryTake_takes
  generalize taken : s.batch.entryTake = result at takes
  obtain ⟨slot, b⟩ := result
  dsimp only at takes
  refine ⟨slot, ?_⟩
  have inflight : (s.batch.inflight + 1) % 2 ^ 32 = s.batch.inflight + 1 :=
    Nat.mod_eq_of_lt (by omega)
  cases takes with
  | reuse _ lt delivered =>
      simp only [BatchState.submitOne, taken]
      refine ⟨?_, .inl ⟨lt, delivered, rfl⟩, inflight, rfl, rfl, rfl⟩
      simp only [AsyncBatch.store, Function.update_self, Function.update_idem,
        zeroEntry_submitted]
  | fresh none =>
      have full : s.batch.undelivered.card = s.batch.used := by
        refine card_held_of_full _ _ ?_
        intro i lt
        exact BatchEntry.undelivered_iff.mpr (none i lt)
      simp only [BatchState.submitOne, taken]
      refine ⟨?_, .inr ⟨rfl, by omega, Nat.mod_eq_of_lt (by omega)⟩, inflight, rfl, rfl, rfl⟩
      simp only [AsyncBatch.store, inv.blank s.batch.used (Nat.le_refl _), zeroEntry_submitted]

namespace Submits

variable {slot : Nat} {p : IoParams} {accepted : Bool}

theorem slot_lt (submits : Submits s s' slot p accepted) : slot < s'.batch.used := by
  rcases submits.place with ⟨lt, -, used⟩ | ⟨rfl, -, used⟩ <;> omega

/-- The undelivered entries are the old ones and the new one. -/
theorem undelivered (submits : Submits s s' slot p accepted) :
    s'.batch.undelivered =
      newEntry p s.history.submitted.length accepted ::ₘ s.batch.undelivered := by
  have holds : (newEntry p s.history.submitted.length accepted).undelivered = true := rfl
  rw [AsyncBatch.undelivered, submits.entries]
  rcases submits.place with ⟨lt, delivered, used⟩ | ⟨rfl, -, used⟩
  · rw [used, held_fill _ _ lt (by simp [BatchEntry.undelivered, delivered]) holds]
    rfl
  · rw [used, held_succ, Function.update_self, held_update_of_le _ _ (Nat.le_refl _),
      holding_of_pos _ holds, Multiset.singleton_add]
    rfl

/-- An operation in flight does not use the slot. -/
theorem slot_ne (submits : Submits s s' slot p accepted) (inv : TableInv s) {a : AsyncOp}
    (member : a ∈ s.outstanding) : a.slot ≠ slot := by
  obtain ⟨lt, -, waits, -⟩ := inv.asyncs a member
  rintro rfl
  rcases submits.place with ⟨-, delivered, -⟩ | ⟨here, -, -⟩
  · rw [inv.undelivered_of_waits lt waits] at delivered
    cases delivered
  · omega

theorem outstanding_old (submits : Submits s s' slot p accepted) {a : AsyncOp}
    (member : a ∈ s.outstanding) : a ∈ s'.outstanding := by
  rw [submits.outstanding]
  exact List.mem_append_left _ member

theorem submitted_old (submits : Submits s s' slot p accepted) {k : Nat}
    (lt : k < s.history.submitted.length) :
    s'.history.submitted[k]? = s.history.submitted[k]? := by
  rw [submits.history]
  exact List.getElem?_append_left lt

theorem submitted_new (submits : Submits s s' slot p accepted) :
    s'.history.submitted[s.history.submitted.length]? = some ⟨p, accepted⟩ := by
  rw [submits.history]
  simp

end Submits

/-- **A submitted operation gets an entry of its own.** -/
theorem TableInv.submitOne (inv : TableInv s) {slot : Nat} {p : IoParams} {accepted : Bool}
    (submits : Submits s s' slot p accepted) (plain : ∀ i, s.pc ≠ .cancel i) : TableInv s' := by
  have used : s.batch.used ≤ s'.batch.used ∧ s'.batch.used ≤ s.batch.capacity := by
    have below := inv.used
    rcases submits.place with ⟨-, -, same⟩ | ⟨-, lt, next⟩ <;> omega
  refine ⟨?_, ?_, ?_, ?_, ?_, ?_, ?_, ?_, ?_, ?_, ?_⟩
  · rw [submits.capacity]
    exact inv.small
  · rw [submits.capacity]
    exact used.2
  · intro i le
    have past := submits.slot_lt
    rw [submits.entries, Function.update_of_ne (by omega)]
    exact inv.blank i (by omega)
  · rw [submits.inflight, submits.undelivered, Multiset.card_cons, inv.inflight]
  · rw [submits.undelivered, submits.history, Multiset.map_cons, List.length_append,
      List.length_singleton, Multiset.range_succ, inv.operations, Multiset.add_cons]
    rfl
  · intro i lt
    rw [submits.entries]
    by_cases here : i = slot
    · subst here
      rw [Function.update_self]
      refine ⟨⟨⟨p, accepted⟩, submits.submitted_new, rfl, rfl⟩, ?_, ?_, ?_, ?_, ?_⟩
      · intro _ done
        cases done
      · intro waits
        have taken : accepted = true := by simpa [newEntry, zeroEntry, BatchEntry.isDone] using waits
        refine ⟨⟨p, i, s.history.submitted.length⟩, ?_, rfl⟩
        rw [submits.outstanding, if_pos taken]
        exact List.mem_append_right _ (List.mem_singleton_self _)
      · intro delivered
        cases delivered
      · intro _ canceled
        cases canceled
      · intro _ _
        rw [submits.history]
        exact (inv.fresh _ (Nat.le_refl _)).symm
    · rw [Function.update_of_ne here]
      have old : i < s.batch.used := by
        rcases submits.place with ⟨-, -, same⟩ | ⟨end', -, next⟩ <;> omega
      refine (inv.entries i old).congr (submits.submitted_old (inv.id_lt old)) ?_ ?_ ?_ ?_
      · intro _
        rw [submits.history]
      · intro a member _
        exact submits.outstanding_old member
      · rw [submits.history]
      · intro _ _
        exact BatchPc.passed_of_ne plain i
  · intro a member
    rw [submits.outstanding, List.mem_append] at member
    rcases member with old | new
    · obtain ⟨lt, id, waits, taken⟩ := inv.asyncs a old
      have other := submits.slot_ne inv old
      refine ⟨by omega, ?_, ?_, ?_⟩
      · rw [submits.entries, Function.update_of_ne other]
        exact id
      · rw [submits.entries, Function.update_of_ne other]
        exact waits
      · rw [submits.submitted_old (List.getElem?_eq_some_iff.mp taken).1]
        exact taken
    · cases taken : accepted with
      | false => simp [taken] at new
      | true =>
          simp only [taken, if_true, List.mem_singleton] at new
          subst new
          refine ⟨submits.slot_lt, ?_, ?_, ?_⟩
          · rw [submits.entries, Function.update_self]
            rfl
          · rw [submits.entries, Function.update_self, taken]
            rfl
          · rw [submits.submitted_new, taken]
  · rw [submits.outstanding, List.map_append, List.nodup_append]
    refine ⟨inv.apart, ?_, ?_⟩
    · cases accepted <;> simp
    · intro k old l new same
      subst same
      obtain ⟨a, member, rfl⟩ := List.mem_map.mp old
      refine submits.slot_ne inv member ?_
      cases taken : accepted with
      | false => simp [taken] at new
      | true =>
          rw [taken] at new
          exact List.mem_singleton.mp new
  · intro k sub found taken
    rcases Nat.lt_or_ge k s.history.submitted.length with lt | ge
    · rw [submits.submitted_old lt] at found
      rcases inv.flight k sub found taken with completed | ⟨a, member, id⟩
      · rw [submits.history]
        exact .inl completed
      · exact .inr ⟨a, submits.outstanding_old member, id⟩
    · obtain rfl : k = s.history.submitted.length := by
        have bound := (List.getElem?_eq_some_iff.mp found).1
        rw [submits.history, List.length_append, List.length_singleton] at bound
        omega
      rw [submits.submitted_new] at found
      cases found
      refine .inr ⟨⟨p, slot, s.history.submitted.length⟩, ?_, rfl⟩
      rw [submits.outstanding, if_pos taken]
      exact List.mem_append_right _ (List.mem_singleton_self _)
  · intro k le
    rw [submits.history] at le ⊢
    simp only [List.length_append, List.length_singleton] at le
    exact inv.fresh k (by omega)
  · intro d member
    rw [submits.history] at member
    have own := inv.events d member
    refine own.congr ?_ ?_ ?_
    · intro sub found
      rw [submits.submitted_old (List.getElem?_eq_some_iff.mp found).1]
      exact found
    · rw [submits.history]
    · rw [submits.history]

/-! ## A delivery -/

/-- The event of an entry is that of its operation. -/
theorem EntryInv.own {e : BatchEntry} (inv : EntryInv s i e) (undelivered : e.delivered = false)
    (passed : s.pc.passed i = true) {event : IoEvent} (found : e.event = some event) :
    Delivery.Own s.history ⟨e.id, event⟩ := by
  obtain ⟨sub, submitted, cookie, failed⟩ := inv.submission
  have flag := inv.flagged undelivered passed
  refine ⟨sub, submitted, ?_⟩
  unfold BatchEntry.event at found
  cases canceled : e.canceled with
  | true =>
      simp only [canceled, if_true, Option.some.injEq] at found
      subst found
      rw [canceled] at flag
      exact ⟨cookie, by simp [Submission.outcome, ← flag]⟩
  | false =>
      rw [canceled] at flag
      simp only [canceled, Bool.false_eq_true, if_false] at found
      cases refused : e.failed with
      | true =>
          simp only [refused, if_true, Option.some.injEq] at found
          subst found
          have taken : sub.accepted = false := by simpa [refused] using failed
          exact ⟨cookie, by simp [Submission.outcome, ← flag, taken]⟩
      | false =>
          have taken : sub.accepted = true := by simpa [refused] using failed
          simp only [refused, Bool.false_eq_true, if_false, AsyncFuture.await] at found
          cases done : e.future.done with
          | false => simp [done] at found
          | true =>
              simp only [done, if_true, Option.map_some, Option.some.injEq] at found
              subst found
              have result := inv.result undelivered done
              exact ⟨cookie, by simp [Submission.outcome, ← flag, taken, result]⟩

/-- **A delivery moves an operation from its entry to the events.** -/
theorem TableInv.deliver (inv : TableInv s) (plain : ∀ i, s.pc ≠ .cancel i)
    (lt : i < s.batch.used) (undelivered : (s.batch.entries i).delivered = false)
    (done : (s.batch.entries i).isDone = true) {event : IoEvent}
    (found : (s.batch.entries i).event = some event) (call : StatusCall) (out : Nat) :
    TableInv (s.deliver call i out event) := by
  have passed : ∀ j, s.pc.passed j = true := BatchPc.passed_of_ne plain
  have dropped : s.batch.undelivered =
      s.batch.entries i ::ₘ (s.deliver call i out event).batch.undelivered :=
    held_drop _ _ lt (BatchEntry.undelivered_iff.mpr undelivered) rfl
  have inflight := inv.inflight
  have below := inv.card_le
  have small := inv.small
  rw [dropped, Multiset.card_cons] at inflight below
  refine ⟨inv.small, inv.used, ?_, ?_, ?_, ?_, ?_, inv.apart, inv.flight, inv.fresh, ?_⟩
  · intro j le
    change Function.update _ _ _ j = _
    rw [Function.update_of_ne (by change s.batch.used ≤ j at le; omega)]
    exact inv.blank j le
  · change (s.batch.inflight + (2 ^ 32 - 1)) % 2 ^ 32 = _
    omega
  · change Multiset.range s.history.submitted.length =
      ↑((s.history.events ++ [_]).map Delivery.op) + _
    rw [inv.operations, dropped, Multiset.map_cons, List.map_append, ← Multiset.coe_add,
      add_assoc]
    rfl
  · intro j lt'
    have old := inv.entries j lt'
    change EntryInv _ j (Function.update s.batch.entries i _ j)
    by_cases here : j = i
    · subst here
      rw [Function.update_self]
      refine ⟨old.submission, nofun, ?_, fun _ => done, nofun, nofun⟩
      intro waits
      exact absurd done (by rw [show (s.batch.entries j).isDone = false from waits]; decide)
    · rw [Function.update_of_ne here]
      exact old.congr rfl (fun _ => rfl) (fun a member _ => member) rfl fun _ _ => passed j
  · intro a member
    obtain ⟨slot, id, waits, accepted⟩ := inv.asyncs a member
    have other : a.slot ≠ i := by
      rintro rfl
      rw [done] at waits
      cases waits
    refine ⟨slot, ?_, ?_, accepted⟩
    · change (Function.update s.batch.entries i _ a.slot).id = a.id
      rw [Function.update_of_ne other]
      exact id
    · change (Function.update s.batch.entries i _ a.slot).isDone = false
      rw [Function.update_of_ne other]
      exact waits
  · intro d member
    rcases List.mem_append.mp member with old | new
    · exact inv.events d old
    · rw [List.mem_singleton.mp new]
      exact (inv.entries i lt).own undelivered (passed i) found

/-! ## Steps that keep the operations in their entries -/

/-- A store that keeps the operation of an entry and whether it was delivered keeps
the undelivered operations. -/
theorem AsyncBatch.undelivered_store {b : AsyncBatch} {e : BatchEntry} (lt : i < b.used)
    (id : e.id = (b.entries i).id) (delivered : e.delivered = (b.entries i).delivered) :
    (b.store i e).undelivered.map BatchEntry.id = b.undelivered.map BatchEntry.id ∧
      (b.store i e).undelivered.card = b.undelivered.card := by
  have same : e.undelivered = (b.entries i).undelivered := by
    rw [BatchEntry.undelivered, delivered, BatchEntry.undelivered]
  exact ⟨map_held_update _ _ _ lt same fun _ => id, card_held_update _ _ lt same⟩

/-- A store that keeps a field of the entry is not seen in that field of any entry. -/
theorem AsyncBatch.store_field {γ : Type} (f : BatchEntry → γ) (b : AsyncBatch) (e : BatchEntry)
    (same : f e = f (b.entries i)) (j : Nat) : f ((b.store i e).entries j) = f (b.entries j) := by
  by_cases here : j = i
  · subst here
    rw [AsyncBatch.store_entries, Function.update_self, same]
  · rw [AsyncBatch.store_entries, Function.update_of_ne here]

/-- The asynchronous layer completes an operation. -/
theorem TableInv.arrive (inv : TableInv s) {index : Nat} {result : Int}
    (arrived : s.arrive index result = some s') : TableInv s' := by
  obtain ⟨a, found, rfl⟩ := Option.map_eq_some_iff.mp arrived
  have member : a ∈ s.outstanding := List.mem_of_getElem? found
  obtain ⟨lt, id, waits, accepted⟩ := inv.asyncs a member
  have undelivered := inv.undelivered_of_waits lt waits
  obtain ⟨ids, card⟩ := AsyncBatch.undelivered_store
    (e := { s.batch.entries a.slot with future := ⟨true, result⟩ }) lt rfl rfl
  have kept : ∀ a' ∈ s.outstanding.eraseIdx index, a' ∈ s.outstanding ∧ a'.slot ≠ a.slot := by
    intro a' left
    have nodup : s.outstanding.Nodup := .of_map _ inv.apart
    obtain ⟨k, ne, at'⟩ := List.mem_eraseIdx_iff_getElem?.mp left
    refine ⟨List.mem_of_getElem? at', ?_⟩
    intro same
    have here := inv.async_eq (List.mem_of_getElem? at') member same
    subst here
    have bound := (List.getElem?_eq_some_iff.mp at').1
    exact ne ((List.getElem?_inj bound nodup).mp (at'.trans found.symm))
  refine ⟨inv.small, inv.used, ?_, ?_, ?_, ?_, ?_, ?_, ?_, inv.fresh, ?_⟩
  · intro j le
    change Function.update s.batch.entries a.slot _ j = _
    rw [Function.update_of_ne (by change s.batch.used ≤ j at le; omega)]
    exact inv.blank j le
  · exact inv.inflight.trans card.symm
  · refine inv.operations.trans ?_
    change _ = _ + (s.batch.store a.slot _).undelivered.map BatchEntry.id
    rw [ids]
  · intro j lt'
    have old := inv.entries j lt'
    change EntryInv _ j (Function.update s.batch.entries a.slot _ j)
    by_cases here : j = a.slot
    · subst here
      rw [Function.update_self]
      refine ⟨old.submission, ?_, ?_, ?_, old.flag, old.flagged⟩
      · intro _ _
        change Function.update s.history.results a.id _ (s.batch.entries a.slot).id = _
        rw [id, Function.update_self]
      · intro stillWaits
        simp [BatchEntry.isDone] at stillWaits
      · intro _
        simp [BatchEntry.isDone]
    · rw [Function.update_of_ne here]
      refine old.congr rfl ?_ ?_ rfl fun _ past => past
      · intro undelivered'
        refine Function.update_of_ne ?_ _ _
        rw [← id]
        exact ne_of_nodup_held _ _ _ (Multiset.nodup_add.mp inv.nodup).2.1 lt' lt here
          (BatchEntry.undelivered_iff.mpr undelivered') (BatchEntry.undelivered_iff.mpr undelivered)
      · intro a' member' slot
        refine (List.mem_eraseIdx_iff_getElem?).mpr ?_
        obtain ⟨k, at'⟩ := List.mem_iff_getElem?.mp member'
        refine ⟨k, ?_, at'⟩
        rintro rfl
        rw [found] at at'
        cases at'
        exact here slot.symm
  · intro a' left
    obtain ⟨old, other⟩ := kept a' left
    obtain ⟨lt', id', waits', accepted'⟩ := inv.asyncs a' old
    refine ⟨lt', ?_, ?_, accepted'⟩
    · change (Function.update s.batch.entries a.slot _ a'.slot).id = _
      rw [Function.update_of_ne other]
      exact id'
    · change (Function.update s.batch.entries a.slot _ a'.slot).isDone = _
      rw [Function.update_of_ne other]
      exact waits'
  · exact inv.apart.sublist ((List.eraseIdx_sublist _ _).map _)
  · intro k sub submitted taken
    change (Function.update s.history.results a.id _ k).isSome = true ∨ _
    by_cases here : k = a.id
    · subst here
      rw [Function.update_self]
      exact .inl rfl
    · rw [Function.update_of_ne here]
      rcases inv.flight k sub submitted taken with completed | ⟨a', member', rfl⟩
      · exact .inl completed
      · refine .inr ⟨a', ?_, rfl⟩
        refine List.mem_eraseIdx_iff_getElem?.mpr ?_
        obtain ⟨j, at'⟩ := List.mem_iff_getElem?.mp member'
        refine ⟨j, ?_, at'⟩
        rintro rfl
        rw [found] at at'
        cases at'
        exact here rfl
  · intro d event
    refine (inv.events d event).congr (fun _ same => same) ?_ rfl
    refine Function.update_of_ne ?_ _ _
    rw [← id]
    exact inv.delivered_ne lt undelivered event

/-- `opends_batch_cancel` marks an entry. -/
theorem TableInv.mark (inv : TableInv s) (pc : s.pc = .cancel i) (lt : i < s.batch.used)
    (canceled : s.history.canceled (s.batch.entries i).id = true) :
    TableInv { s with
      batch := s.batch.store i { s.batch.entries i with canceled := true }
      pc := .cancel (i + 1) } := by
  obtain ⟨ids, card⟩ := AsyncBatch.undelivered_store
    (e := { s.batch.entries i with canceled := true }) lt rfl rfl
  refine ⟨inv.small, inv.used, ?_, inv.inflight.trans card.symm, ?_, ?_, ?_, inv.apart, inv.flight,
    inv.fresh, inv.events⟩
  · intro j le
    change Function.update s.batch.entries i _ j = _
    rw [Function.update_of_ne (by change s.batch.used ≤ j at le; omega)]
    exact inv.blank j le
  · refine inv.operations.trans ?_
    change _ = _ + (s.batch.store i _).undelivered.map BatchEntry.id
    rw [ids]
  · intro j lt'
    have old := inv.entries j lt'
    change EntryInv _ j (Function.update s.batch.entries i _ j)
    by_cases here : j = i
    · subst here
      rw [Function.update_self]
      exact ⟨old.submission, old.result, old.waiting, old.settled, fun _ _ => canceled,
        fun _ _ => canceled.symm⟩
    · rw [Function.update_of_ne here]
      refine old.congr rfl (fun _ => rfl) (fun a member _ => member) rfl ?_
      intro _ past
      simp only [BatchPc.passed, pc, decide_eq_true_eq] at past ⊢
      omega
  · intro a member
    obtain ⟨slot, id, waits, accepted⟩ := inv.asyncs a member
    let marked := { s.batch.entries i with canceled := true }
    exact ⟨slot, (AsyncBatch.store_field BatchEntry.id _ marked rfl a.slot).trans id,
      (AsyncBatch.store_field BatchEntry.isDone _ marked rfl a.slot).trans waits, accepted⟩

/-- `opends_batch_cancel` is called. -/
theorem TableInv.cancelCall (inv : TableInv s) : TableInv s.cancelCall := by
  refine ⟨inv.small, inv.used, inv.blank, inv.inflight, inv.operations, ?_, ?_, inv.apart, inv.flight,
    ?_, ?_⟩
  · intro j lt
    have old := inv.entries j lt
    refine ⟨old.submission, old.result, old.waiting, old.settled, ?_, nofun⟩
    intro undelivered canceled
    change (s.history.canceled (s.batch.entries j).id || _) = true
    rw [old.flag undelivered canceled, Bool.true_or]
  · intro a member
    obtain ⟨slot, id, waits, accepted⟩ := inv.asyncs a member
    exact ⟨slot, id, waits, accepted⟩
  · intro k le
    have unknown : k ∉ s.batch.undelivered.map BatchEntry.id := by
      intro known
      obtain ⟨e, member, rfl⟩ := Multiset.mem_map.mp known
      obtain ⟨j, lt, rfl, -⟩ := mem_undelivered.mp member
      have submitted := inv.id_lt lt
      change s.history.submitted.length ≤ _ at le
      omega
    change (_ || decide _) = false
    rw [inv.fresh k le, decide_eq_false unknown, Bool.or_false]
  · intro d event
    refine (inv.events d event).congr (fun _ same => same) rfl ?_
    have other : d.op ∉ s.batch.undelivered.map BatchEntry.id := by
      intro known
      obtain ⟨e, member, same⟩ := Multiset.mem_map.mp known
      obtain ⟨j, lt, rfl, undelivered⟩ := mem_undelivered.mp member
      exact inv.delivered_ne lt undelivered event same.symm
    change (_ || decide _) = _
    rw [decide_eq_false other, Bool.or_false]

end OpenDS.Batch
