import OpenDS.Engine.QueueSteps

/-!
# The steps of a submitter on a queue

`claim_slot_locked` finds the slot at the head of a queue, the submitter fills it and
makes it pending, and the store to `queue_head` publishes it. A claim may be abandoned
until the slot is pending. None of this touches the operations that are published.
-/

set_option autoImplicit false

namespace OpenDS.Engine

open OpenDS.Library OpenDS.Aisio

namespace IoWorker

/-- `head - queue_tail < FILE_OP_QUEUE_SIZE`. -/
def hasRoom (w : IoWorker) : Bool := decide ((w.queueHead - w.queueTail).toNat < queueSize)

/-- Write the fields of the slot at the head. -/
def fill (head : BitVec 32) (fields : OpFields) (w : IoWorker) : IoWorker :=
  w.put (slotOf head)
    { w.fileOpQueue (slotOf head) with fields := fields, id := w.published.length }

/-- Store `FILE_OP_PENDING`. -/
def pend (head : BitVec 32) (w : IoWorker) : IoWorker :=
  w.put (slotOf head) { w.fileOpQueue (slotOf head) with state := .pending }

/-- Store `head + 1` to `queue_head`. -/
def publish (head : BitVec 32) (w : IoWorker) : IoWorker :=
  { w with
    queueHead := head + 1#32
    published := w.published ++ [(w.fileOpQueue (slotOf head)).fields] }

end IoWorker

variable {w w' : IoWorker} {o : Offer} {m : Marks}

/-- A slot that nobody has made pending may be offered, and an offer withdrawn. -/
theorem QueueInv.reoffer {offer offer' : Option Offer} (inv : QueueInv w offer m)
    (quiet : ∀ o, offer = some o → o.pending = false) (holds : ∀ o, offer' = some o → o.Holds w m) :
    QueueInv w offer' m := by
  refine ⟨inv.counters, ⟨inv.slots.window, fun slot out => ?_, holds⟩, inv.lives, inv.commands⟩
  rcases inv.slots.outside slot out with free | ⟨⟨o, offered, pending⟩, -⟩
  · exact .inl free
  · rw [quiet o offered] at pending
    cases pending

/-- `claim_slot_locked` finds room. -/
theorem QueueInv.claim (inv : QueueInv w none m) (room : w.hasRoom = true) :
    QueueInv w (some ⟨w.queueHead, none, false⟩) m := by
  refine inv.reoffer (by simp) fun o offered => ?_
  cases offered
  have low := inv.counters.low
  have bound := inv.counters.room
  have distance := of_decide_eq_true room
  rw [inv.counters.head, inv.counters.tail,
    word_sub_toNat low (by simp only [queueSize] at bound; omega)] at distance
  exact ⟨inv.counters.head, by omega, by simp, by simp⟩

/-- The claim is abandoned. -/
theorem QueueInv.abandon (inv : QueueInv w (some o) m) (quiet : o.pending = false) :
    QueueInv w none m :=
  inv.reoffer (fun _ same => by cases same; exact quiet) (by simp)

/-- A change of the slot at the head of a queue that is not full. -/
theorem QueueInv.atHead (inv : QueueInv w (some o) m) (op : QueuedOp)
    (final : w' = w.put (slotAt w.published.length) op) {o' : Offer} (holds : o'.Holds w' m)
    (state : op.state = .free ∨ o'.pending = true) : QueueInv w' (some o') m := by
  have room := (inv.slots.offered o rfl).room
  have window : ∀ k, m.tail ≤ k → k < w.published.length → w'.opAt k = w.opAt k := by
    intro k low lt
    rw [final]
    exact Function.update_of_ne (slotAt_ne lt (by omega)) _ _
  have opAt : w'.opAt w.published.length = op := by
    rw [final]
    exact Function.update_self _ _ _
  have published : w'.published = w.published := by rw [final]; rfl
  have pc : w'.pc = w.pc := by rw [final]; rfl
  have history : w'.history = w.history := by rw [final]; rfl
  have commands : w'.commands = w.commands := by rw [final]; rfl
  have log : w'.log = w.log := by rw [final]; rfl
  -- The worker is at an operation of the window, if at all.
  have here : ∀ onOp : w.pc.onOp = true, w'.opAt m.i = w.opAt m.i := fun onOp =>
    window m.i (inv.counters.i_window onOp).1 (inv.counters.i_window onOp).2
  refine ⟨?_, ⟨fun k lt low => ?_, fun slot out => ?_, fun _ offered => ?_⟩,
    ⟨?_, ?_, fun k lt low => ?_, fun polls => ?_, fun reads => ?_⟩,
    ⟨fun c member => ?_, fun k low lt => ?_, fun late => ?_⟩⟩
  · rw [final]
    exact ⟨inv.counters.tail, inv.counters.head, inv.counters.low, inv.counters.room,
      inv.counters.pass, inv.counters.scan, inv.counters.visit, inv.counters.retired⟩
  · simp only [published] at lt ⊢
    rw [window k low lt]
    exact inv.slots.window k lt low
  · rw [published] at out ⊢
    by_cases head : slot = slotAt w.published.length
    · subst head
      rcases state with free | pending
      · left
        change (w'.opAt w.published.length).state = .free
        rw [opAt, free]
      · exact .inr ⟨⟨o', rfl, pending⟩, rfl⟩
    · rcases inv.slots.outside slot out with free | ⟨-, same⟩
      · left
        rw [final]
        exact (congrArg QueuedOp.state (Function.update_of_ne head _ _)).trans free
      · exact absurd same head
  · cases offered
    exact holds
  · rw [log, published]
    exact inv.lives.fresh
  · simp only [published, history]
    exact inv.lives.done
  · simp only [published, history] at lt ⊢
    obtain ⟨stage, lived, shown⟩ := inv.lives.live k lt low
    refine ⟨stage, lived, ?_⟩
    rwa [IoWorker.Shows, pc, window k low lt]
  · rw [pc] at polls
    rw [here (by rcases polls with pc | pc <;> rw [pc] <;> rfl)]
    exact inv.lives.polls polls
  · rw [pc] at reads
    rw [here (by rcases reads with pc | pc <;> rw [pc] <;> rfl)]
    exact inv.lives.reads reads
  · rw [commands] at member
    obtain ⟨low, lt, slot, inFlight⟩ := inv.commands.known c member
    rw [published, window c.id low lt]
    exact ⟨low, lt, slot, inFlight⟩
  · rw [published] at lt
    rw [window k low lt]
    simp only [IoWorker.outstanding, commands]
    exact inv.commands.counted k low lt
  · rw [pc] at late
    rw [here (WorkerPc.onOp_of_late late)]
    exact inv.commands.quiet late

/-- The slot at the head is free until it is made pending. -/
theorem QueueInv.head_free (inv : QueueInv w (some o) m) (quiet : o.pending = false) :
    (w.opAt w.published.length).state = .free := by
  have room := (inv.slots.offered o rfl).room
  rcases inv.slots.outside (slotAt w.published.length) fun k low lt => slotAt_ne lt (by omega) with
    free | ⟨⟨o', offered, pending⟩, -⟩
  · exact free
  · cases offered
    rw [quiet] at pending
    cases pending

/-- The submitter fills the slot. -/
theorem QueueInv.fill (inv : QueueInv w (some o) m) (quiet : o.pending = false)
    (fields : OpFields) : QueueInv (w.fill o.head fields) (some ⟨o.head, some fields, false⟩) m := by
  have offered := inv.slots.offered o rfl
  have free := inv.head_free quiet
  have slot : slotOf o.head = slotAt w.published.length := by rw [offered.head, slotOf_word]
  have final : w.fill o.head fields = w.put (slotAt w.published.length)
      { w.opAt w.published.length with fields := fields, id := w.published.length } := by
    rw [IoWorker.fill, slot]
    rfl
  refine inv.atHead _ final ⟨offered.head, offered.room, fun _ same => ?_, by simp⟩ (.inl free)
  cases same
  have opAt : (w.fill o.head fields).opAt w.published.length =
      { w.opAt w.published.length with fields := fields, id := w.published.length } := by
    rw [final]
    exact Function.update_self _ _ _
  change ((w.fill o.head fields).opAt w.published.length).fields = fields ∧
    ((w.fill o.head fields).opAt w.published.length).id = w.published.length
  rw [opAt]
  exact ⟨rfl, rfl⟩

/-- The submitter makes the slot pending. -/
theorem QueueInv.pend (inv : QueueInv w (some o) m) (some' : o.fields.isSome = true) :
    QueueInv (w.pend o.head) (some ⟨o.head, o.fields, true⟩) m := by
  have offered := inv.slots.offered o rfl
  have slot : slotOf o.head = slotAt w.published.length := by rw [offered.head, slotOf_word]
  have final : w.pend o.head = w.put (slotAt w.published.length)
      { w.opAt w.published.length with state := .pending } := by
    rw [IoWorker.pend, slot]
    rfl
  have opAt : (w.pend o.head).opAt w.published.length =
      { w.opAt w.published.length with state := .pending } := by
    rw [final]
    exact Function.update_self _ _ _
  refine inv.atHead _ final ⟨offered.head, offered.room, fun fields same => ?_, fun _ => ?_⟩
    (.inr rfl)
  · change ((w.pend o.head).opAt w.published.length).fields = fields ∧
      ((w.pend o.head).opAt w.published.length).id = w.published.length
    rw [opAt]
    exact offered.filled fields same
  · change ((w.pend o.head).opAt w.published.length).state = .pending ∧ _
    rw [opAt]
    exact ⟨rfl, some'⟩

/-- **The store to `queue_head` publishes the operation in the slot.** -/
theorem QueueInv.publish (inv : QueueInv w (some o) m) (pending : o.pending = true) :
    QueueInv (w.publish o.head) none m := by
  obtain ⟨counters, slots, lives, commands⟩ := inv
  obtain ⟨head, room, filled, pended⟩ := slots.offered o rfl
  obtain ⟨state, some'⟩ := pended pending
  obtain ⟨fields, offered⟩ := Option.isSome_iff_exists.mp some'
  obtain ⟨same, id⟩ := filled fields offered
  have slot : slotOf o.head = slotAt w.published.length := by rw [head, slotOf_word]
  have published : (w.publish o.head).published =
      w.published ++ [(w.opAt w.published.length).fields] := by
    rw [IoWorker.publish, slot]
    rfl
  have length : (w.publish o.head).published.length = w.published.length + 1 := by
    rw [published, List.length_append, List.length_singleton]
  have old : ∀ k (lt : k < w.published.length) (lt' : k < (w.publish o.head).published.length),
      (w.publish o.head).published[k] = w.published[k] := by
    intro k lt lt'
    simp only [published]
    exact List.getElem_append_left lt
  have last : ∀ lt : w.published.length < (w.publish o.head).published.length,
      (w.publish o.head).published[w.published.length] =
        (w.opAt w.published.length).fields := by
    intro lt
    simp only [published]
    simp
  have low := counters.low
  refine ⟨⟨counters.tail, ?_, by omega, by omega, fun inPass => ?_, counters.scan, counters.visit,
    counters.retired⟩, ⟨fun k lt low' => ?_, fun slot' out => ?_, by simp⟩,
    ⟨fun e member => ?_, fun k lt before => ?_, fun k lt low' => ?_, lives.polls, lives.reads⟩,
    ⟨fun c member => ?_, fun k low' lt => ?_, commands.quiet⟩⟩
  · rw [length, ← word_succ, ← head]
    rfl
  · obtain ⟨word, order, below⟩ := counters.pass inPass
    exact ⟨word, order, by omega⟩
  · rcases Nat.lt_succ_iff_lt_or_eq.mp (length ▸ lt) with less | rfl
    · rw [old k less]
      exact slots.window k less low'
    · rw [last lt]
      exact ⟨id, rfl⟩
  · left
    rcases slots.outside slot' fun k low' lt => out k low' (by omega) with free | ⟨-, here⟩
    · exact free
    · exact absurd here.symm (out w.published.length low (by omega))
  · have fresh := lives.fresh e member
    omega
  · rw [old k (by omega)]
    exact lives.done k (by omega) before
  · rcases Nat.lt_succ_iff_lt_or_eq.mp (length ▸ lt) with less | rfl
    · rw [old k less]
      exact lives.live k less low'
    · refine ⟨.waiting, ?_, ?_⟩
      · -- Nothing has happened to the operation yet.
        have none : (w.publish o.head).history w.published.length = [] :=
          lives.history_nil (Nat.le_refl _)
        rw [none]
        rfl
      · have rest : ¬ ((w.publish o.head).pc.late = true ∧ w.published.length = m.i) := by
          rintro ⟨late, here⟩
          have window := counters.i_window (WorkerPc.onOp_of_late late)
          omega
        rw [IoWorker.Shows, if_neg rest]
        exact state
  · obtain ⟨low', lt, rest⟩ := commands.known c member
    exact ⟨low', by omega, rest⟩
  · rcases Nat.lt_succ_iff_lt_or_eq.mp (length ▸ lt) with less | rfl
    · exact commands.counted k low' less
    · intro inFlight
      exact absurd (state.symm.trans inFlight) (by decide)

end OpenDS.Engine
