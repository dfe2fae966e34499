import OpenDS.Engine.Queue

/-!
# The steps of a worker keep its queue in order

Each effect of a step either leaves the operations alone (`QueueInv.still`), or
changes the one the worker is at or the one a command belongs to
(`QueueInv.touch`), or moves the tail past a free slot (`QueueInv.retire`).
-/

set_option autoImplicit false

namespace OpenDS.Engine

open OpenDS.Library OpenDS.Aisio

variable {w w' : IoWorker} {offer : Option Offer} {m m' : Marks} {k : Nat}

/-! ## Counters -/

/-- The words of two workers are the same. -/
structure SameWords (w w' : IoWorker) : Prop where
  queueTail : w'.queueTail = w.queueTail
  queueHead : w'.queueHead = w.queueHead
  head : w'.head = w.head
  published : w'.published = w.published

theorem Counters.goTo (counters : Counters w m) (words : SameWords w w') (i : w'.i = w.i)
    (pass : w'.pc.inPass = true → w.pc.inPass = true)
    (scan : w'.pc = .scan ∨ w'.pc.onOp = true → w.pc = .scan ∨ w.pc.onOp = true)
    (visit : w'.pc.onOp = true → m.i < m.head)
    (retired : w'.pc = .stopCheck ∧ w'.busy = false ∨ w'.pc = .exited → m.tail = m.head) :
    Counters w' m := by
  refine ⟨?_, ?_, ?_, ?_, fun inPass => ?_, fun scans => ?_, visit, retired⟩
  · rw [words.queueTail]
    exact counters.tail
  · rw [words.queueHead, words.published]
    exact counters.head
  · rw [words.published]
    exact counters.low
  · rw [words.published]
    exact counters.room
  · rw [words.head, words.published]
    exact counters.pass (pass inPass)
  · rw [i]
    exact counters.scan (scan scans)

/-- The worker goes on at the operation it is at. -/
theorem Counters.onOp (counters : Counters w m) (words : SameWords w w') (i : w'.i = w.i)
    (onOp : w.pc.onOp = true) (onOp' : w'.pc.onOp = true) : Counters w' m := by
  refine counters.goTo words i (fun _ => ?_) (fun _ => .inr onOp) (fun _ => counters.visit onOp) ?_
  · cases pc : w.pc <;> rw [pc] at onOp <;> first | rfl | cases onOp
  · rintro (⟨pc, -⟩ | pc) <;> rw [pc] at onOp' <;> cases onOp'

theorem Counters.lt_of_ne (counters : Counters w m) (pc : w.pc = .scan) (more : w.i ≠ w.head) :
    m.i < m.head := by
  obtain ⟨i, -, order⟩ := counters.scan (.inl pc)
  obtain ⟨head, -, -⟩ := counters.pass (by rw [pc]; rfl)
  refine Nat.lt_of_le_of_ne order fun same => more ?_
  rw [i, head, same]

/-- The scan goes on to the next operation. -/
theorem Counters.next (counters : Counters w m) (words : SameWords w w') (i : w'.i = w.i + 1#32)
    (pc' : w'.pc = .scan) (scan : w.pc = .scan ∨ w.pc.onOp = true) (more : m.i < m.head) :
    Counters w' { m with i := m.i + 1 } := by
  obtain ⟨word, low, -⟩ := counters.scan scan
  have inPass : w.pc.inPass = true := by
    rcases scan with pc | onOp
    · rw [pc]
      rfl
    · cases pc : w.pc <;> rw [pc] at onOp <;> first | rfl | cases onOp
  refine ⟨?_, ?_, ?_, ?_, fun _ => ?_, fun _ => ⟨?_, ?_, more⟩, ?_, ?_⟩
  · rw [words.queueTail]
    exact counters.tail
  · rw [words.queueHead, words.published]
    exact counters.head
  · rw [words.published]
    exact counters.low
  · rw [words.published]
    exact counters.room
  · rw [words.head, words.published]
    exact counters.pass inPass
  · rw [i, word, word_succ]
  · exact Nat.le_succ_of_le low
  · simp [pc', WorkerPc.onOp]
  · simp [pc']

/-- The worker begins an iteration. -/
theorem Counters.load (counters : Counters w m) : Counters
    { w with pc := .scan, head := w.queueHead, i := w.queueTail, busy := false }
    ⟨m.tail, m.tail, w.published.length⟩ := by
  have low := counters.low
  exact ⟨counters.tail, counters.head, low, counters.room,
    fun _ => ⟨counters.head, low, Nat.le_refl _⟩, fun _ => ⟨counters.tail, Nat.le_refl _, low⟩,
    fun onOp => (by cases onOp), fun retired => (by simp at retired)⟩

/-! ## Steps that leave the operations alone -/

/-- A step that changes the locals of the worker only. -/
theorem QueueInv.still (inv : QueueInv w offer m) (counters : Counters w' m')
    (queue : w'.fileOpQueue = w.fileOpQueue) (published : w'.published = w.published)
    (commands : w'.commands = w.commands) (log : w'.log = w.log) (tail : m'.tail = m.tail)
    (early : w.pc.late = false) (early' : w'.pc.late = false)
    (polls : w'.pc = .poll ∨ w'.pc = .dispatch → (w.opAt m'.i).state = .pending)
    (reads : w'.pc = .submit ∨ w'.pc = .reap → (w.opAt m'.i).state = .inFlight) :
    QueueInv w' offer m' :=
  ⟨counters, inv.slots.still queue published tail,
    inv.lives.still queue published log tail early early' polls reads,
    inv.commands.still queue published commands tail (by simp [early'])⟩

/-- A free slot holds a completed operation. -/
theorem QueueInv.completed_of_free (inv : QueueInv w offer m) (early : w.pc.late = false)
    (low : m.tail ≤ k) (lt : k < w.published.length) (free : (w.opAt k).state = .free) :
    ∃ n, w.published[k].life.run (w.history k) .waiting = some (.completed n) := by
  obtain ⟨stage, lived, shown⟩ := inv.lives.live k lt low
  rw [IoWorker.Shows, if_neg (by simp [early])] at shown
  cases stage with
  | completed n => exact ⟨n, lived⟩
  | waiting => exact absurd (free.symm.trans shown) (by decide)
  | reading bytesAcc err => exact absurd (free.symm.trans shown.1) (by decide)
  | writing | reported | stored => exact shown.elim

/-- **The tail passes completed operations only.** -/
theorem QueueInv.retire (inv : QueueInv w offer m) (pc : w.pc = .advance)
    (more : w.queueTail ≠ w.head) (free : (w.fileOpQueue (slotOf w.queueTail)).state = .free) :
    QueueInv { w with queueTail := w.queueTail + 1#32 } offer { m with tail := m.tail + 1 } := by
  have counters := inv.counters
  have early : w.pc.late = false := by rw [pc]; rfl
  obtain ⟨head, order, below⟩ := counters.pass (by rw [pc]; rfl)
  have room := counters.room
  have less : m.tail < m.head := by
    refine Nat.lt_of_le_of_ne order fun same => more ?_
    rw [counters.tail, head, same]
  rw [counters.tail, slotOf_word] at free
  refine ⟨⟨?_, counters.head, by simp only; omega, by simp only; omega, fun _ => ⟨head, less, below⟩,
    ?_, ?_, ?_⟩, ⟨fun k lt low => inv.slots.window k lt (by simp only at low; omega), ?_, ?_⟩,
    ⟨inv.lives.fresh, ?_, ?_, ?_, ?_⟩, ⟨?_, ?_, ?_⟩⟩
  · simp only
    rw [counters.tail, word_succ]
  · simp [pc, WorkerPc.onOp]
  · simp [pc, WorkerPc.onOp]
  · simp [pc]
  · intro slot out
    by_cases here : slotAt m.tail = slot
    · rw [← here]
      exact .inl free
    · refine inv.slots.outside slot fun k low lt => ?_
      by_cases first : k = m.tail
      · rw [first]
        exact here
      · exact out k (by simp only; omega) lt
  · intro o offered
    obtain ⟨head, room, filled, pended⟩ := inv.slots.offered o offered
    exact ⟨head, by simp only; omega, filled, pended⟩
  · intro k lt before
    by_cases first : k = m.tail
    · subst first
      exact inv.completed_of_free early (Nat.le_refl _) lt free
    · exact inv.lives.done k lt (by simp only at before; omega)
  · intro k lt low
    obtain ⟨stage, lived, shown⟩ := inv.lives.live k lt (by simp only at low; omega)
    refine ⟨stage, lived, ?_⟩
    rw [IoWorker.Shows, if_neg (by simp [early])] at shown ⊢
    exact shown
  · simp [pc]
  · simp [pc]
  · intro c member
    obtain ⟨low, lt, slot, inFlight⟩ := inv.commands.known c member
    refine ⟨?_, lt, slot, inFlight⟩
    have other : m.tail ≠ c.id := by
      intro same
      rw [← same] at inFlight
      exact absurd (free.symm.trans inFlight) (by decide)
    simp only
    omega
  · exact fun k low lt => inv.commands.counted k (by simp only at low; omega) lt
  · simp [pc, WorkerPc.late]

/-! ## Steps that change one operation -/

/-- What happens to one operation is a step of its life. -/
theorem QueueInv.touch (inv : QueueInv w offer m) (event : Option OpEvent)
    (counters : Counters w' m') (touches : Touches w w' k) (lowK : m.tail ≤ k)
    (highK : k < w.published.length) (tail : m'.tail = m.tail)
    (log : w'.log = w.log ++ (event.map fun e => (k, e)).toList)
    (only : w.pc.late = true → m.i = k) (only' : w'.pc.late = true → m'.i = k)
    (step : ∀ stage, w.Shows m k stage → ∃ stage',
      (w.opAt k).fields.life.run event.toList stage = some stage' ∧ w'.Shows m' k stage')
    (polls : w'.pc = .poll ∨ w'.pc = .dispatch → (w'.opAt m'.i).state = .pending)
    (reads : w'.pc = .submit ∨ w'.pc = .reap → (w'.opAt m'.i).state = .inFlight)
    (commands : Commands w' m') : QueueInv w' offer m' := by
  rw [(inv.slots.window k highK lowK).2] at step
  exact ⟨counters, inv.slots.touch inv.counters touches lowK highK tail,
    inv.lives.touch inv.counters touches lowK highK tail log only only' step polls reads, commands⟩

/-- A worker that has stored an operation, and what happened to it. -/
theorem touches_put {w₁ : IoWorker} {op : QueuedOp} {event : Option (Nat × OpEvent)}
    (final : w' = (w₁.put (slotAt k) op).record event) (queue : w₁.fileOpQueue = w.fileOpQueue)
    (published : w₁.published = w.published) (id : op.id = (w.opAt k).id)
    (fields : op.fields = (w.opAt k).fields) : Touches w w' k ∧ w'.opAt k = op := by
  have opAt : w'.opAt k = op := by
    rw [final]
    exact Function.update_self _ _ _
  refine ⟨⟨by rw [final]; exact published, fun slot other => ?_, by rw [opAt, id],
    by rw [opAt, fields]⟩, opAt⟩
  rw [final]
  exact (Function.update_of_ne other _ _).trans (congrFun queue slot)

/-- The queue and the place of an operation the worker is at. -/
theorem QueueInv.place (inv : QueueInv w offer m) (onOp : w.pc.onOp = true) :
    w.current = w.opAt m.i ∧ slotOf w.i = slotAt m.i ∧ m.tail ≤ m.i ∧
      m.i < w.published.length ∧ (w.opAt m.i).id = m.i := by
  obtain ⟨low, lt⟩ := inv.counters.i_window onOp
  exact ⟨inv.counters.current (.inr onOp), inv.counters.opAt_i (.inr onOp), low, lt,
    (inv.slots.window m.i lt low).1⟩

/-- An operation that is not in flight has no commands. -/
theorem Commands.none_of_not_inFlight (commands : Commands w m)
    (state : (w.opAt k).state ≠ .inFlight) : ∀ c ∈ w.commands, c.id ≠ k := by
  intro c member same
  rw [← same] at state
  exact state (commands.known c member).2.2.2

theorem outstanding_eq_zero (none : ∀ c ∈ w.commands, c.id ≠ k) (callback : Callback) :
    w.outstanding callback k = 0 := by
  refine List.countP_eq_zero.mpr fun c member => ?_
  simp [none c member]

/-- An operation that counts no commands has none. -/
theorem Commands.none_of_zero (commands : Commands w m) (low : m.tail ≤ k)
    (lt : k < w.published.length) (inFlight : (w.opAt k).state = .inFlight)
    (chunks : (w.opAt k).chunksRemaining = 0) (bounces : (w.opAt k).bouncesOutstanding = 0) :
    ∀ c ∈ w.commands, c.id ≠ k := by
  obtain ⟨chunk, bounce⟩ := commands.counted k low lt inFlight
  rw [chunks] at chunk
  rw [bounces] at bounce
  intro c member same
  cases callback : c.callback with
  | chunk =>
      have zero : w.outstanding .chunk k = 0 := by omega
      have not := List.countP_eq_zero.mp zero c member
      simp [same, callback] at not
  | bounce =>
      have zero : w.outstanding .bounce k = 0 := by omega
      have not := List.countP_eq_zero.mp zero c member
      simp [same, callback] at not

/-- The commands survive a change of an operation that keeps what it counts. -/
theorem Commands.touch_same (commands : Commands w m) (counters : Counters w m)
    (touches : Touches w w' k) (lowK : m.tail ≤ k) (highK : k < w.published.length)
    (tail : m'.tail = m.tail) (same : w'.commands = w.commands)
    (here : (∀ c ∈ w.commands, c.id ≠ k) ∨ (w'.opAt k).state = .inFlight)
    (counted : (w'.opAt k).state = .inFlight →
      (w'.opAt k).chunksRemaining = w.outstanding .chunk k ∧
        (w'.opAt k).bouncesOutstanding = w.outstanding .bounce k)
    (early' : w'.pc.late = false) : Commands w' m' := by
  have outstanding : w'.outstanding = w.outstanding := by
    funext callback j
    rw [IoWorker.outstanding, same, IoWorker.outstanding]
  refine commands.touch counters touches lowK highK tail ?_ ?_ ?_ ?_ early'
  · rw [same]
    exact fun c member _ => member
  · rw [same]
    intro c member mine
    rcases here with none | inFlight
    · exact absurd mine (none c member)
    · refine ⟨?_, inFlight⟩
      rw [← mine]
      exact (commands.known c member).2.2.1
  · exact fun callback j _ => by rw [outstanding]
  · rw [outstanding]
    exact counted

/-! ## The dispatch -/

/-- An operation that is still pending waits. -/
theorem QueuedOp.waiting_of_pending {op : QueuedOp} {stage : Stage} (rests : op.Rests stage)
    (pending : op.state = .pending) : stage = .waiting := by
  cases stage with
  | waiting => rfl
  | completed n => exact absurd (pending.symm.trans rests) (by decide)
  | reading bytesAcc err => exact absurd (pending.symm.trans rests.1) (by decide)
  | writing | reported | stored => exact rests.elim

/-- An operation in flight is being read. -/
theorem QueuedOp.reading_of_inFlight {op : QueuedOp} {stage : Stage} (rests : op.Rests stage)
    (inFlight : op.state = .inFlight) :
    stage = .reading op.bytesAcc op.err ∧ op.fields.isWrite = false := by
  cases stage with
  | waiting => exact absurd (inFlight.symm.trans rests) (by decide)
  | completed n => exact absurd (inFlight.symm.trans rests) (by decide)
  | reading bytesAcc err =>
      obtain ⟨-, read, rfl, rfl⟩ := rests
      exact ⟨rfl, read⟩
  | writing | reported | stored => exact rests.elim

theorem IoWorker.Shows.rests {stage : Stage} (shown : w.Shows m k stage)
    (early : w.pc.late = false) : (w.opAt k).Rests stage := by
  rwa [IoWorker.Shows, if_neg (by simp [early])] at shown

theorem IoWorker.shows_of_rests {stage : Stage} (early : w.pc.late = false)
    (rests : (w.opAt k).Rests stage) : w.Shows m k stage := by
  rwa [IoWorker.Shows, if_neg (by simp [early])]

theorem QueueInv.dispatchWrite (inv : QueueInv w offer m) (pc : w.pc = .dispatch)
    (write : w.current.fields.isWrite = true) :
    QueueInv (({ w with pc := .pwrite } : IoWorker).record (some (w.current.id, .dispatched)))
      offer m := by
  have onOp : w.pc.onOp = true := by rw [pc]; rfl
  have early : w.pc.late = false := by rw [pc]; rfl
  obtain ⟨current, slot, low, lt, id⟩ := inv.place onOp
  have pending := inv.lives.polls (.inr pc)
  rw [current] at write ⊢
  rw [id]
  refine inv.touch (k := m.i) (some .dispatched)
    (inv.counters.onOp ⟨rfl, rfl, rfl, rfl⟩ rfl onOp rfl) ⟨rfl, fun _ _ => rfl, rfl, rfl⟩ low lt rfl
    rfl (fun _ => rfl) (fun _ => rfl) (fun stage shown => ⟨.writing, ?_, ?_⟩) (by simp [IoWorker.record])
    (by simp [IoWorker.record]) ?_
  · obtain rfl := QueuedOp.waiting_of_pending (shown.rests early) pending
    simp [OpFields.life, write]
  · rw [IoWorker.Shows, if_pos ⟨rfl, rfl⟩]
    exact pending
  · refine inv.commands.still rfl rfl rfl rfl fun _ inFlight => ?_
    exact absurd (pending.symm.trans inFlight) (by decide)

theorem QueueInv.dispatchRead (inv : QueueInv w offer m) (pc : w.pc = .dispatch)
    (read : w.current.fields.isWrite = false) :
    QueueInv ((({ w with pc := .submit } : IoWorker).put (slotOf w.i) w.current.start).record
      (some (w.current.id, .dispatched))) offer m := by
  have onOp : w.pc.onOp = true := by rw [pc]; rfl
  have early : w.pc.late = false := by rw [pc]; rfl
  obtain ⟨current, slot, low, lt, id⟩ := inv.place onOp
  have pending := inv.lives.polls (.inr pc)
  rw [current] at read ⊢
  rw [id, slot]
  obtain ⟨w', final⟩ : ∃ w', w' = (({ w with pc := .submit } : IoWorker).put (slotAt m.i)
    (w.opAt m.i).start).record (some (m.i, .dispatched)) := ⟨_, rfl⟩
  obtain ⟨touches, opAt⟩ := touches_put (w := w) final rfl rfl rfl rfl
  have pc' : w'.pc = .submit := by rw [final]; rfl
  have early' : w'.pc.late = false := by rw [pc']; rfl
  have none := inv.commands.none_of_not_inFlight (k := m.i) (by rw [pending]; decide)
  rw [← final]
  refine inv.touch (k := m.i) (some .dispatched) (inv.counters.onOp ?_ ?_ onOp ?_) touches
    low lt rfl ?_ (fun _ => rfl) (fun _ => rfl) (fun stage shown => ?_) ?_ ?_ ?_
  · rw [final]
    exact ⟨rfl, rfl, rfl, rfl⟩
  · rw [final]
    rfl
  · rw [pc']
    rfl
  · rw [final]
    rfl
  · obtain rfl := QueuedOp.waiting_of_pending (shown.rests early) pending
    refine ⟨.reading 0 Option.none, by simp [OpFields.life, read], ?_⟩
    refine IoWorker.shows_of_rests early' ?_
    rw [opAt]
    exact ⟨rfl, read, rfl, rfl⟩
  · simp [pc']
  · rw [opAt]
    exact fun _ => rfl
  · refine inv.commands.touch_same inv.counters touches low lt rfl (by rw [final]; rfl) (.inl none) ?_
      early'
    rw [opAt, outstanding_eq_zero none, outstanding_eq_zero none]
    exact fun _ => ⟨rfl, rfl⟩

/-! ## Commands -/

theorem QueueInv.issue (inv : QueueInv w offer m) (pc : w.pc = .submit) (callback : Callback)
    (nbytes : Nat) :
    QueueInv ((({ w with commands := w.commands ++ [⟨slotOf w.i, callback, nbytes, w.current.id⟩] } :
      IoWorker).put (slotOf w.i) (w.current.issue callback nbytes)).record
        (some (w.current.id, .issued callback nbytes))) offer m := by
  have onOp : w.pc.onOp = true := by rw [pc]; rfl
  have early : w.pc.late = false := by rw [pc]; rfl
  obtain ⟨current, slot, low, lt, id⟩ := inv.place onOp
  have inFlight := inv.lives.reads (.inl pc)
  have counted := inv.commands.counted m.i low lt inFlight
  rw [current, id, slot]
  obtain ⟨w', final⟩ : ∃ w', w' =
    (({ w with commands := w.commands ++ [⟨slotAt m.i, callback, nbytes, m.i⟩] } : IoWorker).put
      (slotAt m.i) ((w.opAt m.i).issue callback nbytes)).record
        (some (m.i, .issued callback nbytes)) := ⟨_, rfl⟩
  obtain ⟨touches, opAt⟩ := touches_put (w := w) final rfl rfl (by cases callback <;> rfl)
    (by cases callback <;> rfl)
  have pc' : w'.pc = .submit := by rw [final]; exact pc
  have early' : w'.pc.late = false := by rw [pc']; rfl
  have state' : (w'.opAt m.i).state = .inFlight := by
    rw [opAt]
    cases callback <;> exact inFlight
  have listed : w'.commands = w.commands ++ [⟨slotAt m.i, callback, nbytes, m.i⟩] := by
    rw [final]
    rfl
  rw [← final]
  refine inv.touch (k := m.i) (some (.issued callback nbytes))
    (inv.counters.onOp ?_ ?_ onOp ?_) touches low lt rfl ?_ (fun _ => rfl) (fun _ => rfl)
    (fun stage shown => ?_) ?_ (fun _ => state') ?_
  · rw [final]
    exact ⟨rfl, rfl, rfl, rfl⟩
  · rw [final]
    rfl
  · rw [pc']
    rfl
  · rw [final]
    rfl
  · obtain ⟨rfl, read⟩ := QueuedOp.reading_of_inFlight (shown.rests early) inFlight
    refine ⟨_, rfl, IoWorker.shows_of_rests early' ?_⟩
    rw [opAt]
    cases callback <;> exact ⟨inFlight, read, rfl, rfl⟩
  · simp [pc']
  · refine inv.commands.touch inv.counters touches low lt rfl ?_ ?_ ?_ ?_ early'
    · rw [listed]
      intro c member other
      rcases List.mem_append.mp member with old | new
      · exact old
      · obtain rfl := List.mem_singleton.mp new
        exact absurd rfl other
    · rw [listed]
      intro c member mine
      refine ⟨?_, state'⟩
      rcases List.mem_append.mp member with old | new
      · rw [← mine]
        exact (inv.commands.known c old).2.2.1
      · obtain rfl := List.mem_singleton.mp new
        rfl
    · intro callback' j other
      rw [IoWorker.outstanding, listed, List.countP_append, IoWorker.outstanding]
      simp [other.symm]
    · intro _
      rw [opAt, IoWorker.outstanding, IoWorker.outstanding, listed, List.countP_append,
        List.countP_append]
      simp only [IoWorker.outstanding] at counted
      cases callback <;> simp [QueuedOp.issue, counted]

theorem QueueInv.refuse (inv : QueueInv w offer m) (pc : w.pc = .submit) (e : OpError) :
    QueueInv ((w.next.put (slotOf w.i) { w.current with err := some e }).record
      (some (w.current.id, .refused e))) offer { m with i := m.i + 1 } := by
  have onOp : w.pc.onOp = true := by rw [pc]; rfl
  have early : w.pc.late = false := by rw [pc]; rfl
  obtain ⟨current, slot, low, lt, id⟩ := inv.place onOp
  have inFlight := inv.lives.reads (.inl pc)
  rw [current, id, slot]
  obtain ⟨w', final⟩ : ∃ w', w' = (w.next.put (slotAt m.i)
    { w.opAt m.i with err := some e }).record (some (m.i, .refused e)) := ⟨_, rfl⟩
  obtain ⟨touches, opAt⟩ := touches_put (w := w) final rfl rfl rfl rfl
  have pc' : w'.pc = .scan := by rw [final]; rfl
  have early' : w'.pc.late = false := by rw [pc']; rfl
  rw [← final]
  refine inv.touch (k := m.i) (some (.refused e))
    (inv.counters.next ?_ ?_ pc' (.inr onOp) (inv.counters.visit onOp)) touches low lt rfl ?_
    (fun _ => rfl) (by simp [early']) (fun stage shown => ?_) (by simp [pc']) (by simp [pc']) ?_
  · rw [final]
    exact ⟨rfl, rfl, rfl, rfl⟩
  · rw [final]
    rfl
  · rw [final]
    rfl
  · obtain ⟨rfl, read⟩ := QueuedOp.reading_of_inFlight (shown.rests early) inFlight
    refine ⟨_, rfl, IoWorker.shows_of_rests early' ?_⟩
    rw [opAt]
    exact ⟨inFlight, read, rfl, rfl⟩
  · refine inv.commands.touch_same inv.counters touches low lt rfl (by rw [final]; rfl)
      (.inr (by rw [opAt]; exact inFlight)) ?_ early'
    rw [opAt]
    exact inv.commands.counted m.i low lt

theorem countP_eraseIdx {α : Type} (p : α → Bool) {l : List α} {n : Nat} {a : α}
    (there : l[n]? = some a) : (l.eraseIdx n).countP p + (if p a then 1 else 0) = l.countP p := by
  obtain ⟨lt, rfl⟩ := List.getElem?_eq_some_iff.mp there
  have split : l.countP p = (l[n] :: l.eraseIdx n).countP p :=
    (List.getElem_cons_eraseIdx_perm lt).countP_eq p |>.symm
  rw [split, List.countP_cons]

theorem QueuedOp.arrive_stage (op : QueuedOp) (callback : Callback) (nbytes : Nat) (ok : Bool) :
    (op.arrive callback nbytes ok).state = op.state ∧
      (op.arrive callback nbytes ok).fields = op.fields ∧
      (op.arrive callback nbytes ok).id = op.id ∧
      ((op.arrive callback nbytes ok).bytesAcc, (op.arrive callback nbytes ok).err) =
        arrival callback nbytes ok op.bytesAcc op.err := by
  cases callback with
  | chunk => cases ok <;> exact ⟨rfl, rfl, rfl, rfl⟩
  | bounce =>
      cases ok with
      | true => exact ⟨rfl, rfl, rfl, rfl⟩
      | false => cases err : op.err <;> simp [arrive, bounceCb, arrival, err]

theorem QueuedOp.arrive_counters (op : QueuedOp) (callback : Callback) (nbytes : Nat) (ok : Bool) :
    (op.arrive callback nbytes ok).chunksRemaining =
        op.chunksRemaining - (if callback = .chunk then 1 else 0) ∧
      (op.arrive callback nbytes ok).bouncesOutstanding =
        op.bouncesOutstanding - (if callback = .bounce then 1 else 0) := by
  cases callback with
  | chunk => cases ok <;> simp [arrive, chunkCb]
  | bounce =>
      simp only [arrive, bounceCb]
      split <;> simp

theorem QueueInv.arrive (inv : QueueInv w offer m) (pc : w.pc = .submit ∨ w.pc = .poke)
    {c : QueuedCommand} {command : Nat} (ok : Bool) (there : w.commands[command]? = some c) :
    QueueInv ((({ w with commands := w.commands.eraseIdx command } : IoWorker).put c.slot
      ((w.fileOpQueue c.slot).arrive c.callback c.nbytes ok)).record
        (some (c.id, .arrived c.callback c.nbytes ok))) offer m := by
  have early : w.pc.late = false := by rcases pc with pc | pc <;> rw [pc] <;> rfl
  obtain ⟨low, lt, slot, inFlight⟩ := inv.commands.known c (List.mem_of_getElem? there)
  rw [slot]
  change QueueInv ((({ w with commands := w.commands.eraseIdx command } : IoWorker).put
    (slotAt c.id) ((w.opAt c.id).arrive c.callback c.nbytes ok)).record _) offer m
  obtain ⟨state, fields, id, account⟩ := (w.opAt c.id).arrive_stage c.callback c.nbytes ok
  obtain ⟨w', final⟩ : ∃ w', w' = (({ w with commands := w.commands.eraseIdx command } :
    IoWorker).put (slotAt c.id) ((w.opAt c.id).arrive c.callback c.nbytes ok)).record
      (some (c.id, .arrived c.callback c.nbytes ok)) := ⟨_, rfl⟩
  obtain ⟨touches, opAt⟩ := touches_put (w := w) final rfl rfl id fields
  have pc' : w'.pc = w.pc := by rw [final]; rfl
  have early' : w'.pc.late = false := by rw [pc', early]
  have listed : w'.commands = w.commands.eraseIdx command := by rw [final]; rfl
  have state' : (w'.opAt c.id).state = .inFlight := by rw [opAt, state, inFlight]
  rw [← final]
  refine inv.touch (k := c.id) (some (.arrived c.callback c.nbytes ok))
    (inv.counters.goTo ?_ ?_ (by simp [pc']) (by simp [pc']) ?_ ?_) touches low lt rfl ?_
    (by simp [early]) (by simp [early']) (fun stage shown => ?_) ?_ ?_ ?_
  · rw [final]
    exact ⟨rfl, rfl, rfl, rfl⟩
  · rw [final]
    rfl
  · rw [pc']
    exact inv.counters.visit
  · rcases pc with pc | pc <;> simp [pc', pc]
  · rw [final]
    rfl
  · obtain ⟨rfl, read⟩ := QueuedOp.reading_of_inFlight (shown.rests early) inFlight
    refine ⟨_, rfl, IoWorker.shows_of_rests early' ?_⟩
    rw [opAt]
    simp only [← account]
    exact ⟨state.trans inFlight, by rw [fields]; exact read, rfl, rfl⟩
  · rcases pc with pc | pc <;> simp [pc', pc]
  · intro reads
    rw [pc'] at reads
    by_cases mine : m.i = c.id
    · rw [mine]
      exact state'
    · have onOp : w.pc.onOp = true := by rcases reads with pc | pc <;> rw [pc] <;> rfl
      obtain ⟨lowI, ltI⟩ := inv.counters.i_window onOp
      rw [touches.opAt inv.counters low lt lowI ltI mine]
      exact inv.lives.reads reads
  · refine inv.commands.touch inv.counters touches low lt rfl ?_ ?_ ?_ ?_ early'
    · rw [listed]
      exact fun c' member _ => List.mem_of_mem_eraseIdx member
    · rw [listed]
      intro c' member mine
      refine ⟨?_, state'⟩
      rw [← mine]
      exact (inv.commands.known c' (List.mem_of_mem_eraseIdx member)).2.2.1
    · intro callback j other
      have erased := countP_eraseIdx (fun c => decide (c.id = j ∧ c.callback = callback)) there
      rw [if_neg (by simp [other.symm])] at erased
      rw [IoWorker.outstanding, listed]
      exact erased
    · intro _
      obtain ⟨chunks, bounces⟩ := inv.commands.counted c.id low lt inFlight
      obtain ⟨chunks', bounces'⟩ := (w.opAt c.id).arrive_counters c.callback c.nbytes ok
      have chunk := countP_eraseIdx (fun c' => decide (c'.id = c.id ∧ c'.callback = .chunk)) there
      have bounce := countP_eraseIdx (fun c' => decide (c'.id = c.id ∧ c'.callback = .bounce)) there
      rw [opAt, chunks', bounces', chunks, bounces]
      simp only [IoWorker.outstanding, listed, ← chunk, ← bounce]
      cases c.callback <;> simp

/-! ## The report -/

/-- The worker goes on with the operation it is about to report. -/
theorem QueueInv.report (inv : QueueInv w offer m) (onOp : w.pc.onOp = true) {pc : WorkerPc}
    (late : pc.late = true) {event : OpEvent}
    (step : ∀ stage, w.Shows m m.i stage → ∃ stage',
      (w.opAt m.i).fields.life.step stage event = some stage' ∧
        (w.opAt m.i).ShowsLate pc stage')
    (quiet : (w.opAt m.i).state = .inFlight →
      (w.opAt m.i).chunksRemaining = 0 ∧ (w.opAt m.i).bouncesOutstanding = 0) :
    QueueInv (({ w with pc := pc } : IoWorker).record (some (w.current.id, event))) offer m := by
  obtain ⟨current, slot, low, lt, id⟩ := inv.place onOp
  rw [current, id]
  refine inv.touch (k := m.i) (some event)
    (inv.counters.onOp ⟨rfl, rfl, rfl, rfl⟩ rfl onOp (WorkerPc.onOp_of_late late))
    ⟨rfl, fun _ _ => rfl, rfl, rfl⟩ low lt rfl rfl (fun _ => rfl) (fun _ => rfl)
    (fun stage shown => ?_) ?_ ?_ (inv.commands.still rfl rfl rfl rfl fun _ => quiet)
  · obtain ⟨stage', stepped, shown'⟩ := step stage shown
    refine ⟨stage', by simp [stepped], ?_⟩
    rw [IoWorker.Shows, if_pos ⟨late, rfl⟩]
    exact shown'
  · rintro (poll | dispatch)
    · rw [show pc = .poll from poll] at late
      cases late
    · rw [show pc = .dispatch from dispatch] at late
      cases late
  · rintro (submit | reap)
    · rw [show pc = .submit from submit] at late
      cases late
    · rw [show pc = .reap from reap] at late
      cases late

theorem IoWorker.Shows.late {stage : Stage} (shown : w.Shows m m.i stage) (late : w.pc.late = true) :
    (w.opAt m.i).ShowsLate w.pc stage := by
  rwa [IoWorker.Shows, if_pos ⟨late, rfl⟩] at shown

theorem QueueInv.wrote (inv : QueueInv w offer m) (pc : w.pc = .pwrite) (ret : Int) :
    QueueInv (({ w with pc := .result (writeResult ret) } : IoWorker).record
      (some (w.current.id, .wrote ret))) offer m := by
  refine inv.report (by rw [pc]; rfl) rfl (fun stage shown => ?_)
    (inv.commands.quiet (by rw [pc]; rfl))
  have writing := shown.late (by rw [pc]; rfl)
  rw [pc] at writing
  cases stage with
  | writing => exact ⟨_, rfl, rfl, by rw [show (w.opAt m.i).state = .pending from writing]; decide⟩
  | _ => exact writing.elim

theorem QueueInv.copied (inv : QueueInv w offer m) (pc : w.pc = .reap) (ok : Bool)
    (chunks : w.current.chunksRemaining = 0) (bounces : w.current.bouncesOutstanding = 0) :
    QueueInv (({ w with pc := .result (w.current.fields.readResult w.current.bytesAcc w.current.err
      ok) } : IoWorker).record (some (w.current.id, .copied ok))) offer m := by
  have onOp : w.pc.onOp = true := by rw [pc]; rfl
  obtain ⟨current, -⟩ := inv.place onOp
  have inFlight := inv.lives.reads (.inr pc)
  refine inv.report onOp rfl (fun stage shown => ?_) fun _ => ?_
  · obtain ⟨rfl, read⟩ := QueuedOp.reading_of_inFlight (shown.rests (by rw [pc]; rfl)) inFlight
    rw [current]
    exact ⟨_, rfl, rfl, by rw [inFlight]; decide⟩
  · rw [← current]
    exact ⟨chunks, bounces⟩

theorem QueueInv.store (inv : QueueInv w offer m) {n : Int} (pc : w.pc = .result n) :
    QueueInv (({ w with pc := .release n } : IoWorker).record
      (some (w.current.id, .stored w.current.fields.target n))) offer m := by
  have onOp : w.pc.onOp = true := by rw [pc]; rfl
  obtain ⟨current, -⟩ := inv.place onOp
  refine inv.report onOp rfl (fun stage shown => ?_) (inv.commands.quiet (by rw [pc]; rfl))
  have reported := shown.late (by rw [pc]; rfl)
  rw [pc] at reported
  cases stage with
  | reported n' =>
      obtain ⟨rfl, state⟩ := reported
      refine ⟨.stored n, ?_, rfl, state⟩
      rw [current]
      exact if_pos ⟨rfl, rfl⟩
  | _ => exact reported.elim

theorem QueueInv.complete (inv : QueueInv w offer m) {n : Int} (pc : w.pc = .release n) :
    QueueInv (({ w with pc := .free } : IoWorker).record
      (some (w.current.id, .completed w.current.fields.target n))) offer m := by
  have onOp : w.pc.onOp = true := by rw [pc]; rfl
  obtain ⟨current, -⟩ := inv.place onOp
  refine inv.report onOp rfl (fun stage shown => ?_) (inv.commands.quiet (by rw [pc]; rfl))
  have stored := shown.late (by rw [pc]; rfl)
  rw [pc] at stored
  cases stage with
  | stored n' =>
      obtain ⟨rfl, state⟩ := stored
      refine ⟨.completed n, ?_, state⟩
      rw [current]
      exact if_pos ⟨rfl, rfl⟩
  | _ => exact stored.elim

theorem QueueInv.free (inv : QueueInv w offer m) (pc : w.pc = .free) :
    QueueInv ((w.next.put (slotOf w.i) { w.current with state := .free }).record none) offer
      { m with i := m.i + 1 } := by
  have onOp : w.pc.onOp = true := by rw [pc]; rfl
  have late : w.pc.late = true := by rw [pc]; rfl
  obtain ⟨current, slot, low, lt, id⟩ := inv.place onOp
  rw [current, slot]
  obtain ⟨w', final⟩ : ∃ w', w' = (w.next.put (slotAt m.i)
    { w.opAt m.i with state := .free }).record none := ⟨_, rfl⟩
  obtain ⟨touches, opAt⟩ := touches_put (w := w) final rfl rfl rfl rfl
  have pc' : w'.pc = .scan := by rw [final]; rfl
  have early' : w'.pc.late = false := by rw [pc']; rfl
  rw [← final]
  refine inv.touch (k := m.i) none
    (inv.counters.next ?_ ?_ pc' (.inr onOp) (inv.counters.visit onOp)) touches low lt rfl ?_
    (fun _ => rfl) (by simp [early']) (fun stage shown => ⟨stage, rfl, ?_⟩) (by simp [pc'])
    (by simp [pc']) ?_
  · rw [final]
    exact ⟨rfl, rfl, rfl, rfl⟩
  · rw [final]
    rfl
  · rw [final]
    rfl
  · have completed := shown.late late
    rw [pc] at completed
    refine IoWorker.shows_of_rests early' ?_
    rw [opAt]
    cases stage with
    | completed n => exact rfl
    | _ => exact completed.elim
  · refine inv.commands.touch_same inv.counters touches low lt rfl (by rw [final]; rfl) (.inl ?_) ?_
      early'
    · -- Its commands have all arrived before it was reported.
      by_cases inFlight : (w.opAt m.i).state = .inFlight
      · obtain ⟨chunks, bounces⟩ := inv.commands.quiet late inFlight
        exact inv.commands.none_of_zero low lt inFlight chunks bounces
      · exact inv.commands.none_of_not_inFlight inFlight
    · rw [opAt]
      intro inFlight
      cases inFlight

/-! ## A step -/

/-- **A step of the worker keeps its queue in order.** -/
theorem QueueInv.effect {gate : Nat → BitVec 32} {stop : Bool} {event : Option (Nat × OpEvent)}
    (inv : QueueInv w offer m) (effect : WorkerEffect gate stop w event w') :
    ∃ m', QueueInv (w'.record event) offer m' := by
  have counters := inv.counters
  have nothing : ∀ v : IoWorker, v.log ++ (none : Option (Nat × OpEvent)).toList = v.log :=
    fun v => List.append_nil v.log
  -- The scan goes on past an operation that it leaves alone.
  have next : ∀ busy, w.pc.late = false → w.pc = .scan ∨ w.pc.onOp = true → m.i < m.head →
      QueueInv (({ w.next with busy := busy } : IoWorker).record none) offer { m with i := m.i + 1 } :=
    fun busy early scan more => inv.still
      (counters.next ⟨rfl, rfl, rfl, rfl⟩ rfl rfl scan more) rfl rfl rfl (nothing _) rfl early rfl
      (by simp [IoWorker.record, IoWorker.next]) (by simp [IoWorker.record, IoWorker.next])
  cases effect with
  | load pc =>
      have early : w.pc.late = false := by rw [pc]; rfl
      exact ⟨⟨m.tail, m.tail, w.published.length⟩, inv.still
        (counters.load.goTo ⟨rfl, rfl, rfl, rfl⟩ rfl id id (fun onOp => by cases onOp)
          (by simp [IoWorker.record])) rfl rfl rfl (nothing _) rfl early rfl
        (by simp [IoWorker.record]) (by simp [IoWorker.record])⟩
  | scanned pc last =>
      have early : w.pc.late = false := by rw [pc]; rfl
      exact ⟨m, inv.still (counters.goTo ⟨rfl, rfl, rfl, rfl⟩ rfl (fun _ => by rw [pc]; rfl)
        (fun _ => .inl pc) (fun onOp => by cases onOp) (by simp [IoWorker.record])) rfl rfl rfl
        (nothing _) rfl early rfl (by simp [IoWorker.record]) (by simp [IoWorker.record])⟩
  | skip pc more state =>
      exact ⟨_, next w.busy (by rw [pc]; rfl) (.inl pc) (counters.lt_of_ne pc more)⟩
  | visit pc' pc more visits =>
      have early : w.pc.late = false := by rw [pc]; rfl
      have current := counters.current (.inl pc)
      refine ⟨m, inv.still (counters.goTo ⟨rfl, rfl, rfl, rfl⟩ rfl (fun _ => by rw [pc]; rfl)
        (fun _ => .inl pc) (fun _ => counters.lt_of_ne pc more) ?_) rfl rfl rfl (nothing _) rfl
        early ?_ ?_ ?_⟩
      · cases visits <;> simp [IoWorker.record]
      · cases visits <;> rfl
      · rw [← current]
        cases visits with
        | dispatch a pending args => exact fun _ => pending
        | poll a turn pending args => exact fun _ => pending
        | reap inFlight => simp [IoWorker.record]
      · rw [← current]
        cases visits with
        | dispatch a pending args => simp [IoWorker.record]
        | poll a turn pending args => simp [IoWorker.record]
        | reap inFlight => exact fun _ => inFlight
  | gated a turn pc args closed =>
      have onOp : w.pc.onOp = true := by rw [pc]; rfl
      exact ⟨_, next true (by rw [pc]; rfl) (.inr onOp) (counters.visit onOp)⟩
  | opened a turn pc args closed =>
      have onOp : w.pc.onOp = true := by rw [pc]; rfl
      have early : w.pc.late = false := by rw [pc]; rfl
      exact ⟨m, inv.still (counters.onOp ⟨rfl, rfl, rfl, rfl⟩ rfl onOp rfl) rfl rfl rfl (nothing _)
        rfl early rfl (fun _ => inv.lives.polls (.inl pc)) (by simp [IoWorker.record])⟩
  | dispatchWrite pc write => exact ⟨m, inv.dispatchWrite pc write⟩
  | dispatchRead pc read => exact ⟨m, inv.dispatchRead pc read⟩
  | issue callback nbytes pc => exact ⟨m, inv.issue pc callback nbytes⟩
  | refuse e pc => exact ⟨_, inv.refuse pc e⟩
  | submitted pc =>
      have onOp : w.pc.onOp = true := by rw [pc]; rfl
      exact ⟨_, next w.busy (by rw [pc]; rfl) (.inr onOp) (counters.visit onOp)⟩
  | arrive c command ok pc there => exact ⟨m, inv.arrive pc ok there⟩
  | wrote ret pc => exact ⟨m, inv.wrote pc ret⟩
  | notYet pc =>
      have onOp : w.pc.onOp = true := by rw [pc]; rfl
      exact ⟨_, next w.busy (by rw [pc]; rfl) (.inr onOp) (counters.visit onOp)⟩
  | copied ok pc chunks bounces => exact ⟨m, inv.copied pc ok chunks bounces⟩
  | store n pc => exact ⟨m, inv.store pc⟩
  | complete n pc => exact ⟨m, inv.complete pc⟩
  | free pc => exact ⟨_, inv.free pc⟩
  | retired pc last =>
      have early : w.pc.late = false := by rw [pc]; rfl
      refine ⟨m, inv.still (counters.goTo ⟨rfl, rfl, rfl, rfl⟩ rfl (fun _ => by rw [pc]; rfl)
        (by simp [IoWorker.record, WorkerPc.onOp]) (fun onOp => by cases onOp) fun _ => ?_) rfl rfl
        rfl (nothing _) rfl early rfl (by simp [IoWorker.record]) (by simp [IoWorker.record])⟩
      obtain ⟨head, order, below⟩ := counters.pass (by rw [pc]; rfl)
      have room := counters.room
      refine eq_of_word_eq (w := 32) order (by simp only [queueSize] at room; omega) ?_
      rw [← counters.tail, ← head, last]
  | retire pc more state =>
      have kept := inv.retire pc more state
      refine ⟨_, kept.still (kept.counters.goTo ⟨rfl, rfl, rfl, rfl⟩ rfl id id
        kept.counters.visit kept.counters.retired) rfl rfl rfl (nothing _) rfl (by simp [pc]; rfl)
        (by simp [IoWorker.record, pc]; rfl) (by simp [IoWorker.record, pc])
        (by simp [IoWorker.record, pc])⟩
  | stuck pc more state =>
      have early : w.pc.late = false := by rw [pc]; rfl
      exact ⟨m, inv.still (counters.goTo ⟨rfl, rfl, rfl, rfl⟩ rfl (fun _ => by rw [pc]; rfl)
        (by simp [IoWorker.record, WorkerPc.onOp]) (fun onOp => by cases onOp)
        (by simp [IoWorker.record])) rfl rfl rfl (nothing _) rfl early rfl
        (by simp [IoWorker.record]) (by simp [IoWorker.record])⟩
  | exit pc stop idle =>
      have early : w.pc.late = false := by rw [pc]; rfl
      exact ⟨m, inv.still (counters.goTo ⟨rfl, rfl, rfl, rfl⟩ rfl (fun _ => by rw [pc]; rfl)
        (by simp [IoWorker.record, WorkerPc.onOp]) (fun onOp => by cases onOp)
        fun _ => counters.retired (.inl ⟨pc, idle⟩)) rfl rfl rfl (nothing _) rfl early rfl
        (by simp [IoWorker.record]) (by simp [IoWorker.record])⟩
  | again pc' pc next =>
      have early : w.pc.late = false := by rw [pc]; rfl
      rcases next with rfl | rfl
      all_goals
        exact ⟨m, inv.still (counters.goTo ⟨rfl, rfl, rfl, rfl⟩ rfl (fun _ => by rw [pc]; rfl)
          (by simp [IoWorker.record, WorkerPc.onOp]) (fun onOp => by cases onOp)
          (by simp [IoWorker.record])) rfl rfl rfl (nothing _) rfl early rfl
          (by simp [IoWorker.record]) (by simp [IoWorker.record])⟩
  | poked pc =>
      have early : w.pc.late = false := by rw [pc]; rfl
      exact ⟨m, inv.still (counters.goTo ⟨rfl, rfl, rfl, rfl⟩ rfl
        (by simp [IoWorker.record, WorkerPc.inPass]) (by simp [IoWorker.record, WorkerPc.onOp])
        (fun onOp => by cases onOp) (by simp [IoWorker.record])) rfl rfl rfl (nothing _) rfl early
        rfl (by simp [IoWorker.record]) (by simp [IoWorker.record])⟩

end OpenDS.Engine
