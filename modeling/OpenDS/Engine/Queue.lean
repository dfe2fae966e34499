import OpenDS.Engine.Worker

/-!
# The queue of a worker

What holds of a queue at any time. `queue_tail`, `queue_head` and the locals of the
worker are the low words of counters that do not wrap (`Marks`), at most
`FILE_OP_QUEUE_SIZE` apart. The slots between tail and head hold the published
operations, each of which has come as far in its life as its slot and the worker
show, and the commands of the NVMe queue belong to them. The slots outside are free,
apart from the one a submitter is about to publish.

A step of the worker keeps all of this (`QueueInv.act`), and so does a step of the
submitter that holds `submit_lock` (`Submitting`).
-/

set_option autoImplicit false

namespace OpenDS.Engine

open OpenDS.Library OpenDS.Aisio

/-! ## Slots -/

/-- The slot of a counter. -/
def slotAt (k : Nat) : Fin queueSize := ⟨k % queueSize, Nat.mod_lt k (by decide)⟩

theorem slotOf_word (k : Nat) : slotOf (word 32 k) = slotAt k := by
  apply Fin.ext
  have masked := BitVec.toNat_and (word 32 k) (BitVec.ofNat 32 (queueSize - 1))
  rw [BitVec.toNat_ofNat] at masked
  calc (slotOf (word 32 k)).val = k % 2 ^ 32 &&& (queueSize - 1) := masked
    _ = k % 2 ^ 32 % queueSize := Nat.and_two_pow_sub_one_eq_mod _ 10
    _ = k % queueSize := Nat.mod_mod_of_dvd k (Nat.pow_dvd_pow 2 (show 10 ≤ 32 by decide))

theorem slotAt_ne {a b : Nat} (order : a < b) (close : b - a < queueSize) :
    slotAt a ≠ slotAt b := fun same =>
  mod_ne_of_close order close (Fin.mk.inj same)

theorem slotAt_ne_of_window {t a b : Nat} (lowA : t ≤ a) (lowB : t ≤ b) (highA : a < t + queueSize)
    (highB : b < t + queueSize) (ne : a ≠ b) : slotAt a ≠ slotAt b := by
  rcases Nat.lt_or_gt_of_ne ne with less | greater
  · exact slotAt_ne less (by omega)
  · exact (slotAt_ne greater (by omega)).symm

namespace IoWorker

/-- The operation at a counter. -/
def opAt (w : IoWorker) (k : Nat) : QueuedOp := w.fileOpQueue (slotAt k)

/-- What happened to an operation. -/
def history (w : IoWorker) (k : Nat) : List OpEvent :=
  (w.log.filter fun e => e.1 = k).map Prod.snd

/-- The commands of an operation that are outstanding. -/
def outstanding (w : IoWorker) (callback : Callback) (k : Nat) : Nat :=
  w.commands.countP fun c => c.id = k ∧ c.callback = callback

/-- Write down what happened to an operation. -/
def record (w : IoWorker) (event : Option (Nat × OpEvent)) : IoWorker :=
  { w with log := w.log ++ event.toList }

end IoWorker

/-- The worker is at an operation of its scan. -/
def WorkerPc.onOp : WorkerPc → Bool
  | .poll => true
  | .dispatch => true
  | .submit => true
  | .pwrite => true
  | .reap => true
  | .result _ => true
  | .release _ => true
  | .free => true
  | _ => false

/-- The worker has finished the operation it is at, but for the slot. -/
def WorkerPc.late : WorkerPc → Bool
  | .pwrite => true
  | .result _ => true
  | .release _ => true
  | .free => true
  | _ => false

/-- The worker is in an iteration of its loop. -/
def WorkerPc.inPass : WorkerPc → Bool
  | .load => false
  | .poke => false
  | _ => true

theorem WorkerPc.onOp_of_late {pc : WorkerPc} (late : pc.late = true) : pc.onOp = true := by
  cases pc <;> first | rfl | cases late

/-! ## The invariant -/

/-- The counters behind the words of a queue: `queue_tail`, and `i` and `head` of the
iteration the worker is in. -/
structure Marks where
  tail : Nat
  i : Nat
  head : Nat

/-- The words of a queue and its worker are those of the counters. -/
structure Counters (w : IoWorker) (m : Marks) : Prop where
  tail : w.queueTail = word 32 m.tail
  head : w.queueHead = word 32 w.published.length
  low : m.tail ≤ w.published.length
  room : w.published.length ≤ m.tail + queueSize
  pass : w.pc.inPass = true →
    w.head = word 32 m.head ∧ m.tail ≤ m.head ∧ m.head ≤ w.published.length
  scan : w.pc = .scan ∨ w.pc.onOp = true → w.i = word 32 m.i ∧ m.tail ≤ m.i ∧ m.i ≤ m.head
  visit : w.pc.onOp = true → m.i < m.head
  retired : w.pc = .stopCheck ∧ w.busy = false ∨ w.pc = .exited → m.tail = m.head

/-- What the holder of `submit_lock` has offered to a queue: the head it has read,
the fields it has written to the slot, and whether it has made the slot pending. -/
structure Offer where
  head : BitVec 32
  fields : Option OpFields
  pending : Bool

/-- The offer is at the head of the queue, and there is room for it. -/
structure Offer.Holds (o : Offer) (w : IoWorker) (m : Marks) : Prop where
  head : o.head = word 32 w.published.length
  room : w.published.length < m.tail + queueSize
  filled : ∀ fields, o.fields = some fields → (w.opAt w.published.length).fields = fields ∧
    (w.opAt w.published.length).id = w.published.length
  pended : o.pending = true →
    (w.opAt w.published.length).state = .pending ∧ o.fields.isSome = true

/-- The slots hold the published operations; the others are free, apart from one that
a submitter has made pending and is about to publish. -/
structure Slots (w : IoWorker) (offer : Option Offer) (m : Marks) : Prop where
  window : ∀ k (lt : k < w.published.length), m.tail ≤ k →
    (w.opAt k).id = k ∧ (w.opAt k).fields = w.published[k]
  outside : ∀ slot, (∀ k, m.tail ≤ k → k < w.published.length → slotAt k ≠ slot) →
    (w.fileOpQueue slot).state = .free ∨
      (∃ o, offer = some o ∧ o.pending = true) ∧ slot = slotAt w.published.length
  offered : ∀ o, offer = some o → o.Holds w m

/-- The stage an operation shows in its slot while the worker is not about to report
it. -/
def QueuedOp.Rests (op : QueuedOp) : Stage → Prop
  | .waiting => op.state = .pending
  | .reading bytesAcc err =>
    op.state = .inFlight ∧ op.fields.isWrite = false ∧ op.bytesAcc = bytesAcc ∧ op.err = err
  | .completed _ => op.state = .free
  | _ => False

/-- The stage of the operation that the worker is about to report. -/
def QueuedOp.ShowsLate (op : QueuedOp) : WorkerPc → Stage → Prop
  | .pwrite, .writing => op.state = .pending
  | .result n, .reported m => n = m ∧ op.state ≠ .free
  | .release n, .stored m => n = m ∧ op.state ≠ .free
  | .free, .completed _ => op.state ≠ .free
  | _, _ => False

/-- The stage that the queue and the worker show of an operation. -/
def IoWorker.Shows (w : IoWorker) (m : Marks) (k : Nat) (stage : Stage) : Prop :=
  if w.pc.late = true ∧ k = m.i then (w.opAt k).ShowsLate w.pc stage else (w.opAt k).Rests stage

/-- Every published operation is in its life where the queue shows it; those that
the tail has passed are completed. -/
structure Lives (w : IoWorker) (m : Marks) : Prop where
  fresh : ∀ e ∈ w.log, e.1 < w.published.length
  done : ∀ k (lt : k < w.published.length), k < m.tail →
    ∃ n, w.published[k].life.run (w.history k) .waiting = some (.completed n)
  live : ∀ k (lt : k < w.published.length), m.tail ≤ k →
    ∃ stage, w.published[k].life.run (w.history k) .waiting = some stage ∧ w.Shows m k stage
  polls : w.pc = .poll ∨ w.pc = .dispatch → (w.opAt m.i).state = .pending
  reads : w.pc = .submit ∨ w.pc = .reap → (w.opAt m.i).state = .inFlight

/-- The commands of the NVMe queue belong to operations in flight, which count
them. -/
structure Commands (w : IoWorker) (m : Marks) : Prop where
  known : ∀ c ∈ w.commands, m.tail ≤ c.id ∧ c.id < w.published.length ∧ c.slot = slotAt c.id ∧
    (w.opAt c.id).state = .inFlight
  counted : ∀ k, m.tail ≤ k → k < w.published.length → (w.opAt k).state = .inFlight →
    (w.opAt k).chunksRemaining = w.outstanding .chunk k ∧
      (w.opAt k).bouncesOutstanding = w.outstanding .bounce k
  quiet : w.pc.late = true → (w.opAt m.i).state = .inFlight →
    (w.opAt m.i).chunksRemaining = 0 ∧ (w.opAt m.i).bouncesOutstanding = 0

/-- **What holds of a queue at any time.** -/
structure QueueInv (w : IoWorker) (offer : Option Offer) (m : Marks) : Prop where
  counters : Counters w m
  slots : Slots w offer m
  lives : Lives w m
  commands : Commands w m

/-! ## Frames -/

variable {w w' : IoWorker} {offer : Option Offer} {m m' : Marks} {k : Nat}

theorem Counters.opAt_i (counters : Counters w m) (scan : w.pc = .scan ∨ w.pc.onOp = true) :
    slotOf w.i = slotAt m.i := by
  rw [(counters.scan scan).1, slotOf_word]

theorem Counters.current (counters : Counters w m) (scan : w.pc = .scan ∨ w.pc.onOp = true) :
    w.current = w.opAt m.i := by
  rw [IoWorker.current, counters.opAt_i scan, IoWorker.opAt]

/-- The operation the worker is at is in the window. -/
theorem Counters.i_window (counters : Counters w m) (onOp : w.pc.onOp = true) :
    m.tail ≤ m.i ∧ m.i < w.published.length := by
  have scan := counters.scan (.inr onOp)
  have visit := counters.visit onOp
  have inPass : w.pc.inPass = true := by
    cases pc : w.pc <;> rw [pc] at onOp <;> first | rfl | cases onOp
  have pass := counters.pass inPass
  omega

/-- Two counters of the window have two slots. -/
theorem Counters.slotAt_ne (counters : Counters w m) {j k : Nat} (lowJ : m.tail ≤ j)
    (highJ : j < w.published.length) (lowK : m.tail ≤ k) (highK : k < w.published.length)
    (ne : j ≠ k) : slotAt j ≠ slotAt k := by
  have room := counters.room
  exact slotAt_ne_of_window lowJ lowK (by omega) (by omega) ne

/-- What stays when one operation of the window changes. -/
structure Touches (w w' : IoWorker) (k : Nat) : Prop where
  published : w'.published = w.published
  others : ∀ slot, slot ≠ slotAt k → w'.fileOpQueue slot = w.fileOpQueue slot
  id : (w'.opAt k).id = (w.opAt k).id
  fields : (w'.opAt k).fields = (w.opAt k).fields

theorem Touches.opAt (touches : Touches w w' k) (counters : Counters w m) {j : Nat}
    (lowK : m.tail ≤ k) (highK : k < w.published.length) (lowJ : m.tail ≤ j)
    (highJ : j < w.published.length) (ne : j ≠ k) : w'.opAt j = w.opAt j :=
  touches.others _ (counters.slotAt_ne lowJ highJ lowK highK ne)

/-- The slots survive a change of one operation. -/
theorem Slots.touch (slots : Slots w offer m) (counters : Counters w m) (touches : Touches w w' k)
    (lowK : m.tail ≤ k) (highK : k < w.published.length) (tail : m'.tail = m.tail) :
    Slots w' offer m' := by
  refine ⟨fun j lt low => ?_, fun slot out => ?_, fun o offered => ?_⟩
  · simp only [touches.published] at lt ⊢
    rw [tail] at low
    by_cases here : j = k
    · subst here
      rw [touches.id, touches.fields]
      exact slots.window j lt low
    · rw [touches.opAt counters lowK highK low lt here]
      exact slots.window j lt low
  · rw [touches.published, tail] at out
    rw [touches.published, touches.others slot (out k lowK highK).symm]
    exact slots.outside slot out
  · obtain ⟨head, room, filled, pended⟩ := slots.offered o offered
    have other : w'.opAt w.published.length = w.opAt w.published.length :=
      touches.others _ (slotAt_ne highK (by omega)).symm
    refine ⟨by rw [touches.published, head], by rw [touches.published, tail]; exact room, ?_, ?_⟩
    · rw [touches.published, other]
      exact filled
    · rw [touches.published, other]
      exact pended

/-- The slots survive a step that leaves them alone. -/
theorem Slots.still (slots : Slots w offer m) (queue : w'.fileOpQueue = w.fileOpQueue)
    (published : w'.published = w.published) (tail : m'.tail = m.tail) : Slots w' offer m' := by
  have opAt : w'.opAt = w.opAt := by
    funext k
    rw [IoWorker.opAt, queue, IoWorker.opAt]
  refine ⟨?_, ?_, fun o offered => ?_⟩
  · simp only [published, tail, opAt]
    exact slots.window
  · simp only [published, tail, queue]
    exact slots.outside
  · obtain ⟨head, room, filled, pended⟩ := slots.offered o offered
    exact ⟨by rw [published, head], by rw [published, tail]; exact room,
      by rw [published, opAt]; exact filled, by rw [published, opAt]; exact pended⟩

/-- What happened to one operation is written down for it alone. -/
theorem IoWorker.history_touch {event : Option OpEvent}
    (log : w'.log = w.log ++ (event.map fun e => (k, e)).toList) (j : Nat) :
    w'.history j = w.history j ++ if k = j then event.toList else [] := by
  rw [history, log, List.filter_append, List.map_append]
  cases event with
  | none => simp [history]
  | some e => by_cases here : k = j <;> simp [history, here]

/-- Nothing has happened to an operation that is not published. -/
theorem Lives.history_nil (lives : Lives w m) (past : w.published.length ≤ k) : w.history k = [] := by
  rw [IoWorker.history, List.filter_eq_nil_iff.mpr, List.map_nil]
  intro e member
  have fresh := lives.fresh e member
  simp only [decide_eq_true_eq]
  omega

/-- The lives survive a step that leaves the operations alone. -/
theorem Lives.still (lives : Lives w m) (queue : w'.fileOpQueue = w.fileOpQueue)
    (published : w'.published = w.published) (log : w'.log = w.log) (tail : m'.tail = m.tail)
    (early : w.pc.late = false) (early' : w'.pc.late = false)
    (polls : w'.pc = .poll ∨ w'.pc = .dispatch → (w.opAt m'.i).state = .pending)
    (reads : w'.pc = .submit ∨ w'.pc = .reap → (w.opAt m'.i).state = .inFlight) : Lives w' m' := by
  have opAt : w'.opAt = w.opAt := by
    funext k
    rw [IoWorker.opAt, queue, IoWorker.opAt]
  have history : w'.history = w.history := by
    funext k
    rw [IoWorker.history, log, IoWorker.history]
  have shows : ∀ k stage, w.Shows m k stage → w'.Shows m' k stage := by
    intro k stage
    simp [IoWorker.Shows, early, early', opAt]
  refine ⟨?_, ?_, fun k lt low => ?_, by rw [opAt]; exact polls, by rw [opAt]; exact reads⟩
  · rw [log, published]
    exact lives.fresh
  · simp only [published, history, tail]
    exact lives.done
  · simp only [published, tail] at lt low
    obtain ⟨stage, lived, shown⟩ := lives.live k lt low
    exact ⟨stage, by simp only [published, history]; exact lived, shows k stage shown⟩

/-- The lives survive what happens to one operation, if it is a step of its life. -/
theorem Lives.touch (lives : Lives w m) (counters : Counters w m) (touches : Touches w w' k)
    (lowK : m.tail ≤ k) (highK : k < w.published.length) (tail : m'.tail = m.tail)
    {event : Option OpEvent} (log : w'.log = w.log ++ (event.map fun e => (k, e)).toList)
    (only : w.pc.late = true → m.i = k) (only' : w'.pc.late = true → m'.i = k)
    (step : ∀ stage, w.Shows m k stage → ∃ stage',
      w.published[k].life.run event.toList stage = some stage' ∧ w'.Shows m' k stage')
    (polls : w'.pc = .poll ∨ w'.pc = .dispatch → (w'.opAt m'.i).state = .pending)
    (reads : w'.pc = .submit ∨ w'.pc = .reap → (w'.opAt m'.i).state = .inFlight) : Lives w' m' := by
  have history := w.history_touch log
  refine ⟨fun e member => ?_, fun j lt before => ?_, fun j lt low => ?_, polls, reads⟩
  · rw [log, List.mem_append] at member
    rw [touches.published]
    rcases member with old | new
    · exact lives.fresh e old
    · obtain ⟨e', -, rfl⟩ := Option.map_eq_some_iff.mp (Option.mem_toList.mp new)
      exact highK
  · simp only [touches.published] at lt ⊢
    rw [tail] at before
    rw [history, if_neg (by omega), List.append_nil]
    exact lives.done j lt before
  · simp only [touches.published] at lt ⊢
    rw [tail] at low
    obtain ⟨stage, lived, shown⟩ := lives.live j lt low
    by_cases here : j = k
    · subst here
      obtain ⟨stage', stepped, shown'⟩ := step stage shown
      refine ⟨stage', ?_, shown'⟩
      rw [history, if_pos rfl, Machine.run_append, lived]
      exact stepped
    · refine ⟨stage, ?_, ?_⟩
      · rw [history, if_neg (Ne.symm here), List.append_nil]
        exact lived
      · have rests : ¬ (w.pc.late = true ∧ j = m.i) := fun at' => here (at'.2.trans (only at'.1))
        have rests' : ¬ (w'.pc.late = true ∧ j = m'.i) := fun at' => here (at'.2.trans (only' at'.1))
        rw [IoWorker.Shows, if_neg rests] at shown
        rw [IoWorker.Shows, if_neg rests', touches.opAt counters lowK highK low lt here]
        exact shown

/-- The commands survive a step that leaves them and the operations alone. -/
theorem Commands.still (commands : Commands w m) (queue : w'.fileOpQueue = w.fileOpQueue)
    (published : w'.published = w.published) (same : w'.commands = w.commands)
    (tail : m'.tail = m.tail)
    (quiet : w'.pc.late = true → (w.opAt m'.i).state = .inFlight →
      (w.opAt m'.i).chunksRemaining = 0 ∧ (w.opAt m'.i).bouncesOutstanding = 0) :
    Commands w' m' := by
  have opAt : w'.opAt = w.opAt := by
    funext k
    rw [IoWorker.opAt, queue, IoWorker.opAt]
  refine ⟨?_, ?_, by rw [opAt]; exact quiet⟩
  · simp only [same, published, opAt, tail]
    exact commands.known
  · simp only [published, opAt, tail, IoWorker.outstanding, same]
    exact commands.counted

/-- The commands survive a change of the commands of one operation that the
operation counts. -/
theorem Commands.touch (commands : Commands w m) (counters : Counters w m)
    (touches : Touches w w' k) (lowK : m.tail ≤ k) (highK : k < w.published.length)
    (tail : m'.tail = m.tail) (others : ∀ c ∈ w'.commands, c.id ≠ k → c ∈ w.commands)
    (here : ∀ c ∈ w'.commands, c.id = k → c.slot = slotAt k ∧ (w'.opAt k).state = .inFlight)
    (elsewhere : ∀ callback j, j ≠ k → w'.outstanding callback j = w.outstanding callback j)
    (counted : (w'.opAt k).state = .inFlight →
      (w'.opAt k).chunksRemaining = w'.outstanding .chunk k ∧
        (w'.opAt k).bouncesOutstanding = w'.outstanding .bounce k)
    (early' : w'.pc.late = false) : Commands w' m' := by
  refine ⟨fun c member => ?_, fun j low lt inFlight => ?_, by simp [early']⟩
  · rw [tail, touches.published]
    by_cases mine : c.id = k
    · obtain ⟨slot, inFlight⟩ := here c member mine
      rw [mine]
      exact ⟨lowK, highK, slot, inFlight⟩
    · obtain ⟨low, lt, slot, inFlight⟩ := commands.known c (others c member mine)
      rw [touches.opAt counters lowK highK low lt mine]
      exact ⟨low, lt, slot, inFlight⟩
  · rw [tail] at low
    rw [touches.published] at lt
    by_cases mine : j = k
    · subst mine
      exact counted inFlight
    · rw [touches.opAt counters lowK highK low lt mine] at inFlight ⊢
      rw [elsewhere .chunk j mine, elsewhere .bounce j mine]
      exact commands.counted j low lt inFlight

end OpenDS.Engine
