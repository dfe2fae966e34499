import OpenDS.DataPath.Buffers

/-!
# What a step tells a read

A step of the data path is about one read at most. It plans a read that has just been
dispatched, tells a read that is planned one answer, reaps it, or is one of the engine's
steps outside of the reading; for any other read it is as if nothing had happened
(`Affects`). Which of these a step is for an operation is all that the invariants of the
data path ask of it.
-/

set_option autoImplicit false

namespace OpenDS.DataPath

open OpenDS.Library (Machine Memory Ptr)
open OpenDS.Aisio OpenDS.Engine

variable {n : Nat} {ι : Type} {d : Driver} {s s' : IoState n ι} {w v : Fin n} {k : Nat}

/-! ## Reads in progress -/

/-- The worker is about to plan a read that it has dispatched. -/
def Fresh (s : IoState n ι) (w : Fin n) (k : Nat) : Prop :=
  (s.sys.workers w).pc = .submit ∧ s.submission w = none ∧ (s.sys.workers w).current.id = k

/-- What `start_read_op` has still to do for an operation. -/
def IoState.planOf (s : IoState n ι) (w : Fin n) (k : Nat) : Option Submission :=
  if (s.sys.workers w).pc = .submit ∧ (s.sys.workers w).current.id = k then s.submission w else none

/-- The operation is being read. -/
def Reading (s : IoState n ι) (w : Fin n) (k : Nat) : Prop :=
  ∃ (lt : k < (s.sys.workers w).published.length) (b : Nat) (e : Option OpError),
    (s.sys.workers w).published[k].life.run ((s.sys.workers w).history k) .waiting =
      some (.reading b e)

/-- A command carries what the log of its operation says. -/
structure Logged (d : Driver) (s : IoState n ι) (w : Fin n) (x : Wire) : Prop where
  cmd : (s.ops w x.slot).issued[x.place]? = some x.cmd
  nbytes : x.cmd.callback = .chunk → x.nbytes = ReadState.commandBytes d x.cmd

/-- **The commands of the queues are those of the logs**, each once. -/
structure Wires (d : Driver) (s : IoState n ι) : Prop where
  logged : ∀ w, ∀ x ∈ s.wires w, Logged d s w x
  places : ∀ w slot, (s.view w slot).inflight.Nodup

/-- The two states of a read differ in their bytes only. -/
structure SameView (st st' : ReadState) : Prop where
  op : st'.op = st.op
  issued : st'.issued = st.issued
  inflight : st'.inflight = st.inflight

theorem SameView.refl (st : ReadState) : SameView st st := ⟨rfl, rfl, rfl⟩

/-- The view of a slot, from what the slot and the queue hold. -/
theorem sameView_of {slot : Fin queueSize}
    (op : (s'.sys.workers v).fileOpQueue slot = (s.sys.workers v).fileOpQueue slot)
    (data : s'.ops v slot = s.ops v slot)
    (wires : (s'.wires v).filter (fun x => x.slot = slot) =
      (s.wires v).filter fun x => x.slot = slot) :
    SameView (s.view v slot) (s'.view v slot) := by
  refine ⟨?_, ?_, ?_⟩ <;> simp only [IoState.view, op, data, wires]

/-- A step is about other operations. -/
structure Elsewhere (s s' : IoState n ι) (v : Fin n) (k : Nat) : Prop where
  answers : s'.answers v k = s.answers v k
  fresh : Fresh s' v k ↔ Fresh s v k
  plan : s'.planOf v k = s.planOf v k
  view : SameView (s.view v (slotAt k)) (s'.view v (slotAt k))

/-! ## Where an operation is -/

/-- An operation that is being read is in flight in its slot, and not about to report. -/
theorem window_of_reading {worker : IoWorker} {offer : Option Offer} {m : Marks}
    (queue : QueueInv worker offer m) (lt : k < worker.published.length) {b : Nat}
    {e : Option OpError}
    (reading : worker.published[k].life.run (worker.history k) .waiting = some (.reading b e)) :
    m.tail ≤ k ∧ ¬ (worker.pc.late = true ∧ k = m.i) ∧ (worker.opAt k).state = .inFlight ∧
      (worker.opAt k).fields.isWrite = false ∧ (worker.opAt k).bytesAcc = b ∧
        (worker.opAt k).err = e := by
  have low : m.tail ≤ k := by
    by_contra passed
    obtain ⟨r, done⟩ := queue.lives.done k lt (Nat.lt_of_not_le passed)
    rw [reading] at done
    cases done
  obtain ⟨stage, lived, shows⟩ := queue.lives.live k lt low
  rw [reading] at lived
  cases lived
  unfold IoWorker.Shows at shows
  split at shows
  · cases pc : worker.pc <;> rw [pc] at shows <;> exact shows.elim
  · rename_i early
    exact ⟨low, early, shows⟩

/-- An operation that is in flight while the worker is not about to report is being read. -/
theorem reading_of_inFlight {worker : IoWorker} {offer : Option Offer} {m : Marks}
    (queue : QueueInv worker offer m) (early : worker.pc.late = false) (low : m.tail ≤ k)
    (lt : k < worker.published.length) (inFlight : (worker.opAt k).state = .inFlight) :
    worker.published[k].life.run (worker.history k) .waiting =
      some (.reading (worker.opAt k).bytesAcc (worker.opAt k).err) := by
  obtain ⟨stage, lived, shows⟩ := queue.lives.live k lt low
  rw [IoWorker.Shows, early] at shows
  simp only [Bool.false_eq_true, false_and, if_false] at shows
  rw [lived]
  cases stage with
  | waiting => simp [QueuedOp.Rests, inFlight] at shows
  | reading b e =>
      obtain ⟨-, -, rfl, rfl⟩ := shows
      rfl
  | completed m => simp [QueuedOp.Rests, inFlight] at shows
  | writing => exact shows.elim
  | reported m => exact shows.elim
  | stored m => exact shows.elim

/-- The operation that a worker submits or reaps is being read. -/
theorem reading_of_reads {worker : IoWorker} {offer : Option Offer} {m : Marks}
    (queue : QueueInv worker offer m) (pc : worker.pc = .submit ∨ worker.pc = .reap)
    (lt : m.i < worker.published.length) :
    worker.published[m.i].life.run (worker.history m.i) .waiting =
      some (.reading worker.current.bytesAcc worker.current.err) := by
  have onOp : worker.pc.onOp = true := by rcases pc with pc | pc <;> rw [pc] <;> rfl
  have early : worker.pc.late = false := by rcases pc with pc | pc <;> rw [pc] <;> rfl
  obtain ⟨at', -, low, -, -⟩ := queue.place onOp
  rw [at']
  exact reading_of_inFlight queue early low lt (queue.lives.reads pc)

/-- The operation that a worker is at. -/
theorem current_id {worker : IoWorker} {offer : Option Offer} {m : Marks}
    (queue : QueueInv worker offer m) (onOp : worker.pc.onOp = true) : worker.current.id = m.i := by
  obtain ⟨at', -, -, -, id⟩ := queue.place onOp
  rw [at', id]

/-- A step of a worker leaves the slot of an operation alone that it is not about. -/
theorem slot_of_effect {gate : Nat → BitVec 32} {stop : Bool} {worker worker' : IoWorker}
    {event : Option (Nat × OpEvent)} {offer : Option Offer} {m : Marks}
    (queue : QueueInv worker offer m) (effect : WorkerEffect gate stop worker event worker')
    (low : m.tail ≤ k) (lt : k < worker.published.length)
    (early : ¬ (worker.pc.late = true ∧ k = m.i)) (other : ∀ e, event = some e → e.1 ≠ k) :
    worker'.opAt k = worker.opAt k := by
  -- What is stored at another operation of the window is not stored here.
  have put : ∀ {slot : Fin queueSize} {j : Nat} (op : QueuedOp), slot = slotAt j → m.tail ≤ j →
      j < worker.published.length → j ≠ k →
      Function.update worker.fileOpQueue slot op (slotAt k) = worker.opAt k := by
    rintro slot j op rfl lowJ ltJ ne
    exact Function.update_of_ne (queue.counters.slotAt_ne low lt lowJ ltJ (Ne.symm ne)) _ _
  have here : ∀ (op : QueuedOp), worker.pc.onOp = true → worker.current.id ≠ k →
      Function.update worker.fileOpQueue (slotOf worker.i) op (slotAt k) = worker.opAt k := by
    intro op onOp ne
    obtain ⟨-, slot, lowI, ltI, -⟩ := queue.place onOp
    rw [current_id queue onOp] at ne
    exact put op slot lowI ltI ne
  cases effect with
  | dispatchRead pc read => exact here _ (by rw [pc]; rfl) (other _ rfl)
  | issue callback nbytes pc => exact here _ (by rw [pc]; rfl) (other _ rfl)
  | refuse e pc => exact here _ (by rw [pc]; rfl) (other _ rfl)
  | arrive c command ok pc there =>
      obtain ⟨lowC, ltC, slot, -⟩ := queue.commands.known c (List.mem_of_getElem? there)
      exact put _ slot lowC ltC (other _ rfl)
  | free pc =>
      refine here _ (by rw [pc]; rfl) fun same => early ⟨by rw [pc]; rfl, ?_⟩
      rw [← same, current_id queue (by rw [pc]; rfl)]
  | _ => rfl

/-- The commands of a worker in the slot of an operation are its own. -/
theorem wire_id {x : Wire} {offer : Option Offer} {m : Marks} (inv : WorkerInv s w)
    (queue : QueueInv (s.sys.workers w) offer m) (member : x ∈ s.wires w) :
    m.tail ≤ x.id ∧ x.id < (s.sys.workers w).published.length ∧ x.slot = slotAt x.id ∧
      ((s.sys.workers w).opAt x.id).state = .inFlight := by
  refine queue.commands.known x.queued ?_
  rw [inv.linked]
  exact List.mem_map_of_mem member

/-- The queue holds no command of a read that is not planned yet. -/
theorem idle_of_fresh {offer : Option Offer} {m : Marks} (inv : WorkerInv s w)
    (queue : QueueInv (s.sys.workers w) offer m) (pc : (s.sys.workers w).pc = .submit)
    (unplanned : s.submission w = none) : ∀ x ∈ s.wires w, x.slot ≠ slotOf (s.sys.workers w).i := by
  intro x member here
  obtain ⟨at', slot, low, lt, -⟩ := queue.place (by rw [pc]; rfl)
  obtain ⟨lowX, ltX, slotX, -⟩ := wire_id inv queue member
  obtain ⟨chunks, bounces, -⟩ := inv.fresh pc unplanned
  rw [at'] at chunks bounces
  refine queue.commands.none_of_zero low lt (queue.lives.reads (.inl pc)) chunks bounces x.queued ?_ ?_
  · rw [inv.linked]
    exact List.mem_map_of_mem member
  · by_contra ne
    refine queue.counters.slotAt_ne lowX ltX low lt ne ?_
    rw [← slotX, here, slot]

/-- A step that neither starts nor ends at a read being submitted is no step of that read. -/
theorem elsewhere_of_submit (answers : s'.answers v k = s.answers v k)
    (before : (s.sys.workers v).pc = .submit → (s.sys.workers v).current.id ≠ k)
    (after : (s'.sys.workers v).pc = .submit → (s'.sys.workers v).current.id ≠ k)
    (view : SameView (s.view v (slotAt k)) (s'.view v (slotAt k))) : Elsewhere s s' v k := by
  refine ⟨answers, ⟨fun fresh => absurd fresh.2.2 (after fresh.1),
    fun fresh => absurd fresh.2.2 (before fresh.1)⟩, ?_, view⟩
  rw [IoState.planOf, IoState.planOf, if_neg (fun at' => after at'.1 at'.2),
    if_neg fun at' => before at'.1 at'.2]

/-- A worker that stays where it stands submits what it did. -/
theorem plan_of_still (pc : (s'.sys.workers v).pc = (s.sys.workers v).pc)
    (current : (s.sys.workers v).pc = .submit →
      (s'.sys.workers v).current.id = (s.sys.workers v).current.id)
    (submission : s'.submission v = s.submission v) :
    (Fresh s' v k ↔ Fresh s v k) ∧ s'.planOf v k = s.planOf v k := by
  have same : (s'.sys.workers v).pc = .submit ∧ (s'.sys.workers v).current.id = k ↔
      (s.sys.workers v).pc = .submit ∧ (s.sys.workers v).current.id = k := by
    rw [pc]
    exact and_congr_right fun inside => by rw [current inside]
  refine ⟨?_, ?_⟩
  · simp only [Fresh, submission]
    tauto
  · simp only [IoState.planOf, submission, same]

/-- A step that leaves the worker where it stands is no step of a read whose view stays. -/
theorem elsewhere_of_still (answers : s'.answers v k = s.answers v k)
    (pc : (s'.sys.workers v).pc = (s.sys.workers v).pc)
    (current : (s.sys.workers v).pc = .submit →
      (s'.sys.workers v).current.id = (s.sys.workers v).current.id)
    (submission : s'.submission v = s.submission v)
    (view : SameView (s.view v (slotAt k)) (s'.view v (slotAt k))) : Elsewhere s s' v k := by
  obtain ⟨fresh, plan⟩ := @plan_of_still n ι s s' v k pc current submission
  exact ⟨answers, fresh, plan, view⟩

/-! ## What a step is for an operation -/

/-- What happens to a read while it goes on. -/
def Inner (events : List OpEvent) : Prop :=
  ∀ (f : OpFields) (b : Nat) (e : Option OpError),
    ∃ b' e', f.life.run events (.reading b e) = some (.reading b' e')

/-- A read that has been dispatched is planned. -/
structure Plans (d : Driver) (s s' : IoState n ι) (w : Fin n) (k : Nat) (cells : Request)
    (getExtents : Nat → Except Int (List Extent)) : Prop where
  reading : Reading s w k
  fresh : Fresh s w k
  planned : ¬ Fresh s' w k
  idle : ∀ x ∈ s.wires w, x.slot ≠ slotAt k
  answers : s'.answers w k = s.answers w k ++ [.resolved cells getExtents]
  history : ∃ events, (s'.sys.workers w).history k = (s.sys.workers w).history k ++ events ∧ Inner events
  plan : s'.planOf w k = (ReadTask.begin d { obliging s.disk with getExtents := getExtents }
    (s.requested w (slotAt k) cells)).sub
  view : SameView (ReadTask.begin d { obliging s.disk with getExtents := getExtents }
    (s.requested w (slotAt k) cells)).st (s'.view w (slotAt k))
  mem : s'.mem = s.mem

/-- A read that is planned is told an answer, and goes on. -/
structure Tells (d : Driver) (s s' : IoState n ι) (w : Fin n) (k : Nat) (a : Answer)
    (st : ReadState) : Prop where
  reading : Reading s w k
  before : ¬ Fresh s w k
  planned : ¬ Fresh s' w k
  answers : s'.answers w k = s.answers w k ++ [a]
  history : ∃ events, (s'.sys.workers w).history k = (s.sys.workers w).history k ++ events ∧ Inner events
  effect : TaskEffect d s.disk ⟨s.view w (slotAt k), s.planOf w k⟩ a ⟨st, s'.planOf w k⟩
  asks : ∀ alloc, a = .enter alloc → ∃ found, alloc = (s.view w (slotAt k)).op.lent found
  goesOn : ∀ ok, a ≠ .copies ok
  view : SameView st (s'.view w (slotAt k))
  mem : s'.mem = st.mem

/-- A read is reaped. -/
structure Reaps (d : Driver) (s s' : IoState n ι) (w : Fin n) (k : Nat) (ok : Nat → Bool)
    (copied : Bool) : Prop where
  reading : Reading s w k
  before : ¬ Fresh s w k
  plan : s.planOf w k = none
  idle : (s.view w (slotAt k)).inflight = []
  answers : s'.answers w k = s.answers w k ++ [.copies ok]
  history : (s'.sys.workers w).history k = (s.sys.workers w).history k ++ [.copied copied]
  effect : TaskEffect d s.disk ⟨s.view w (slotAt k), none⟩ (.copies ok)
    ⟨completeReadOp { obliging s.disk with copies := ok } (s.view w (slotAt k)), none⟩
  result : ∀ (lt : k < (s.sys.workers w).published.length) b e,
    (s.sys.workers w).published[k].life.run ((s.sys.workers w).history k) .waiting =
      some (.reading b e) →
    (completeReadOp { obliging s.disk with copies := ok } (s.view w (slotAt k))).op.result =
      some ((s.sys.workers w).published[k].readResult b e copied)
  mem : s'.mem = (completeReadOp { obliging s.disk with copies := ok } (s.view w (slotAt k))).mem

/-- **What a step is for an operation.** -/
inductive Affects (d : Driver) (s s' : IoState n ι) (w : Fin n) (k : Nat) : Prop where
  | skips : (s'.sys.workers w).history k = (s.sys.workers w).history k →
      s'.answers w k = s.answers w k → (Reading s w k → Elsewhere s s' w k) → Affects d s s' w k
  | outer (e : OpEvent) (lt : k < (s.sys.workers w).published.length) :
      (s'.sys.workers w).history k = (s.sys.workers w).history k ++ [e] →
      s'.answers w k = s.answers w k → Outer e →
      (e = .dispatched → (s.sys.workers w).published[k].isWrite = false → Fresh s' w k) →
      Affects d s s' w k
  | plans (cells : Request) (getExtents : Nat → Except Int (List Extent)) :
      Plans d s s' w k cells getExtents → Affects d s s' w k
  | tells (a : Answer) (st : ReadState) : Tells d s s' w k a st → Affects d s s' w k
  | reaps (ok : Nat → Bool) (copied : Bool) : Reaps d s s' w k ok copied → Affects d s s' w k

/-! ## Threads and streams -/

/-- What disturbs no published operation is nothing to any of them. -/
theorem affects_of_undisturbed (engine : EngineInv s.sys)
    (same : Undisturbed (s.sys.offer w) (s.sys.workers w) (s'.sys.workers w))
    (ops : s'.ops = s.ops) (wires : s'.wires = s.wires) (submission : s'.submission = s.submission)
    (answers : s'.answers = s.answers) : Affects d s s' w k := by
  refine .skips ?_ (by rw [answers]) fun reading => ?_
  · rw [IoWorker.history, same.log, IoWorker.history]
  · obtain ⟨lt, b, e, lived⟩ := reading
    obtain ⟨m, queue⟩ := engine.queues w
    obtain ⟨low, -⟩ := window_of_reading queue lt lived
    refine elsewhere_of_still (by rw [answers]) same.pc (fun pc => ?_) (by rw [submission])
      (sameView_of ?_ (by rw [ops]) (by rw [wires]))
    · rw [same.current queue (by rw [pc]; rfl)]
    · exact same.opAt m queue k low lt

theorem Wires.keep (inv : Wires d s) (ops : s'.ops = s.ops) (wires : s'.wires = s.wires) :
    Wires d s' := by
  refine ⟨fun v x member => ?_, fun v slot => ?_⟩
  · rw [wires] at member
    obtain ⟨cmd, nbytes⟩ := inv.logged v x member
    exact ⟨by rw [ops]; exact cmd, nbytes⟩
  · simp only [IoState.view, wires]
    exact inv.places v slot

/-- The commands of the other workers stay as they are. -/
theorem Wires.worker (inv : Wires d s) (io : WorkerInv s w) (effect : IoEffect d s w s')
    (logged : ∀ x ∈ s'.wires w, Logged d s' w x)
    (places : ∀ slot, (s'.view w slot).inflight.Nodup) : Wires d s' := by
  refine ⟨fun v x member => ?_, fun v slot => ?_⟩
  · by_cases same : v = w
    · subst same
      exact logged x member
    · obtain ⟨-, wires, ops, -, -⟩ := effect.others io same
      rw [wires] at member
      obtain ⟨cmd, nbytes⟩ := inv.logged v x member
      exact ⟨by rw [ops]; exact cmd, nbytes⟩
  · by_cases same : v = w
    · subst same
      exact places slot
    · obtain ⟨-, wires, -, -, -⟩ := effect.others io same
      simp only [IoState.view, wires]
      exact inv.places v slot

/-- A step of one worker is nothing to the operations of the others. -/
theorem affects_of_other (io : WorkerInv s w) (effect : IoEffect d s w s') (other : v ≠ w) :
    (s'.sys.workers v).published = (s.sys.workers v).published ∧ Affects d s s' v k := by
  obtain ⟨worker, wires, ops, submission, answers⟩ := effect.others io other
  refine ⟨by rw [worker], .skips (by rw [worker]) (by rw [answers]) fun _ => ?_⟩
  exact elsewhere_of_still (by rw [answers]) (by rw [worker]) (fun _ => by rw [worker]) submission
    (sameView_of (by rw [worker]) (by rw [ops]) (by rw [wires]))

/-! ## Steps of the engine -/

/-- What is written down in a step. -/
theorem history_record {worker worker' : IoWorker} (log : worker'.log = worker.log)
    (event : Option (Nat × OpEvent)) (k : Nat) :
    (worker'.record event).history k =
      worker.history k ++ (event.toList.filter fun e => e.1 = k).map Prod.snd := by
  simp only [IoWorker.history, IoWorker.record, log, List.filter_append, List.map_append]

/-- The operations that a worker has published, and the histories of those that its step
is not about. -/
structure About (s s' : IoState n ι) (w : Fin n) (event : Option (Nat × OpEvent)) : Prop where
  published : (s'.sys.workers w).published = (s.sys.workers w).published
  history : ∀ k, (s'.sys.workers w).history k =
    (s.sys.workers w).history k ++ (event.toList.filter fun e => e.1 = k).map Prod.snd

theorem About.other {event : Option (Nat × OpEvent)} (about : About s s' w event)
    (other : ∀ e, event = some e → e.1 ≠ k) :
    (s'.sys.workers w).history k = (s.sys.workers w).history k := by
  rw [about.history k]
  cases event with
  | none => simp
  | some e => simp [other e rfl]

theorem About.here {e : OpEvent} (about : About s s' w (some (k, e))) :
    (s'.sys.workers w).history k = (s.sys.workers w).history k ++ [e] := by
  rw [about.history k]
  simp

/-- A step of the engine is about the operation of its event. -/
theorem about_of_effect {event : Option (Nat × OpEvent)} {worker : IoWorker} {gate : Nat → BitVec 32}
    {stop : Bool} (effect : WorkerEffect gate stop (s.sys.workers w) event worker)
    (same : s'.sys.workers w = worker.record event) : About s s' w event := by
  obtain ⟨published, log⟩ := published_of_effect effect
  exact ⟨by rw [same]; exact published, fun k => by rw [same]; exact history_record log event k⟩

/-- The operation that a worker has just stored where it stands. -/
theorem put_record_current (worker : IoWorker) (op : QueuedOp) (event : Option (Nat × OpEvent)) :
    ((worker.put (slotOf worker.i) op).record event).current = op :=
  Function.update_self ..

/-- A dispatched read is about to be planned. -/
theorem fresh_of_dispatched {event : OpEvent} {worker : IoWorker} {gate : Nat → BitVec 32}
    {stop : Bool} {offer : Option Offer} {m : Marks} (inv : WorkerInv s w)
    (queue : QueueInv (s.sys.workers w) offer m)
    (moves : WorkerEffect gate stop (s.sys.workers w) (some (k, event)) worker)
    (same : s'.sys.workers w = worker.record (some (k, event))) (dispatch : event = .dispatched)
    (lt : k < (s.sys.workers w).published.length)
    (read : (s.sys.workers w).published[k].isWrite = false)
    (submission : s'.submission = s.submission) : Fresh s' w k := by
  subst dispatch
  cases moves with
  | dispatchWrite pc write =>
      obtain ⟨at', -, low, lt', id⟩ := queue.place (by rw [pc]; rfl)
      obtain ⟨-, fields⟩ := queue.slots.window m.i lt' low
      have here : (s.sys.workers w).current.id = m.i := current_id queue (by rw [pc]; rfl)
      simp only [here] at read
      rw [at', fields, read] at write
      cases write
  | dispatchRead pc read' =>
      have idle : s.submission w = none := inv.idle (by rw [pc]; simp)
      refine ⟨by rw [same]; rfl, by rw [submission]; exact idle, ?_⟩
      rw [same]
      exact (congrArg QueuedOp.id (put_record_current { s.sys.workers w with pc := .submit }
        (s.sys.workers w).current.start _)).trans rfl

/-- **A step outside of the reading is nothing to any read.** -/
theorem affects_of_outer (inv : IoInv s) {event : Option (Nat × OpEvent)} {worker : IoWorker}
    (moves : WorkerEffect (fun j => (s.sys.streams j).gate) s.sys.stop (s.sys.workers w) event worker)
    (same : s'.sys.workers w = worker.record event)
    (outer : ∀ e, event = some e → Outer e.2) (outside : (s.sys.workers w).pc ≠ .submit)
    (wires : s'.wires = s.wires) (ops : s'.ops = s.ops) (answers : s'.answers = s.answers)
    (submission : s'.submission = s.submission) : Affects d s s' w k := by
  have about := about_of_effect moves same
  obtain ⟨m, queue⟩ := inv.engine.queues w
  by_cases here : ∃ e, event = some (k, e)
  · obtain ⟨e, rfl⟩ := here
    obtain ⟨m', queue'⟩ := queue.effect moves
    have lt := queue'.lives.fresh (k, e) (List.mem_append_right _ (List.mem_singleton.mpr rfl))
    rw [← same, about.published] at lt
    exact .outer e lt about.here (by rw [answers]) (outer _ rfl) fun dispatch read =>
      fresh_of_dispatched (inv.workers w) queue moves same dispatch lt read submission
  · have other : ∀ e, event = some e → e.1 ≠ k := by
      rintro ⟨j, e⟩ at' rfl
      exact here ⟨e, at'⟩
    refine .skips (about.other other) (by rw [answers]) fun reading => ?_
    obtain ⟨lt, b, e, lived⟩ := reading
    obtain ⟨low, early, -⟩ := window_of_reading queue lt lived
    have slot := slot_of_effect queue moves low lt early other
    refine elsewhere_of_submit (by rw [answers]) (fun pc => absurd pc outside) (fun pc => ?_)
      (sameView_of ?_ (by rw [ops]) (by rw [wires]))
    · rw [same] at pc
      obtain ⟨rfl, -, rfl⟩ := dispatches_of_effect moves outside pc
      have current : (s'.sys.workers w).current.id = (s.sys.workers w).current.id := by
        rw [same]
        exact (congrArg QueuedOp.id (put_record_current { s.sys.workers w with pc := .submit }
          (s.sys.workers w).current.start _)).trans rfl
      rw [current]
      exact other _ rfl
    · rw [same]
      exact slot

end OpenDS.DataPath
