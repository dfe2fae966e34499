import OpenDS.DataPath.Steps

/-!
# Submission

A worker in `start_read_op` plans the read it has dispatched and then tells it one answer
after the other. What it makes of the read is what the read makes of the answer; the
other reads of its queue are left alone.
-/

set_option autoImplicit false

namespace OpenDS.DataPath

open OpenDS.Library (Machine Memory Ptr)
open OpenDS.Aisio OpenDS.Engine

variable {n : Nat} {ι : Type} {d : Driver} {s s' : IoState n ι} {w v : Fin n} {k : Nat}
  {a : Answer} {task : ReadTask}

/-! ## The state past an answer -/

/-- The slots past an answer. -/
theorem proceed_slot (slot : Fin queueSize) :
    ((s.proceed d w a task).sys.workers w).fileOpQueue slot =
      if slot = slotOf (s.sys.workers w).i then absorb (s.sys.workers w).current task.st.op
      else (s.sys.workers w).fileOpQueue slot := by
  rw [proceed_worker _ _ _ rfl rfl rfl]
  simp only [System.setWorker, Function.update_self]
  cases task.sub with
  | none => exact Function.update_apply ..
  | some sub => exact Function.update_apply ..

/-- The commands of the queue past an answer. -/
theorem proceed_wires : (s.proceed d w a task).wires w = s.wires w ++ s.newWires d w task.st :=
  Function.update_self ..

/-- What an answer leaves of a read that is submitted, apart from its counters: it takes
at most one command, the last one of the log. -/
structure Onward (st st' : ReadState) : Prop where
  mode : st'.op.mode = st.op.mode
  state : st'.op.state = st.op.state
  bufBase : st'.op.bufBase = st.op.bufBase
  result : st'.op.result = st.op.result
  log : ∃ more : List Command, more.length ≤ 1 ∧ st'.issued = st.issued ++ more ∧
    st'.inflight = st.inflight ++ more.map fun _ => st.issued.length

/-- A step that takes no command. -/
theorem Onward.of_still {st st' : ReadState} (mode : st'.op.mode = st.op.mode)
    (state : st'.op.state = st.op.state) (bufBase : st'.op.bufBase = st.op.bufBase)
    (result : st'.op.result = st.op.result) (issued : st'.issued = st.issued)
    (inflight : st'.inflight = st.inflight) : Onward st st' :=
  ⟨mode, state, bufBase, result, [], Nat.zero_le _, by rw [issued, List.append_nil],
    by rw [inflight]; simp⟩

/-- An answer to a read that is submitted. -/
theorem told_onward {disk : Nat → Nat → UInt8} {sub : Submission} {st : ReadState}
    (effect : TaskEffect d disk ⟨st, some sub⟩ a task) (pokes : ∀ place ok, a ≠ .arrived place ok) :
    Onward st task.st := by
  cases effect with
  | fails cells getExtents e outside => cases outside
  | planned cells getExtents items outside => cases outside
  | entered alloc absDst slba srcOff nbytes rest buf st' submitting entered =>
      cases (enterPartial_ok entered).1 <;> exact .of_still rfl rfl rfl rfl rfl rfl
  | barred alloc absDst slba srcOff nbytes rest st' submitting barred =>
      obtain ⟨e, held, rfl, -⟩ := enterPartial_out barred
      exact .of_still rfl rfl rfl rfl rfl rfl
  | arrived place ok outstanding poking => exact absurd rfl (pokes place ok)
  | taken item rest st' submitting takes =>
      cases item with
      | chunk slba nlb dst =>
          cases takes
          exact ⟨rfl, rfl, rfl, rfl, [_], Nat.le_refl _, rfl, rfl⟩
      | bounceRead buf absDst slba srcOff nbytes =>
          cases takes
          refine ⟨?_, ?_, ?_, ?_, [_], Nat.le_refl _, describe_issued _ _ _, describe_inflight _ _ _⟩ <;>
            rw [describe_op]
      | _ => exact takes.elim
  | reaped ok outside => cases outside
  | _ => exact .of_still rfl rfl rfl rfl rfl rfl

/-- The view of a read that has been told an answer. -/
theorem proceed_view (mode : task.st.op.mode = (s.view w (slotOf (s.sys.workers w).i)).op.mode)
    (state : task.st.op.state = (s.sys.workers w).current.state)
    (bufBase : task.st.op.bufBase = (s.sys.workers w).current.fields.bufBase)
    (result : task.st.op.result = none)
    (inflight : task.st.inflight = (s.view w (slotOf (s.sys.workers w).i)).inflight ++
      (s.newWires d w task.st).map Wire.place) :
    SameView task.st ((s.proceed d w a task).view w (slotOf (s.sys.workers w).i)) := by
  have slot := @proceed_slot n ι d s w a task (slotOf (s.sys.workers w).i)
  rw [if_pos rfl] at slot
  have data := @proceed_ops n ι d s w a task w (slotOf (s.sys.workers w).i)
  rw [if_pos ⟨rfl, rfl⟩] at data
  refine ⟨?_, by simp only [IoState.view, data], ?_⟩
  · have mode : task.st.op.mode = modeOf (s.sys.workers w).current.fields.u := mode
    simp only [IoState.view, slot, data, absorb, ← mode, ← state, ← bufBase, ← result]
  · have mine : (s.newWires d w task.st).filter (fun x => x.slot = slotOf (s.sys.workers w).i) =
        s.newWires d w task.st := by
      refine List.filter_eq_self.mpr fun x member => ?_
      obtain ⟨c, -, rfl⟩ := List.mem_map.mp member
      simp
    rw [inflight]
    simp only [IoState.view, proceed_wires, List.filter_append, List.map_append, mine]

/-- The commands that an answer has put into the queue are those new in the log. -/
theorem newWires_place {st : ReadState} (onward : Onward (s.view w (slotOf (s.sys.workers w).i)) st) :
    st.inflight = (s.view w (slotOf (s.sys.workers w).i)).inflight ++
      (s.newWires d w st).map Wire.place := by
  obtain ⟨more, -, log, outstanding⟩ := onward.log
  rw [outstanding, IoState.newWires, log]
  simp [IoState.view, List.map_map, Function.comp_def]

/-- What an answer is about. -/
theorem proceed_about : About s (s.proceed d w a task) w
    ((eventOf a (s.newWires d w task.st) task).map fun e => ((s.sys.workers w).current.id, e)) := by
  have worker := @proceed_worker n ι d s w a task _ _ _ rfl rfl rfl
  refine ⟨?_, fun k => ?_⟩
  · rw [worker]
    simp only [System.setWorker, Function.update_self]
    cases task.sub <;> rfl
  · rw [worker]
    simp only [System.setWorker, Function.update_self]
    refine history_record ?_ _ k
    cases task.sub <;> rfl

/-- Where the worker stands past an answer. -/
theorem proceed_current (pc : (s.sys.workers w).pc = .submit) :
    (((s.proceed d w a task).sys.workers w).pc = .submit →
      ((s.proceed d w a task).sys.workers w).current.id = (s.sys.workers w).current.id) ∧
    (∀ k, ¬ Fresh (s.proceed d w a task) w k) ∧
      (s.proceed d w a task).planOf w (s.sys.workers w).current.id = task.sub := by
  obtain ⟨-, out, goesOn⟩ := proceed_queue (d := d) (s := s) (w := w) a task
  have submission : (s.proceed d w a task).submission w = task.sub := Function.update_self ..
  have id : task.sub ≠ none → ((s.proceed d w a task).sys.workers w).current.id =
      (s.sys.workers w).current.id := by
    intro more
    rw [IoWorker.current, (goesOn more).2, proceed_slot, if_pos rfl]
    rfl
  cases sub : task.sub with
  | none =>
      have outside : ((s.proceed d w a task).sys.workers w).pc ≠ .submit := by
        rw [out sub]
        simp
      refine ⟨fun inside => absurd inside outside, fun k fresh => outside fresh.1, ?_⟩
      rw [IoState.planOf, if_neg fun at' => outside at'.1]
  | some sub' =>
      have more : task.sub ≠ none := by rw [sub]; simp
      refine ⟨fun _ => id more, fun k fresh => ?_, ?_⟩
      · rw [Fresh, submission, sub] at fresh
        cases fresh.2.1
      · rw [IoState.planOf, if_pos ⟨(goesOn more).1.trans pc, id more⟩, submission, sub]

/-- What happens to a read that is submitted leaves it in its reading. -/
theorem inner_of_eventOf (new : List Wire) : Inner (eventOf a new task).toList := by
  intro f b e
  unfold eventOf
  split
  · exact ⟨_, _, rfl⟩
  · exact ⟨_, _, rfl⟩
  · cases task.st.op.err <;> exact ⟨_, _, rfl⟩
  · exact ⟨_, _, rfl⟩

/-- What an operation has been told. -/
theorem proceed_answers (j : Nat) :
    (s.proceed d w a task).answers w j = if j = (s.sys.workers w).current.id then
        s.answers w (s.sys.workers w).current.id ++ [a]
      else s.answers w j := by
  simp only [IoState.proceed, IoState.tell, IoState.storeData, Function.update_self,
    Function.update_apply]

/-- What happens to an operation past an answer. -/
theorem proceed_history (j : Nat) : ((s.proceed d w a task).sys.workers w).history j =
    (s.sys.workers w).history j ++ if j = (s.sys.workers w).current.id then
      (eventOf a (s.newWires d w task.st) task).toList else [] := by
  rw [(@proceed_about n ι d s w a task).history]
  cases eventOf a (s.newWires d w task.st) task with
  | none => simp
  | some e =>
      by_cases here : j = (s.sys.workers w).current.id
      · subst here
        simp
      · simp [here, Ne.symm here]

/-- An answer leaves the reads in the other slots alone. -/
theorem proceed_others {slot : Fin queueSize} (ne : slot ≠ slotOf (s.sys.workers w).i) :
    SameView (s.view w slot) ((s.proceed d w a task).view w slot) := by
  refine sameView_of ?_ ?_ ?_
  · rw [proceed_slot, if_neg ne]
  · rw [proceed_ops, if_neg fun here => ne here.2]
  · rw [proceed_wires, List.filter_append, List.append_right_eq_self]
    refine List.filter_eq_nil_iff.mpr fun x member => ?_
    obtain ⟨c, -, rfl⟩ := List.mem_map.mp member
    simp [Ne.symm ne]

/-- **An answer to one read is nothing to the others.** -/
theorem proceed_skips (inv : IoInv s) (pc : (s.sys.workers w).pc = .submit)
    (other : k ≠ (s.sys.workers w).current.id) : Affects d s (s.proceed d w a task) w k := by
  obtain ⟨m, queue⟩ := inv.engine.queues w
  have onOp : (s.sys.workers w).pc.onOp = true := by rw [pc]; rfl
  have id := current_id queue onOp
  obtain ⟨-, slot, low, ltI, -⟩ := queue.place onOp
  have answers : (s.proceed d w a task).answers w k = s.answers w k := by
    rw [proceed_answers, if_neg other]
  refine .skips (by rw [proceed_history, if_neg other, List.append_nil]) answers fun reading => ?_
  obtain ⟨lt, b, e, lived⟩ := reading
  obtain ⟨lowK, -⟩ := window_of_reading queue lt lived
  refine elsewhere_of_submit answers (fun _ => Ne.symm other) (fun pc' => ?_) (proceed_others ?_)
  · rw [(proceed_current pc).1 pc']
    exact Ne.symm other
  · rw [slot]
    rw [id] at other
    exact queue.counters.slotAt_ne lowK lt low ltI other

/-- The slot of the operation that a worker submits. -/
theorem slotAt_current {offer : Option Offer} {m : Marks} {worker : IoWorker}
    (queue : QueueInv worker offer m) (onOp : worker.pc.onOp = true) :
    slotAt worker.current.id = slotOf worker.i := by
  rw [current_id queue onOp, (queue.place onOp).2.1]

/-- The operation that a worker submits or reaps is being read. -/
theorem reading_current {offer : Option Offer} {m : Marks}
    (queue : QueueInv (s.sys.workers w) offer m)
    (pc : (s.sys.workers w).pc = .submit ∨ (s.sys.workers w).pc = .reap) :
    Reading s w (s.sys.workers w).current.id := by
  have onOp : (s.sys.workers w).pc.onOp = true := by rcases pc with pc | pc <;> rw [pc] <;> rfl
  obtain ⟨-, -, -, lt, -⟩ := queue.place onOp
  have reading := reading_of_reads queue pc lt
  have id := current_id queue onOp
  simp only [← id] at reading
  exact ⟨by rw [id]; exact lt, _, _, reading⟩

/-! ## Answers -/

/-- **A read that is submitted is told its answer.** -/
theorem told_tells (inv : IoInv s) {sub : Submission} {c : IoChoice}
    (pc : (s.sys.workers w).pc = .submit) (submitting : s.submission w = some sub)
    (answers : c.answer sub (s.view w (slotOf (s.sys.workers w).i)).op (hostBounceBuf s.allocated) =
      some a)
    (step : ReadTask.step d s.disk ⟨s.view w (slotOf (s.sys.workers w).i), some sub⟩ a = some task) :
    Tells d s (s.proceed d w a task) w (s.sys.workers w).current.id a task.st := by
  obtain ⟨m, queue⟩ := inv.engine.queues w
  have onOp : (s.sys.workers w).pc.onOp = true := by rw [pc]; rfl
  have effect := ReadTask.step_effect step
  have onward := told_onward effect fun place ok same => answer_arrived (same ▸ answers)
  have slot := slotAt_current queue onOp
  have plan : s.planOf w (s.sys.workers w).current.id = some sub := by
    rw [IoState.planOf, if_pos ⟨pc, rfl⟩, submitting]
  obtain ⟨-, planned, plan'⟩ := @proceed_current n ι d s w a task pc
  refine ⟨reading_current queue (.inl pc), fun fresh => ?_, planned _, ?_, ?_, ?_,
    fun alloc enters => ?_, fun ok copies => ?_, ?_, rfl⟩
  · cases fresh.2.1.symm.trans submitting
  · rw [proceed_answers, if_pos rfl]
  · exact ⟨_, by rw [proceed_history, if_pos rfl], inner_of_eventOf _⟩
  · rw [slot, plan, plan']
    exact effect
  · subst enters
    rw [slot]
    obtain ⟨ok, asked⟩ := answer_enter answers
    exact ⟨_, asked⟩
  · subst copies
    cases effect with
    | reaped ok outside => cases outside
  · rw [slot]
    exact proceed_view onward.mode onward.state onward.bufBase onward.result (newWires_place onward)

/-- The commands that are told to the queue are logged. -/
theorem told_wires (wires : Wires d s) (inv : IoInv s) (whole : IoEffect d s w (s.proceed d w a task))
    (onward : Onward (s.view w (slotOf (s.sys.workers w).i)) task.st) :
    Wires d (s.proceed d w a task) := by
  have view := @proceed_view n ι d s w a task onward.mode onward.state onward.bufBase onward.result
    (newWires_place onward)
  obtain ⟨more, few, log, outstanding⟩ := onward.log
  have log : task.st.issued = (s.ops w (slotOf (s.sys.workers w).i)).issued ++ more := log
  refine wires.worker (inv.workers w) whole (fun x member => ?_) fun slot => ?_
  · by_cases here : x.slot = slotOf (s.sys.workers w).i
    · have data := @proceed_ops n ι d s w a task w x.slot
      rw [if_pos ⟨rfl, here⟩] at data
      rw [proceed_wires] at member
      rcases List.mem_append.mp member with old | new
      · obtain ⟨cmd, nbytes⟩ := wires.logged w x old
        rw [here] at cmd
        refine ⟨?_, nbytes⟩
        rw [data, log, List.getElem?_append_left (List.getElem?_eq_some_iff.mp cmd).1]
        exact cmd
      · obtain ⟨c, taken, rfl⟩ := List.mem_map.mp new
        rw [log, List.drop_left] at taken
        refine ⟨?_, fun chunk => ?_⟩
        · have some := List.length_pos_of_mem taken
          obtain ⟨only, rfl⟩ := List.length_eq_one_iff.mp (Nat.le_antisymm few some)
          rw [data, log, List.getElem?_append_right (Nat.le_refl _), Nat.sub_self,
            List.mem_singleton.mp taken]
          rfl
        · have chunk : c.callback = .chunk := chunk
          simp only [wireBytes, chunk]
    · rw [proceed_wires] at member
      rcases List.mem_append.mp member with old | new
      · obtain ⟨cmd, nbytes⟩ := wires.logged w x old
        refine ⟨?_, nbytes⟩
        rw [proceed_ops, if_neg fun at' => here at'.2]
        exact cmd
      · obtain ⟨c, -, rfl⟩ := List.mem_map.mp new
        exact absurd rfl here
  · by_cases here : slot = slotOf (s.sys.workers w).i
    · rw [here, view.inflight, outstanding]
      refine List.nodup_append.mpr ⟨wires.places w _, ?_, ?_⟩
      · rcases Nat.le_one_iff_eq_zero_or_eq_one.mp few with none | one
        · rw [List.eq_nil_of_length_eq_zero none]
          exact List.nodup_nil
        · obtain ⟨only, rfl⟩ := List.length_eq_one_iff.mp one
          exact List.nodup_singleton _
      · intro place old other new
        obtain ⟨x, member, rfl⟩ := List.mem_map.mp old
        obtain ⟨member, here⟩ := List.mem_filter.mp member
        obtain ⟨-, -, rfl⟩ := List.mem_map.mp new
        obtain ⟨cmd, -⟩ := wires.logged w x member
        rw [decide_eq_true_eq] at here
        rw [here] at cmd
        exact Nat.ne_of_lt (List.getElem?_eq_some_iff.mp cmd).1
    · rw [(proceed_others here).inflight]
      exact wires.places w slot

/-! ## The plan -/

/-- The plan of a read keeps what identifies it. -/
theorem begin_frame (dev : Device) (st : ReadState) :
    (ReadTask.begin d dev st).st.op.mode = st.op.mode ∧
      (ReadTask.begin d dev st).st.op.state = .inFlight ∧
      (ReadTask.begin d dev st).st.op.bufBase = st.op.bufBase ∧
      (ReadTask.begin d dev st).st.op.result = st.op.result ∧
      (ReadTask.begin d dev st).st.issued = st.issued ∧
      (ReadTask.begin d dev st).st.inflight = st.inflight := by
  unfold ReadTask.begin
  simp only
  split <;> exact ⟨rfl, rfl, rfl, rfl, rfl, rfl⟩

/-- The read that is planned, in the engine. -/
theorem began_view (inv : IoInv s) (cells : Request) (getExtents : Nat → Except Int (List Extent))
    (pc : (s.sys.workers w).pc = .submit) (unplanned : s.submission w = none) :
    (∀ x ∈ s.wires w, x.slot ≠ slotOf (s.sys.workers w).i) ∧
      s.newWires d w (ReadTask.begin d { obliging s.disk with getExtents := getExtents }
        (s.requested w (slotOf (s.sys.workers w).i) cells)).st = [] ∧
      (ReadTask.begin d { obliging s.disk with getExtents := getExtents }
        (s.requested w (slotOf (s.sys.workers w).i) cells)).st.inflight = [] ∧
      SameView (ReadTask.begin d { obliging s.disk with getExtents := getExtents }
          (s.requested w (slotOf (s.sys.workers w).i) cells)).st
        ((s.proceed d w a (.begin d { obliging s.disk with getExtents := getExtents }
          (s.requested w (slotOf (s.sys.workers w).i) cells))).view w (slotOf (s.sys.workers w).i)) := by
  obtain ⟨m, queue⟩ := inv.engine.queues w
  obtain ⟨at', -, -, -, -⟩ := queue.place (by rw [pc]; rfl)
  have inFlight : (s.sys.workers w).current.state = .inFlight := by
    rw [at']
    exact queue.lives.reads (.inl pc)
  have idle := idle_of_fresh (inv.workers w) queue pc unplanned
  have none : (s.view w (slotOf (s.sys.workers w).i)).inflight = [] := by
    simp only [IoState.view]
    rw [List.filter_eq_nil_iff.mpr fun x member => by simp [idle x member], List.map_nil]
  obtain ⟨mode, state, bufBase, result, issued, inflight⟩ := begin_frame (d := d)
    { obliging s.disk with getExtents := getExtents }
    (s.requested w (slotOf (s.sys.workers w).i) cells)
  have issued : (ReadTask.begin d { obliging s.disk with getExtents := getExtents }
      (s.requested w (slotOf (s.sys.workers w).i) cells)).st.issued = [] := issued
  have new : s.newWires d w (ReadTask.begin d { obliging s.disk with getExtents := getExtents }
      (s.requested w (slotOf (s.sys.workers w).i) cells)).st = [] := by
    rw [IoState.newWires, issued]
    simp
  refine ⟨idle, new, inflight.trans none, ?_⟩
  exact proceed_view mode (state.trans inFlight.symm) bufBase result
    (by rw [inflight.trans none, new, none]; rfl)

/-- **A read that is dispatched is planned.** -/
theorem began_plans (inv : IoInv s) (cells : Request)
    (getExtents : Nat → Except Int (List Extent)) (pc : (s.sys.workers w).pc = .submit)
    (unplanned : s.submission w = none) :
    Plans d s (s.proceed d w (.resolved cells getExtents)
      (.begin d { obliging s.disk with getExtents := getExtents }
        (s.requested w (slotOf (s.sys.workers w).i) cells))) w (s.sys.workers w).current.id
      cells getExtents := by
  obtain ⟨m, queue⟩ := inv.engine.queues w
  have slot := slotAt_current queue (by rw [pc]; rfl)
  obtain ⟨idle, -, -, view⟩ := began_view (d := d) (a := .resolved cells getExtents) inv cells
    getExtents pc unplanned
  obtain ⟨-, planned, plan⟩ := @proceed_current n ι d s w (.resolved cells getExtents)
    (.begin d { obliging s.disk with getExtents := getExtents }
      (s.requested w (slotOf (s.sys.workers w).i) cells)) pc
  refine ⟨reading_current queue (.inl pc), ⟨pc, unplanned, rfl⟩, planned _, ?_, ?_, ?_, ?_, ?_, ?_⟩
  · rw [slot]
    exact idle
  · rw [proceed_answers, if_pos rfl]
  · exact ⟨_, by rw [proceed_history, if_pos rfl], inner_of_eventOf _⟩
  · rw [slot]
    exact plan
  · rw [slot]
    exact view
  · have bytes : (ReadTask.begin d { obliging s.disk with getExtents := getExtents }
        (s.requested w (slotOf (s.sys.workers w).i) cells)).st.mem = s.mem := by
      unfold ReadTask.begin
      simp only
      split <;> rfl
    exact bytes

theorem began_wires (wires : Wires d s) (inv : IoInv s) (cells : Request)
    (getExtents : Nat → Except Int (List Extent)) (pc : (s.sys.workers w).pc = .submit)
    (unplanned : s.submission w = none) :
    Wires d (s.proceed d w (.resolved cells getExtents)
      (.begin d { obliging s.disk with getExtents := getExtents }
        (s.requested w (slotOf (s.sys.workers w).i) cells))) := by
  obtain ⟨idle, new, inflight, view⟩ := began_view (d := d) (a := .resolved cells getExtents) inv
    cells getExtents pc unplanned
  refine wires.worker (inv.workers w) (.began cells getExtents pc unplanned) (fun x member => ?_)
    fun slot => ?_
  · rw [proceed_wires, new, List.append_nil] at member
    obtain ⟨cmd, nbytes⟩ := wires.logged w x member
    refine ⟨?_, nbytes⟩
    rw [proceed_ops, if_neg fun at' => idle x member at'.2]
    exact cmd
  · by_cases here : slot = slotOf (s.sys.workers w).i
    · rw [here, view.inflight, inflight]
      exact List.nodup_nil
    · rw [(proceed_others here).inflight]
      exact wires.places w slot

end OpenDS.DataPath
