import OpenDS.DataPath.Tasks
import OpenDS.Aisio.StreamTwin
import OpenDS.Engine.OneStream

/-!
# The service of one stream

When every operation is submitted to one stream, one of them at a time is served, and the
stream comes to a copy only between them. So a step that moves bytes, writes to the files or
changes the descriptor of the stream is a step of the operation in service, or the stream
runs a copy (`StreamOnly.streamStep`).
-/

set_option autoImplicit false

namespace OpenDS.DataPath

open OpenDS.Library (Machine Memory Ptr)
open OpenDS.Aisio OpenDS.Engine

variable {n : Nat} {ι : Type} {d : Driver} {s s' : IoState n ι} {w v : Fin n} {j k turn : Nat}
  {f : OpFields}

/-! ## Submissions to one stream -/

/-- The step submits nothing but operations of the stream, no call of the accelerator fails, and
the extents of a file are laid out as those of a file are. -/
def IoLabel.OnStream (d : Driver) (j : Nat) : IoLabel n ι → Prop
  | .thread _ (.call c) => c.OnStream j
  | .thread _ (.accel ok) => ok = true
  | .worker _ (.resolved _ getExtents) => ∀ i extents, getExtents i = .ok extents → Layout d extents
  | _ => True

/-- No gate is enqueued while the copy of an earlier read is still to be enqueued. -/
def CopiesFirst (j : Nat) (s : IoState n ι) : IoLabel n ι → Prop
  | .thread t act => GatesBehindCopies j s.sys (.thread t act)
  | _ => True

/-- **What holds of the data path when one stream is used.** -/
structure StreamOnly (d : Driver) (s : IoState n ι) (j : Nat) : Prop where
  served : Served d s
  stream : StreamInv s.sys j
  one : OneStream s.sys j

theorem StreamOnly.start (futures : Nat → Future) (bytesRead : Nat → Int) (mem : Memory Space UInt8)
    (disk : Nat → Nat → UInt8) : StreamOnly d (ioSetup n ι futures bytesRead mem disk) j :=
  ⟨.start futures bytesRead mem disk, .start futures bytesRead, .start futures bytesRead⟩

section Labels

variable [DecidableEq ι] [NeZero n] {l : IoLabel n ι}

/-- The step of the engine under a step of the data path. -/
theorem engine_of_step (inv : IoInv s) (staging : d.assumeAlignedOnly = false) (on : l.OnStream d j)
    (first : CopiesFirst j s l) (step : (io d).step s l = some s') : s'.sys = s.sys ∨
      ∃ l', (engine false).step s.sys l' = some s'.sys ∧ GatesBehindCopies j s.sys l' ∧ Enqueues l' ∧
        CallsOnStream j l' := by
  cases l with
  | thread t act =>
      obtain ⟨sys, stepped, rfl⟩ := Option.map_eq_some_iff.mp step
      rw [staging] at stepped
      refine .inr ⟨.thread t act, stepped, first, ?_⟩
      cases act with
      | call c => exact ⟨trivial, on⟩
      | accel ok => exact ⟨on, trivial⟩
      | go => exact ⟨trivial, trivial⟩
  | worker w c =>
      rcases (IoState.workerStep_effect step).refines (inv.workers w) with same | ⟨c', stepped⟩
      · exact .inl same
      · exact .inr ⟨.worker w c', stepped, trivial, trivial, trivial⟩
  | gpu i =>
      obtain ⟨sys, stepped, rfl⟩ := Option.map_eq_some_iff.mp step
      exact .inr ⟨.gpu i, stepped, trivial, trivial, trivial⟩
  | stop =>
      cases step
      exact .inr ⟨.stop, rfl, trivial, trivial, trivial⟩

theorem StreamOnly.step (only : StreamOnly d s j) (power : d.lbaSize = 2 ^ d.lbaShift)
    (staging : d.assumeAlignedOnly = false) (few : n ≤ maxIoThreads) (on : l.OnStream d j)
    (first : CopiesFirst j s l) (step : (io d).step s l = some s') : StreamOnly d s' j := by
  refine ⟨only.served.step power step, ?_, ?_⟩ <;>
    rcases engine_of_step only.served.inv staging on first step with
      same | ⟨l', stepped, gates, enqueues, calls⟩
  · rw [same]
    exact only.stream
  · exact only.stream.step few gates enqueues stepped
  · rw [same]
    exact only.one
  · exact only.one.step only.stream.gates.locked only.stream.order calls stepped

end Labels

/-! ## The operation in service -/

/-- No later operation of the stream has been dispatched. -/
def NoneLater (s : System n ι) (j turn : Nat) : Prop :=
  ∀ turn' w k f, s.HasTurn j turn' w k f → .dispatched ∈ (s.workers w).history k → turn' ≤ turn

/-- Nothing is in service but the operation. -/
def Sole (s : System n ι) (w : Fin n) (k : Nat) : Prop := ∀ v i, s.InService v i → v = w ∧ i = k

/-- What is dispatched is published. -/
theorem published_of_history (inv : EngineInv s.sys) {e : OpEvent}
    (happened : e ∈ (s.sys.workers w).history k) : k < (s.sys.workers w).published.length := by
  by_contra past
  rw [history_of_unpublished inv (Nat.le_of_not_lt past)] at happened
  cases happened

/-- **Nothing else is served while an operation is, or before a later one is dispatched.** -/
theorem StreamOnly.sole (only : StreamOnly d s j) (has : s.sys.HasTurn j turn w k f)
    (dispatched : .dispatched ∈ (s.sys.workers w).history k)
    (last : ¬ (s.sys.workers w).Completed k ∨ NoneLater s.sys j turn) : Sole s.sys w k := by
  intro v i service
  have safe := only.stream.gates.gateSafe j
  have lt := published_of_history only.stream.gates.locked service.1
  obtain ⟨turn', has'⟩ := only.one.hasTurn (List.getElem?_eq_getElem lt)
  rcases last with open' | none
  · obtain ⟨rfl, rfl⟩ := safe.alone w k f turn v i _ turn' has has' ⟨dispatched, open'⟩ service
    exact ⟨rfl, rfl⟩
  · rcases Nat.lt_or_eq_of_le (none turn' v i _ has' service.1) with before | rfl
    · exact absurd (safe.order v i _ turn' w k f turn has' has before dispatched) service.2
    · obtain ⟨rfl, rfl⟩ := only.stream.gates.alone j turn' v i _ w k f has' has
      exact ⟨rfl, rfl⟩

/-- An operation that has left its first stage has been dispatched. -/
theorem dispatched_of_stage {f : OpFields} {stage : Stage}
    (lived : f.life.run ((s.sys.workers w).history k) .waiting = some stage)
    (ranked : 1 ≤ stage.rank) : .dispatched ∈ (s.sys.workers w).history k := by
  have count := OpFields.life_count lived 1 (by decide)
  rw [if_pos ranked] at count
  obtain ⟨e, member, rank⟩ := List.countP_pos_iff.mp (show 0 < _ by rw [count]; decide)
  cases e with
  | dispatched => exact member
  | _ => simp [OpEvent.rank] at rank

/-- An operation at a stage between its dispatch and its completion is in service. -/
theorem inService_of_stage {f : OpFields} {stage : Stage}
    (lived : f.life.run ((s.sys.workers w).history k) .waiting = some stage)
    (running : stage.task = .running) : s.sys.InService w k := by
  constructor
  · refine dispatched_of_stage lived ?_
    cases stage <;> first | exact Nat.le_of_ble_eq_true rfl | cases running
  · rintro ⟨target, m, completed⟩
    obtain rfl := OpFields.life_completed lived completed
    cases running

theorem Reading.inService (reading : Reading s w k) : s.sys.InService w k := by
  obtain ⟨lt, b, e, lived⟩ := reading
  exact inService_of_stage lived rfl

/-- What the worker is about to report is where the queue shows it. -/
theorem late_of_stage (inv : EngineInv s.sys) {stage : Stage}
    (published : (s.sys.workers w).published[k]? = some f)
    (lived : f.life.run ((s.sys.workers w).history k) .waiting = some stage) (m : Int)
    (late : stage = .reported m ∨ stage = .stored m) : (s.sys.workers w).current.id = k ∧
      slotOf (s.sys.workers w).i = slotAt k ∧
      (s.sys.workers w).pc = if stage = .reported m then .result m else .release m := by
  obtain ⟨marks, queue⟩ := inv.queues w
  obtain ⟨lt, rfl⟩ := List.getElem?_eq_some_iff.mp published
  have low : marks.tail ≤ k := by
    by_contra before
    obtain ⟨r, done⟩ := queue.lives.done k lt (Nat.lt_of_not_le before)
    rw [lived] at done
    rcases late with rfl | rfl <;> cases done
  obtain ⟨stage', lived', shows⟩ := queue.lives.live k lt low
  rw [lived] at lived'
  cases lived'
  unfold IoWorker.Shows at shows
  split at shows
  · rename_i here
    have onOp : (s.sys.workers w).pc.onOp = true := by
      cases pc : (s.sys.workers w).pc <;> first | rfl | (rw [pc] at here; cases here.1)
    obtain ⟨-, slot, -⟩ := queue.place onOp
    obtain ⟨-, rfl⟩ := here
    refine ⟨current_id queue onOp, slot, ?_⟩
    rcases late with rfl | rfl <;> cases pc : (s.sys.workers w).pc <;> rw [pc] at shows <;>
      first | exact shows.elim | skip
    · rw [if_pos rfl, shows.1]
    · rw [if_neg (by simp), shows.1]
  · rcases late with rfl | rfl <;> exact shows.elim

/-! ## What a step is for the operation in service -/

/-- The copy that the stream is to run for a read, as far as its slot says. -/
def IoState.copyOf (s : IoState n ι) (w : Fin n) (k : Nat) : BounceCopy :=
  (completeReadOp (obliging s.disk) (s.view w (slotAt k))).desc

/-- The operation is about to report. -/
def Reporting (s : IoState n ι) (w : Fin n) (k : Nat) : Prop :=
  (s.sys.workers w).current.id = k ∧ slotOf (s.sys.workers w).i = slotAt k ∧
    ∃ m, (s.sys.workers w).pc = .result m ∨ (s.sys.workers w).pc = .release m

/-- **The step moves nothing and is no completion**: the bytes, the files and the descriptors
stay, and so does the slot of an operation that is about to report. -/
structure Unmoved (s s' : IoState n ι) (w : Fin n) (k : Nat) : Prop where
  mem : s'.mem = s.mem
  disk : s'.disk = s.disk
  descs : s'.descs = s.descs
  answers : s'.answers w k = s.answers w k
  opens : ∀ e, (s'.sys.workers w).history k = (s.sys.workers w).history k ++ [e] → e.completes = false
  slot : Reporting s w k → k < (s.sys.workers w).published.length →
    (s'.sys.workers w).opAt k = (s.sys.workers w).opAt k ∧ s'.ops w (slotAt k) = s.ops w (slotAt k)

/-- **What a step is for the operation of a stream in service**, if any. -/
inductive StreamStep (d : Driver) (s s' : IoState n ι) (j : Nat) (w : Fin n) (k : Nat) : Prop where
  | unmoved : Unmoved s s' w k → StreamStep d s s' j w k
  | plans (cells : Request) (getExtents : Nat → Except Int (List Extent)) :
      Plans d s s' w k cells getExtents → (∀ i extents, getExtents i = .ok extents → Layout d extents) →
      s'.disk = s.disk → s'.view w (slotAt k) = (ReadTask.begin d
        { obliging s.disk with getExtents := getExtents } (s.requested w (slotAt k) cells)).st →
      StreamStep d s s' j w k
  | tells (a : Answer) (st : ReadState) : Tells d s s' w k a st → s'.disk = s.disk →
      s'.view w (slotAt k) = st → StreamStep d s s' j w k
  | reaps (ok : Nat → Bool) (copied : Bool) : Reaps d s s' w k ok copied → s'.disk = s.disk →
      s'.descs = s.descs → (s'.sys.workers w).opAt k = (s.sys.workers w).opAt k →
      s'.ops w (slotAt k) = s.ops w (slotAt k) → StreamStep d s s' j w k
  | wrote (ret : Int) : (s'.sys.workers w).history k = (s.sys.workers w).history k ++ [.wrote ret] →
      StreamStep d s s' j w k
  | completes (m : Int) : s'.mem = s.mem → s'.answers w k = s.answers w k →
      (∃ target, (s'.sys.workers w).history k = (s.sys.workers w).history k ++ [.completed target m]) →
      ((s.sys.workers w).current.fields.isWrite = false → ∀ a turn,
        (s.sys.workers w).current.fields.u = .stream a turn → s'.descs a.stream = s.copyOf w k) →
      StreamStep d s s' j w k
  | copies : (s.sys.streams j).commands = .copy :: (s'.sys.streams j).commands →
      s'.mem = bounceKernel (s.descs j) s.mem → s'.disk = s.disk → s'.descs = s.descs →
      s'.answers w k = s.answers w k →
      (s'.sys.workers w).history k = (s.sys.workers w).history k → StreamStep d s s' j w k

/-! ## Steps outside of the reading -/

/-- A step that leaves a worker and its operations alone. -/
theorem Unmoved.of_same (mem : s'.mem = s.mem) (disk : s'.disk = s.disk) (descs : s'.descs = s.descs)
    (worker : s'.sys.workers w = s.sys.workers w) (ops : s'.ops w = s.ops w)
    (answers : s'.answers w = s.answers w) : Unmoved s s' w k := by
  refine ⟨mem, disk, descs, by rw [answers], fun e longer => ?_, fun _ _ => ?_⟩
  · rw [worker] at longer
    exact absurd (congrArg List.length longer) (by simp)
  · rw [worker, ops]
    exact ⟨rfl, rfl⟩

/-- A step of a thread is quiet. -/
theorem unmoved_of_undisturbed (engine : EngineInv s.sys)
    (same : Undisturbed (s.sys.offer w) (s.sys.workers w) (s'.sys.workers w)) (mem : s'.mem = s.mem)
    (disk : s'.disk = s.disk) (descs : s'.descs = s.descs) (ops : s'.ops = s.ops)
    (answers : s'.answers = s.answers) : Unmoved s s' w k := by
  refine ⟨mem, disk, descs, by rw [answers], fun e longer => ?_, fun reporting lt => ⟨?_, by rw [ops]⟩⟩
  · rw [IoWorker.history, same.log, ← IoWorker.history] at longer
    exact absurd (congrArg List.length longer) (by simp)
  · obtain ⟨here, -, m, pc⟩ := reporting
    obtain ⟨marks, queue⟩ := engine.queues w
    have onOp : (s.sys.workers w).pc.onOp = true := by
      rcases pc with pc | pc <;> rw [pc] <;> rfl
    obtain ⟨-, -, low, -, -⟩ := queue.place onOp
    rw [← here, current_id queue onOp]
    rw [← here, current_id queue onOp] at lt
    exact same.opAt marks queue _ low lt

/-- A quiet step of a worker releases nothing. -/
theorem QuietChoice.pc_ne_release {c : Choice} {sys : System n ι} (quiet : QuietChoice s v c)
    (step : s.sys.workerStep v c = some sys) (m : Int) : (s.sys.workers v).pc ≠ .release m := by
  intro pc
  rcases quiet with ⟨rfl, early⟩ | ⟨rfl, -⟩
  · exact early m pc
  · simp [System.workerStep, IoWorker.act, pc] at step

/-- A quiet step of a worker is quiet. -/
theorem QuietChoice.unmoved {c : Choice} {sys : System n ι} (quiet : QuietChoice s w c)
    (outside : (s.sys.workers w).pc ≠ .submit) (step : s.sys.workerStep w c = some sys) :
    Unmoved s { s with sys := sys } w k := by
  obtain ⟨event, worker, moves, same, -⟩ := quiet.effect outside step
  have early := quiet.pc_ne_release step
  obtain ⟨-, -, workers, -⟩ := (s.sys.setWorker w (worker.record event)).apply_frame event
  have here : sys.workers w = worker.record event := by
    rw [same, workers]
    exact Function.update_self ..
  have about : About s { s with sys := sys } w event := about_of_effect moves here
  refine ⟨rfl, rfl, rfl, rfl, fun e longer => ?_, fun reporting lt => ⟨?_, rfl⟩⟩
  · rw [about.history] at longer
    have happened := List.append_cancel_left longer
    cases moves with
    | complete m pc => exact absurd pc (early m)
    | _ =>
        first
          | cases happened
          | (simp only [Option.toList_some, List.filter_cons, List.filter_nil] at happened
             split at happened
             all_goals cases happened
             rfl)
  · obtain ⟨-, -, m, pc⟩ := reporting
    have pc := pc.resolve_right (early m)
    have still : worker.opAt k = (s.sys.workers w).opAt k := by
      cases moves <;> first | rfl | simp_all
    change (sys.workers w).opAt k = _
    rw [here]
    exact still

/-! ## Every step -/

theorem Sole.of_reading (sole : Sole s.sys w k) {i : Nat} (reading : Reading s v i) : v = w ∧ i = k :=
  sole v i reading.inService

/-- The operation that a worker writes or releases is in service. -/
theorem inService_current (engine : EngineInv s.sys)
    (pc : (s.sys.workers v).pc = .pwrite ∨ ∃ m, (s.sys.workers v).pc = .release m) :
    s.sys.InService v (s.sys.workers v).current.id := by
  obtain ⟨marks, queue⟩ := engine.queues v
  have onOp : (s.sys.workers v).pc.onOp = true := by rcases pc with pc | ⟨m, pc⟩ <;> rw [pc] <;> rfl
  have late : (s.sys.workers v).pc.late = true := by rcases pc with pc | ⟨m, pc⟩ <;> rw [pc] <;> rfl
  obtain ⟨-, -, low, lt, -⟩ := queue.place onOp
  obtain ⟨stage, lived, shows⟩ := queue.lives.live marks.i lt low
  rw [IoWorker.Shows, if_pos ⟨late, rfl⟩] at shows
  rw [current_id queue onOp]
  refine inService_of_stage lived ?_
  rcases pc with pc | ⟨m, pc⟩ <;> rw [pc] at shows <;> cases stage <;> first | rfl | exact shows.elim

/-- A read that is dispatched is planned as the worker is told. -/
theorem IoState.workerStep_unplanned {c : IoChoice} (pc : (s.sys.workers v).pc = .submit)
    (unplanned : s.submission v = none) (step : s.workerStep d v c = some s') :
    ∃ cells getExtents, c = .resolved cells getExtents ∧
      s' = s.proceed d v (.resolved cells getExtents)
        (.begin d { obliging s.disk with getExtents := getExtents }
          (s.requested v (slotOf (s.sys.workers v).i) cells)) := by
  cases c with
  | resolved cells getExtents =>
      simp only [IoState.workerStep, pc, unplanned, Option.isNone_none, if_true] at step
      exact ⟨cells, getExtents, rfl, (Option.some.inj step).symm⟩
  | _ => simp [IoState.workerStep, pc, unplanned] at step

/-- The descriptor of a stream read is that of its stream. -/
theorem view_desc {slot : Fin queueSize} {a : FileOpStream}
    (args : ((s.sys.workers w).fileOpQueue slot).fields.u = .stream a turn) :
    (s.view w slot).desc = s.descs a.stream := by
  simp only [IoState.view, args]

/-- The plan of a read moves no bytes. -/
theorem begin_mem (dev : Device) (st : ReadState) : (ReadTask.begin d dev st).st.mem = st.mem := by
  unfold ReadTask.begin
  simp only
  split <;> rfl

/-- The descriptor past an answer. -/
theorem proceed_desc {a : Answer} {task : ReadTask} {args : FileOpStream}
    (stream : (s.sys.workers w).current.fields.u = .stream args turn) :
    ((s.proceed d w a task).view w (slotOf (s.sys.workers w).i)).desc = task.st.desc := by
  have slot := @proceed_slot n ι d s w a task (slotOf (s.sys.workers w).i)
  rw [if_pos rfl] at slot
  have stream' : ((s.sys.workers w).fileOpQueue (slotOf (s.sys.workers w).i)).fields.u =
      .stream args turn := stream
  have kept : (((s.proceed d w a task).sys.workers w).fileOpQueue (slotOf (s.sys.workers w).i)).fields.u =
      .stream args turn := by
    rw [slot]
    exact stream
  rw [view_desc kept]
  simp only [IoState.proceed, IoState.tell, IoState.storeData, stream', Function.update_self]

/-- What the worker is at is an operation of the stream. -/
theorem StreamOnly.current_stream (only : StreamOnly d s j) (onOp : (s.sys.workers v).pc.onOp = true) :
    ∃ a turn, (s.sys.workers v).current.fields.u = .stream a turn ∧ a.stream = j := by
  obtain ⟨marks, queue⟩ := only.served.inv.engine.queues v
  obtain ⟨at', -, low, lt, -⟩ := queue.place onOp
  obtain ⟨-, fields⟩ := queue.slots.window marks.i lt low
  have on := only.one.published v _ (List.getElem_mem lt)
  rw [at', fields]
  cases args : (s.sys.workers v).published[marks.i].u with
  | async a =>
      rw [OpFields.OnStream, OpFields.ticket, args] at on
      cases on
  | stream a turn => exact ⟨a, turn, rfl, on.stream_eq args⟩

/-- A step of the engine's worker is about the operation of its event. -/
theorem about_of_act {c : Choice} {sys : System n ι} {worker : IoWorker} {event : Option (Nat × OpEvent)}
    (step : s.sys.workerStep v c = some sys) (same : s'.sys = sys)
    (act : (s.sys.workers v).act (fun i => (s.sys.streams i).gate) s.sys.stop c = some (worker, event)) :
    About s s' v event := by
  obtain ⟨worker', event', act', workers⟩ := engineWorker_of_step step
  obtain ⟨rfl, rfl⟩ := Prod.mk.inj (Option.some.inj (act.symm.trans act'))
  refine about_of_effect (IoWorker.act_effect act) ?_
  rw [same, workers]
  exact Function.update_self ..

theorem arrive_fields (op : QueuedOp) (callback : Callback) (nbytes : Nat) (ok : Bool) :
    (op.arrive callback nbytes ok).fields = op.fields := by
  cases callback with
  | chunk => cases ok <;> rfl
  | bounce =>
      simp only [QueuedOp.arrive, QueuedOp.bounceCb]
      split <;> rfl

/-- Views that differ in nothing but their bytes, with the same bytes. -/
theorem SameView.eq {st st' : ReadState} (same : SameView st st') (mem : st'.mem = st.mem)
    (desc : st'.desc = st.desc) : st' = st := by
  obtain ⟨op, issued, inflight⟩ := same
  cases st
  cases st'
  cases op
  cases issued
  cases inflight
  cases mem
  cases desc
  rfl

/-- A step of a worker, for the operation in service. -/
theorem StreamOnly.streamStep_worker {c : IoChoice} (only : StreamOnly d s j) (sole : Sole s.sys w k)
    (laid : ∀ cells getExtents, c = .resolved cells getExtents →
      ∀ i extents, getExtents i = .ok extents → Layout d extents)
    (step : s.workerStep d v c = some s') : StreamStep d s s' j w k := by
  have inv := only.served.inv
  obtain ⟨marks, queue⟩ := inv.engine.queues v
  by_cases fresh : (s.sys.workers v).pc = .submit ∧ s.submission v = none
  · obtain ⟨pc, unplanned⟩ := fresh
    obtain ⟨cells, getExtents, rfl, rfl⟩ := IoState.workerStep_unplanned pc unplanned step
    obtain ⟨rfl, rfl⟩ := sole.of_reading (reading_current queue (.inl pc))
    obtain ⟨args, turn, stream, -⟩ := only.current_stream (v := v) (by rw [pc]; rfl)
    have slot := slotAt_current queue (by rw [pc]; rfl)
    have plans := began_plans (d := d) inv cells getExtents pc unplanned
    refine .plans cells getExtents plans (laid cells getExtents rfl) rfl (plans.view.eq ?_ ?_)
    · rw [begin_mem]
      exact plans.mem
    · rw [slot]
      exact proceed_desc stream
  have effect := IoState.workerStep_effect step
  have whole := effect
  cases effect with
  | quiet c sys outside quiet engine =>
      by_cases here : w = v
      · subst here
        exact .unmoved (quiet.unmoved outside engine)
      · obtain ⟨worker, -, ops, -, answers⟩ := whole.others (inv.workers v) here
        exact .unmoved (.of_same rfl rfl rfl worker ops answers)
  | began cells getExtents pc unplanned => exact absurd ⟨pc, unplanned⟩ fresh
  | told sub c a task pc submitting answers told =>
      obtain ⟨rfl, rfl⟩ := sole.of_reading (reading_current queue (.inl pc))
      obtain ⟨args, turn, stream, -⟩ := only.current_stream (v := v) (by rw [pc]; rfl)
      have tells := told_tells inv pc submitting answers told
      refine .tells a task.st tells rfl (tells.view.eq tells.mem ?_)
      rw [slotAt_current queue (by rw [pc]; rfl)]
      exact proceed_desc stream
  | arrived x command ok sys pokes there engine =>
      have tells : Tells d s { s.tell v x.id (.arrived x.place ok) with
          sys := sys
          wires := Function.update s.wires v ((s.wires v).eraseIdx command)
          mem := if ok then
              s.mem.blit x.cmd.dst (ReadState.commandBytes d x.cmd)
                (ReadState.commandData d (obliging s.disk) x.cmd)
            else s.mem } v x.id (.arrived x.place ok) (ReadState.complete d
              { obliging s.disk with succeeds := fun _ => ok } (s.view v x.slot) x.place) :=
        arrive_tells only.served.logs inv pokes there engine rfl rfl rfl rfl rfl rfl
      obtain ⟨-, -, slot, -⟩ := wire_id (inv.workers v) queue (List.mem_of_getElem? there)
      obtain ⟨rfl, rfl⟩ := sole.of_reading tells.reading
      refine .tells _ _ tells rfl (tells.view.eq tells.mem ?_)
      rw [(complete_frame d _ _ _).desc, ← slot]
      have fields := (arrive_slot (inv.workers v) there engine).1 x.slot
      rw [if_pos rfl] at fields
      have same : ((sys.workers v).fileOpQueue x.slot).fields.u =
          ((s.sys.workers v).fileOpQueue x.slot).fields.u := by
        rw [fields, arrive_fields]
      simp only [IoState.view, IoState.tell, same]
  | wrote ret disk sys pc engine =>
      obtain ⟨rfl, rfl⟩ := sole v _ (inService_current inv.engine (.inl pc))
      have about : About s { s with sys := sys, disk := disk } v
          (some ((s.sys.workers v).current.id, .wrote ret)) :=
        about_of_act engine rfl (by simp only [IoWorker.act, pc]; rfl)
      exact .wrote ret about.here
  | reaped ok sys pc chunks bounces engine =>
      obtain ⟨rfl, rfl⟩ := sole.of_reading (reading_current queue (.inr pc))
      obtain ⟨copied, reaps⟩ : ∃ copied, Reaps d s { s.tell v (s.sys.workers v).current.id (.copies ok) with
          sys := sys
          mem := (completeReadOp { obliging s.disk with copies := ok }
            (s.view v (slotOf (s.sys.workers v).i))).mem } v (s.sys.workers v).current.id ok copied :=
        reap_reaps inv pc chunks bounces engine rfl rfl rfl
      refine .reaps ok copied reaps rfl rfl ?_ rfl
      change (sys.workers v).opAt _ = _
      rw [reap_worker pc chunks bounces engine]
      rfl
  | released m sys pc engine =>
      obtain ⟨rfl, rfl⟩ := sole v _ (inService_current inv.engine (.inr ⟨m, pc⟩))
      have about : About s { s with sys := sys, descs := s.described v } v
          (some ((s.sys.workers v).current.id, .completed (s.sys.workers v).current.fields.target m)) :=
        about_of_act engine rfl (by simp only [IoWorker.act, pc]; rfl)
      refine .completes m rfl rfl ⟨_, about.here⟩ fun read a turn stream => ?_
      have slot := slotAt_current queue (by rw [pc]; rfl)
      simp only [IoState.described, read, stream, Function.update_self, IoState.copyOf, slot]

/-- A step of a stream, for the operation in service. -/
theorem StreamOnly.streamStep_gpu {i : Nat} (only : StreamOnly d s j) (step : s.gpuStep i = some s') :
    StreamStep d s s' j w k := by
  obtain ⟨sys, engine, rfl⟩ := Option.map_eq_some_iff.mp step
  have effect := System.gpuStep_effect engine
  obtain ⟨-, -, workers, -⟩ := effect.frame
  by_cases here : i = j
  · subst here
    -- Only a copy moves bytes.
    have still : ∀ {mem : Memory Space UInt8}, mem = s.mem →
        StreamStep d s { s with sys := sys, mem := mem } i w k :=
      fun same => .unmoved (.of_same same rfl rfl (by rw [workers]) rfl rfl)
    cases effect with
    | write turn rest front => exact still (by rw [front])
    | wait turn rest front => exact still (by rw [front])
    | park v slot rest a turn front => exact still (by rw [front])
    | spin target turn rest front => exact still (by rw [front])
    | copy rest front =>
        refine .copies ?_ ?_ rfl rfl rfl rfl
        · simp only [System.setStream, Function.update_self]
          exact front
        · rw [front]
  · simp only [System.gpuStep, only.one.streams i here, reduceCtorEq] at engine

section Labels

variable [DecidableEq ι] [NeZero n] {l : IoLabel n ι}

/-- **Every step is one of the operation in service**, or the stream runs a copy. -/
theorem StreamOnly.streamStep (only : StreamOnly d s j) (sole : Sole s.sys w k) (on : l.OnStream d j)
    (step : (io d).step s l = some s') : StreamStep d s s' j w k := by
  have inv := only.served.inv
  cases l with
  | thread t act =>
      obtain ⟨sys, engine, rfl⟩ := Option.map_eq_some_iff.mp step
      have effect := System.threadStep_effect engine
      exact .unmoved (unmoved_of_undisturbed inv.engine (undisturbed_of_effect inv.engine effect w) rfl rfl rfl
        rfl rfl)
  | worker v c =>
      refine only.streamStep_worker sole ?_ step
      rintro cells getExtents rfl
      exact on
  | gpu i => exact only.streamStep_gpu step
  | stop =>
      cases step
      exact .unmoved (.of_same rfl rfl rfl rfl rfl rfl)

end Labels

end OpenDS.DataPath
