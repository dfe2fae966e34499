import OpenDS.DataPath.Completion

/-!
# Every read of the engine is a read alone

Between its dispatch and its completion a read of the engine is where a read alone is
that has been told the same, whatever other reads are served meanwhile, in the same
queue or by other workers: it has issued the same commands, the same of them are
outstanding, and it comes to the same result. What they differ in are the bytes.
-/

set_option autoImplicit false

namespace OpenDS.DataPath

open OpenDS.Library (Machine Memory Ptr)
open OpenDS.Aisio OpenDS.Engine

variable {n : Nat} {ι : Type} {d : Driver} {s s' : IoState n ι} {w v : Fin n} {k : Nat}
  {f : OpFields}

/-! ## Reads alone -/

/-- A read as its submitter publishes it, in a slot that has no bounce buffer yet. -/
def aloneRead (f : OpFields) (mem : Memory Space UInt8) (desc : BounceCopy) : ReadState where
  op :=
    { mode := modeOf f.u
      state := .pending
      bufBase := f.bufBase
      size := (requestOf f.u ⟨0, 0, 0⟩).size
      fileOffset := (requestOf f.u ⟨0, 0, 0⟩).fileOffset
      bufOffset := (requestOf f.u ⟨0, 0, 0⟩).bufOffset
      chunksRemaining := 0
      bouncesOutstanding := 0
      bytesAcc := 0
      err := none
      bounces := []
      bounceBuf := none
      result := none }
  issued := []
  inflight := []
  mem := mem
  desc := desc

/-- The read is where a read alone is that has been told the same. -/
def Follows (d : Driver) (s : IoState n ι) (w : Fin n) (k : Nat) (f : OpFields) : Prop :=
  ∀ disk mem desc, ∃ st,
    (readAlone d disk).run (s.answers w k) ⟨aloneRead f mem desc, none⟩ =
        some ⟨st, s.planOf w k⟩ ∧
      Alike (s.view w (slotAt k)) st ∧ st.op.mode = (s.view w (slotAt k)).op.mode

/-- A read alone that has been told the same has come to the result. -/
def Finishes (d : Driver) (s : IoState n ι) (w : Fin n) (k : Nat) (f : OpFields) (result : Int) :
    Prop :=
  ∀ disk mem desc, ∃ st,
    (readAlone d disk).run (s.answers w k) ⟨aloneRead f mem desc, none⟩ = some ⟨st, none⟩ ∧
      st.op.state = .free ∧ st.op.result = some result

/-- What has become of an operation at a stage of its life. -/
def Standing (d : Driver) (s : IoState n ι) (w : Fin n) (k : Nat) (f : OpFields) : Stage → Prop
  | .waiting => s.answers w k = []
  | .writing => f.isWrite = true ∧ s.answers w k = []
  | .reading _ _ => Fresh s w k ∧ s.answers w k = [] ∨
    ¬ Fresh s w k ∧ Follows d s w k f ∧ TaskInv d ⟨s.view w (slotAt k), s.planOf w k⟩
  | .reported m => f.isWrite = true ∨ Finishes d s w k f m
  | .stored m => f.isWrite = true ∨ Finishes d s w k f m
  | .completed m => f.isWrite = true ∨ Finishes d s w k f m

/-- **What holds of the operations at any time.** -/
structure Tasks (d : Driver) (s : IoState n ι) : Prop where
  standing : ∀ w k (lt : k < (s.sys.workers w).published.length) stage,
    (s.sys.workers w).published[k].life.run ((s.sys.workers w).history k) .waiting = some stage →
    Standing d s w k (s.sys.workers w).published[k] stage
  unpublished : ∀ w k, (s.sys.workers w).published.length ≤ k → s.answers w k = []

/-! ## Frames -/

theorem SameView.alike {st st' twin : ReadState} (same : SameView st st') (alike : Alike st twin) :
    Alike st' twin := by
  refine ⟨?_, ?_, ?_⟩
  · rw [ReadState.twin, same.op, same.issued, same.inflight]
    exact alike.twin
  · rw [same.op]
    exact alike.mode
  · rw [same.op]
    exact alike.buffer

theorem SameView.taskInv {st st' : ReadState} {sub : Option Submission} (same : SameView st st')
    (inv : TaskInv d ⟨st, sub⟩) : TaskInv d ⟨st', sub⟩ := by
  obtain ⟨fresh, active, logged, nodup, issued, bounces, todo⟩ := inv
  refine ⟨?_, ?_, ?_, ?_, ?_, fun state slot member => ?_, ?_⟩
  · simp only [same.op, same.issued, same.inflight]
    exact fresh
  · simp only [same.op]
    exact active
  · simp only [same.issued, same.inflight]
    exact logged
  · simp only [same.inflight]
    exact nodup
  · simp only [same.op, same.issued]
    exact issued
  · simp only [same.op] at state member
    obtain ⟨dst, src⟩ := bounces state slot member
    exact ⟨by simp only [same.op]; exact dst, by simp only [same.issued]; exact src⟩
  · simp only [same.op]
    exact todo

theorem Finishes.congr {m : Int} (answers : s'.answers v k = s.answers v k)
    (finishes : Finishes d s v k f m) : Finishes d s' v k f m := by
  rw [Finishes, answers]
  exact finishes

/-- An operation stands where it stood if the step is about others. -/
theorem Standing.frame {stage : Stage} (standing : Standing d s v k f stage)
    (answers : s'.answers v k = s.answers v k)
    (reads : ∀ b e, stage = .reading b e → Elsewhere s s' v k) : Standing d s' v k f stage := by
  cases stage with
  | waiting =>
      rw [Standing, answers]
      exact standing
  | writing =>
      rw [Standing, answers]
      exact standing
  | reading b e =>
      have elsewhere := reads b e rfl
      refine standing.imp (fun at' => ?_) fun at' =>
        ⟨fun fresh => at'.1 (elsewhere.fresh.mp fresh), ?_, ?_⟩
      · rw [answers]
        exact ⟨elsewhere.fresh.mpr at'.1, at'.2⟩
      · intro disk mem desc
        obtain ⟨st, ran, alike, mode⟩ := at'.2.1 disk mem desc
        refine ⟨st, ?_, elsewhere.view.alike alike, ?_⟩
        · rw [answers, elsewhere.plan]
          exact ran
        · rw [elsewhere.view.op]
          exact mode
      · rw [elsewhere.plan]
        exact elsewhere.view.taskInv at'.2.2
  | reported m => exact standing.imp_right (·.congr answers)
  | stored m => exact standing.imp_right (·.congr answers)
  | completed m => exact standing.imp_right (·.congr answers)

/-! ## Steps -/

/-- A dispatch, a write and a report take an operation where its life goes. -/
theorem Standing.outer {stage stage' : Stage} {e : OpEvent}
    (standing : Standing d s w k f stage) (step : f.life.step stage e = some stage')
    (answers : s'.answers w k = s.answers w k) (outer : Outer e)
    (begins : e = .dispatched → f.isWrite = false → Fresh s' w k) : Standing d s' w k f stage' := by
  cases stage with
  | waiting =>
      cases e with
      | dispatched =>
          cases step
          have none : s'.answers w k = [] := answers.trans standing
          cases write : f.isWrite with
          | true => exact ⟨write, none⟩
          | false => exact .inl ⟨begins rfl write, none⟩
      | _ => cases step
  | writing =>
      cases e with
      | wrote ret =>
          cases step
          exact .inl standing.1
      | _ => cases step
  | reading b err => cases e <;> first | exact outer.elim | cases step
  | reported m =>
      cases e with
      | stored target m' =>
          simp only [OpFields.life] at step
          split at step
          · cases step
            exact standing.imp_right (·.congr answers)
          · cases step
      | _ => cases step
  | stored m =>
      cases e with
      | completed target m' =>
          simp only [OpFields.life] at step
          split at step
          · cases step
            exact standing.imp_right (·.congr answers)
          · cases step
      | _ => cases step
  | completed m => cases e <;> cases step

/-- The read in a slot and the same read alone are dispatched alike. -/
theorem dispatched_alone {slot : Fin queueSize} {cells : Request}
    (fields : ((s.sys.workers w).fileOpQueue slot).fields = f)
    (idle : ∀ x ∈ s.wires w, x.slot ≠ slot) (mem : Memory Space UInt8) (desc : BounceCopy) :
    dispatched ((aloneRead f mem desc).ask cells) =
      (dispatched (s.requested w slot cells)).twin (modeOf f.u) none mem desc := by
  subst fields
  cases u : ((s.sys.workers w).fileOpQueue slot).fields.u with
  | async a =>
      simpa [dispatched, ReadState.ask, aloneRead, ReadState.twin, modeOf, requestOf,
        IoState.requested, IoState.view, u] using idle
  | stream a turn =>
      simpa [dispatched, ReadState.ask, aloneRead, ReadState.twin, modeOf, requestOf,
        IoState.requested, IoState.view, u] using idle

/-- Reads that are dispatched alike are planned alike. -/
theorem begin_alone {dev dev' : Device} (same : dev'.getExtents = dev.getExtents) {st st' : ReadState}
    {mode : FileOpMode} {buf : Option Nat} {mem : Memory Space UInt8} {desc : BounceCopy}
    (alone : dispatched st' = (dispatched st).twin mode buf mem desc) :
    ReadTask.begin d dev' st' =
      ⟨(ReadTask.begin d dev st).st.twin mode buf mem desc, (ReadTask.begin d dev st).sub⟩ := by
  have plan : planRead d dev' (dispatched st').op = planRead d dev (dispatched st).op := by
    rw [alone]
    exact planRead_congr same rfl rfl rfl
  unfold ReadTask.begin
  simp only [plan]
  rw [alone]
  cases planRead d dev (dispatched st).op <;> rfl

/-- A read alone that is told what to plan, as the engine plans it. -/
theorem Plans.alone {cells : Request} {getExtents : Nat → Except Int (List Extent)}
    (plans : Plans d s s' w k cells getExtents) (untold : s.answers w k = [])
    (fields : ((s.sys.workers w).fileOpQueue (slotAt k)).fields = f)
    (disk : Nat → Nat → UInt8) (mem : Memory Space UInt8) (desc : BounceCopy) :
    (readAlone d disk).run (s'.answers w k) ⟨aloneRead f mem desc, none⟩ =
      some ⟨(ReadTask.begin d { obliging s.disk with getExtents := getExtents }
        (s.requested w (slotAt k) cells)).st.twin (modeOf f.u) none mem desc, s'.planOf w k⟩ := by
  have alone := @dispatched_alone n ι s w f _ cells fields plans.idle mem desc
  have planned := @begin_alone d { obliging s.disk with getExtents := getExtents }
    { obliging disk with getExtents := getExtents } rfl _ _ _ _ _ _ alone
  have stepped : (readAlone d disk).step ⟨aloneRead f mem desc, none⟩
      (.resolved cells getExtents) = some (ReadTask.begin d
        { obliging disk with getExtents := getExtents } ((aloneRead f mem desc).ask cells)) := rfl
  rw [plans.answers, untold, plans.plan, ← planned]
  exact Machine.run_snoc rfl stepped

/-- **A read that is planned is where a read alone is that is planned.** -/
theorem Standing.plans (power : d.lbaSize = 2 ^ d.lbaShift) {cells : Request}
    {getExtents : Nat → Except Int (List Extent)} (plans : Plans d s s' w k cells getExtents)
    (untold : s.answers w k = [])
    (fields : ((s.sys.workers w).fileOpQueue (slotAt k)).fields = f) :
    Follows d s' w k f ∧ TaskInv d ⟨s'.view w (slotAt k), s'.planOf w k⟩ := by
  have mode : modeOf f.u = (ReadTask.begin d { obliging s.disk with getExtents := getExtents }
      (s.requested w (slotAt k) cells)).st.op.mode := by
    rw [(begin_frame _ _).1, ← fields]
    rfl
  refine ⟨fun disk mem desc => ⟨_, plans.alone untold fields disk mem desc, ?_, ?_⟩, ?_⟩
  · exact plans.view.alike (.of_twin (.inl mode) (.inl rfl))
  · rw [plans.view.op]
    exact mode
  · have inflight : (s.requested w (slotAt k) cells).inflight = [] := by
      simp only [IoState.requested, IoState.view]
      rw [List.filter_eq_nil_iff.mpr fun x member => by simp [plans.idle x member], List.map_nil]
    rw [plans.plan]
    exact plans.view.taskInv (TaskInv.begin power _ rfl inflight)

/-- A read alone that is told an answer does as the engine. -/
theorem Tells.alone {a : Answer} {st : ReadState} (tells : Tells d s s' w k a st)
    {twin : ReadState} (alike : Alike (s.view w (slotAt k)) twin)
    (mode : twin.op.mode = (s.view w (slotAt k)).op.mode) (disk : Nat → Nat → UInt8) :
    ∃ twin', (readAlone d disk).step ⟨twin, s.planOf w k⟩ a = some ⟨twin', s'.planOf w k⟩ ∧
      Alike st twin' ∧ twin'.op.mode = twin.op.mode :=
  alike.step tells.effect tells.asks (.inl mode)

/-- The mode of a read that goes on. -/
theorem Tells.mode {a : Answer} {st : ReadState} (tells : Tells d s s' w k a st) :
    st.op.mode = (s.view w (slotAt k)).op.mode :=
  tells.effect.mode_eq

/-- **A read that is told an answer is where a read alone is that is told it.** -/
theorem Standing.tells (power : d.lbaSize = 2 ^ d.lbaShift) {a : Answer} {st : ReadState}
    (tells : Tells d s s' w k a st) (follows : Follows d s w k f)
    (inv : TaskInv d ⟨s.view w (slotAt k), s.planOf w k⟩) :
    Follows d s' w k f ∧ TaskInv d ⟨s'.view w (slotAt k), s'.planOf w k⟩ := by
  refine ⟨fun disk mem desc => ?_, tells.view.taskInv (inv.step power tells.effect)⟩
  obtain ⟨twin, ran, alike, mode⟩ := follows disk mem desc
  obtain ⟨twin', stepped, alike', mode'⟩ := tells.alone alike mode disk
  refine ⟨twin', ?_, tells.view.alike alike', ?_⟩
  · rw [tells.answers]
    exact Machine.run_snoc ran stepped
  · rw [mode', mode, tells.view.op, tells.mode]

/-- A read alone that is told to copy does as the engine. -/
theorem Reaps.alone {ok : Nat → Bool} {copied : Bool} (reaps : Reaps d s s' w k ok copied)
    {twin : ReadState} (alike : Alike (s.view w (slotAt k)) twin)
    (mode : twin.op.mode = (s.view w (slotAt k)).op.mode) (disk : Nat → Nat → UInt8) :
    ∃ twin', (readAlone d disk).step ⟨twin, none⟩ (.copies ok) = some ⟨twin', none⟩ ∧
      Alike (completeReadOp { obliging s.disk with copies := ok } (s.view w (slotAt k))) twin' ∧
        twin'.op.mode = twin.op.mode :=
  alike.step reaps.effect (fun alloc enters => by cases enters) (.inl mode)

/-- **A read that is reaped comes to the result of a read alone.** -/
theorem Standing.reaps {ok : Nat → Bool} {copied : Bool} (reaps : Reaps d s s' w k ok copied)
    (follows : Follows d s w k f) {m : Int}
    (result : (completeReadOp { obliging s.disk with copies := ok } (s.view w (slotAt k))).op.result =
      some m) : Finishes d s' w k f m := by
  intro disk mem desc
  obtain ⟨twin, ran, alike, mode⟩ := follows disk mem desc
  rw [reaps.plan] at ran
  obtain ⟨twin', stepped, alike', -⟩ := reaps.alone alike mode disk
  obtain ⟨r, op⟩ := completeReadOp_op { obliging s.disk with copies := ok } (s.view w (slotAt k))
  refine ⟨twin', ?_, ?_, ?_⟩
  · rw [reaps.answers]
    exact Machine.run_snoc ran stepped
  · rw [alike'.twin]
    exact congrArg FileOp.state op
  · rw [alike'.twin]
    exact result

/-- The fields of an operation that is being read are those published. -/
theorem Reading.fields (inv : IoInv s) (reading : Reading s w k)
    (lt : k < (s.sys.workers w).published.length) :
    ((s.sys.workers w).fileOpQueue (slotAt k)).fields = (s.sys.workers w).published[k] := by
  obtain ⟨lt', b, e, lived⟩ := reading
  obtain ⟨m, queue⟩ := inv.engine.queues w
  obtain ⟨low, -⟩ := window_of_reading queue lt' lived
  exact (queue.slots.window k lt low).2

/-- A read that goes on stays in its reading. -/
theorem reading_of_inner {events : List OpEvent} (inner : Inner events) {b : Nat} {e : Option OpError}
    {stage : Stage} (lived : f.life.run events (.reading b e) = some stage) :
    ∃ b' e', stage = .reading b' e' := by
  obtain ⟨b', e', ran⟩ := inner f b e
  exact ⟨b', e', Option.some.inj (lived.symm.trans ran)⟩

/-- **Every step keeps an operation on its way.** -/
theorem Standing.step (power : d.lbaSize = 2 ^ d.lbaShift) (inv : IoInv s)
    (standing : ∀ stage, f.life.run ((s.sys.workers w).history k) .waiting = some stage →
      Standing d s w k f stage)
    (lt : k < (s.sys.workers w).published.length) (own : (s.sys.workers w).published[k] = f)
    (affects : Affects d s s' w k) {stage : Stage}
    (lived : f.life.run ((s'.sys.workers w).history k) .waiting = some stage) :
    Standing d s' w k f stage := by
  -- What has happened before is a life, which an operation that is read is reading in.
  have before : ∀ events, (s'.sys.workers w).history k = (s.sys.workers w).history k ++ events →
      ∃ stage₀, f.life.run ((s.sys.workers w).history k) .waiting = some stage₀ ∧
        f.life.run events stage₀ = some stage := by
    intro events history
    rw [history, Machine.run_append] at lived
    exact Option.bind_eq_some_iff.mp lived
  have reads : Reading s w k → ∀ stage₀,
      f.life.run ((s.sys.workers w).history k) .waiting = some stage₀ →
      ∃ b e, stage₀ = .reading b e := by
    rintro ⟨lt', b, e, reading⟩ stage₀ lived₀
    rw [own, lived₀] at reading
    exact ⟨b, e, Option.some.inj reading⟩
  cases affects with
  | skips history answers reads =>
      rw [history] at lived
      refine (standing stage lived).frame answers fun b e same => reads ?_
      subst same
      exact ⟨lt, b, e, by rw [own]; exact lived⟩
  | outer e lt' history answers outer begins =>
      rw [history] at lived
      obtain ⟨stage₀, lived₀, step⟩ := Machine.exists_of_run_snoc lived
      refine (standing stage₀ lived₀).outer step answers outer
        fun dispatch read => begins dispatch ?_
      rw [own]
      exact read
  | plans cells getExtents plans =>
      obtain ⟨events, history, inner⟩ := plans.history
      obtain ⟨stage₀, lived₀, ran⟩ := before _ history
      obtain ⟨b, e, rfl⟩ := reads plans.reading stage₀ lived₀
      obtain ⟨b', e', rfl⟩ := reading_of_inner inner ran
      obtain ⟨-, untold⟩ := (standing _ lived₀).resolve_right fun at' => at'.1 plans.fresh
      have fields := plans.reading.fields inv lt
      rw [own] at fields
      exact .inr ⟨plans.planned, Standing.plans power plans untold fields⟩
  | tells a st tells =>
      obtain ⟨events, history, inner⟩ := tells.history
      obtain ⟨stage₀, lived₀, ran⟩ := before _ history
      obtain ⟨b, e, rfl⟩ := reads tells.reading stage₀ lived₀
      obtain ⟨b', e', rfl⟩ := reading_of_inner inner ran
      obtain ⟨-, follows, taskInv⟩ := (standing _ lived₀).resolve_left fun at' => tells.before at'.1
      exact .inr ⟨tells.planned, Standing.tells power tells follows taskInv⟩
  | reaps ok copied reaps =>
      obtain ⟨stage₀, lived₀, ran⟩ := before _ reaps.history
      obtain ⟨b, e, rfl⟩ := reads reaps.reading stage₀ lived₀
      obtain ⟨-, follows, -⟩ := (standing _ lived₀).resolve_left fun at' => reaps.before at'.1
      cases ran
      subst own
      exact .inr (Standing.reaps reaps follows (reaps.result lt b e lived₀))

/-! ## Runs -/

theorem Tasks.start (futures : Nat → Future) (bytesRead : Nat → Int) (mem : Memory Space UInt8)
    (disk : Nat → Nat → UInt8) : Tasks d (ioSetup n ι futures bytesRead mem disk) where
  standing _ k lt := absurd lt (Nat.not_lt_zero k)
  unpublished _ _ _ := rfl

theorem Wires.start (futures : Nat → Future) (bytesRead : Nat → Int) (mem : Memory Space UInt8)
    (disk : Nat → Nat → UInt8) : Wires d (ioSetup n ι futures bytesRead mem disk) where
  logged _ _ member := by cases member
  places _ _ := List.nodup_nil

/-- Nothing happens to an operation before it is published. -/
theorem history_of_unpublished (engine : EngineInv s.sys)
    (past : (s.sys.workers w).published.length ≤ k) : (s.sys.workers w).history k = [] := by
  obtain ⟨m, queue⟩ := engine.queues w
  exact queue.lives.history_nil past

/-- Nothing happens to an operation that is not published. -/
theorem Affects.unpublished (affects : Affects d s s' w k)
    (past : (s.sys.workers w).published.length ≤ k) :
    (s'.sys.workers w).history k = (s.sys.workers w).history k ∧ s'.answers w k = s.answers w k := by
  have reads : ¬ Reading s w k := fun reading => Nat.not_le_of_lt reading.1 past
  cases affects with
  | skips history answers => exact ⟨history, answers⟩
  | outer e lt => exact absurd past (Nat.not_le_of_lt lt)
  | plans cells getExtents plans => exact absurd plans.reading reads
  | tells a st tells => exact absurd tells.reading reads
  | reaps ok copied reaps => exact absurd reaps.reading reads

/-- What holds of the data path in every reachable state. -/
structure Served (d : Driver) (s : IoState n ι) : Prop where
  inv : IoInv s
  buffers : Buffers s
  logs : Wires d s
  tasks : Tasks d s

theorem Served.start (futures : Nat → Future) (bytesRead : Nat → Int) (mem : Memory Space UInt8)
    (disk : Nat → Nat → UInt8) : Served d (ioSetup n ι futures bytesRead mem disk) :=
  ⟨.start futures bytesRead mem disk, .start futures bytesRead mem disk,
    .start futures bytesRead mem disk, .start futures bytesRead mem disk⟩

variable [DecidableEq ι] [NeZero n] {l : IoLabel n ι}

/-- **Every step keeps every read on the way of a read alone.** -/
theorem Tasks.step (power : d.lbaSize = 2 ^ d.lbaShift) (tasks : Tasks d s) (inv : IoInv s)
    (logs : Wires d s) (step : (io d).step s l = some s') : Tasks d s' := by
  obtain ⟨published, affects, -⟩ := inv.affects logs step
  refine ⟨fun w k lt stage lived => ?_, fun w k past => ?_⟩
  · obtain ⟨more, longer⟩ := published w
    by_cases old : k < (s.sys.workers w).published.length
    · have own : (s'.sys.workers w).published[k] = (s.sys.workers w).published[k] := by
        simp only [longer, List.getElem_append_left old]
      rw [own] at lived ⊢
      exact Standing.step power inv (tasks.standing w k old) old rfl (affects w k) lived
    · -- Nothing has happened to an operation that is just published.
      have past := Nat.le_of_not_lt old
      obtain ⟨history, answers⟩ := (affects w k).unpublished past
      rw [history, history_of_unpublished inv.engine past] at lived
      cases lived
      rw [Standing, answers]
      exact tasks.unpublished w k past
  · obtain ⟨more, longer⟩ := published w
    have past : (s.sys.workers w).published.length ≤ k := by
      refine Nat.le_trans ?_ past
      rw [longer, List.length_append]
      exact Nat.le_add_right _ _
    rw [((affects w k).unpublished past).2]
    exact tasks.unpublished w k past

theorem Served.step (power : d.lbaSize = 2 ^ d.lbaShift) (served : Served d s)
    (step : (io d).step s l = some s') : Served d s' where
  inv := served.inv.step step
  buffers := served.buffers.step step
  logs := (served.inv.affects served.logs step).2.2
  tasks := served.tasks.step power served.inv served.logs step

/-- **Every read of a run goes the way of a read alone.** -/
theorem Served.run (power : d.lbaSize = 2 ^ d.lbaShift) {labels : List (IoLabel n ι)}
    {futures : Nat → Future} {bytesRead : Nat → Int} {mem : Memory Space UInt8}
    {disk : Nat → Nat → UInt8}
    (ran : (io d).run labels (ioSetup n ι futures bytesRead mem disk) = some s) : Served d s := by
  have keeps : ∀ (s : IoState n ι) l s', Served d s → (io d).step s l = some s' → Served d s' := by
    intro s l s' served step
    exact served.step power step
  exact Machine.run_invariant_of_step keeps (.start futures bytesRead mem disk) ran

end OpenDS.DataPath
