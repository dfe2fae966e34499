import OpenDS.DataPath.Independence
import OpenDS.DataPath.StreamService

/-!
# Stream reads agree with asynchronous ones

A stream read that starts at an LBA boundary takes an asynchronous read of the same request
along, which is told the same and whose copies succeed: it comes to the same result, and when
the stream has run the copy of the read the caller's memory is what the asynchronous one leaves,
whatever earlier operations have left in the descriptor and the bounce slot of the stream
(`ReadsAt.step`).
-/

set_option autoImplicit false

namespace OpenDS.DataPath

open OpenDS.Library (Machine Memory Ptr)
open OpenDS.Aisio OpenDS.Engine

variable {n : Nat} {ι : Type} {d : Driver} {s s' : IoState n ι} {w v : Fin n} {j k turn : Nat}
  {f : OpFields} {begun begun' : IoState n ι → Prop} {cells : Request}

/-! ## The asynchronous read -/

/-- An asynchronous read with the request that the stream read finds in the caller's cells. -/
def asyncOf (f : OpFields) (cells : Request) : OpFields :=
  { f with u := .async ⟨cells.size, cells.fileOffset, cells.bufOffset, 0⟩ }

/-- The answer to an asynchronous read whose copies succeed. -/
def copying : Answer → Answer
  | .copies _ => .copies fun _ => true
  | a => a

/-- The request that a read has found in the caller's cells. -/
def asked : List Answer → Option Request
  | .resolved cells _ :: _ => some cells
  | _ => none

/-- The request starts at an LBA boundary. -/
def StartsAligned (d : Driver) (r : Request) : Prop := d.lbaSize ∣ u64 r.fileOffset

/-- The caller's memory, with nothing in the bounce buffers. -/
def unstaged (mem : Memory Space UInt8) : Memory Space UInt8
  | .user => mem .user
  | .bounce _ => fun _ => 0

/-- **The asynchronous read in the place of a stream read**: of the same request, on the caller's
memory and the files of the state, with nothing in the bounce buffers, and told what the stream
read has been told. -/
def runAsync (d : Driver) (s : IoState n ι) (f : OpFields) (cells : Request) (answers : List Answer) :
    Option ReadTask :=
  (readAlone d s.disk).run (answers.map copying)
    ⟨aloneRead (asyncOf f cells) (unstaged s.mem) zeroDesc, none⟩

theorem asked_snoc {answers : List Answer} {a : Answer} (before : asked answers = some cells) :
    asked (answers ++ [a]) = some cells := by
  cases answers with
  | nil => cases before
  | cons first rest => cases first <;> exact before

/-- The asynchronous read is told one answer more. -/
theorem runAsync_snoc {answers : List Answer} {a : Answer} {task task' : ReadTask}
    (ran : runAsync d s f cells answers = some task)
    (step : (readAlone d s.disk).step task (copying a) = some task') :
    runAsync d s f cells (answers ++ [a]) = some task' := by
  rw [runAsync, List.map_append]
  exact Machine.run_snoc ran step

theorem copying_eq {a : Answer} (goesOn : ∀ ok, a ≠ .copies ok) : copying a = a := by
  cases a with
  | copies ok => exact absurd rfl (goesOn ok)
  | _ => rfl

/-- The read of a stream and the asynchronous one are dispatched alike. -/
theorem dispatched_async {slot : Fin queueSize} {a : FileOpStream}
    (fields : ((s.sys.workers w).fileOpQueue slot).fields = f) (args : f.u = .stream a turn)
    (idle : ∀ x ∈ s.wires w, x.slot ≠ slot) (mem : Memory Space UInt8) (desc : BounceCopy) :
    dispatched ((aloneRead (asyncOf f cells) mem desc).ask cells) =
      (dispatched (s.requested w slot cells)).twin .async none mem desc := by
  subst fields
  simpa [dispatched, ReadState.ask, aloneRead, asyncOf, ReadState.twin, modeOf, requestOf,
    IoState.requested, IoState.view, args] using idle

/-- The asynchronous read that is told what to plan, as the engine plans the stream read. -/
theorem Plans.async {getExtents : Nat → Except Int (List Extent)} {a : FileOpStream}
    (plans : Plans d s s' w k cells getExtents) (untold : s.answers w k = [])
    (fields : ((s.sys.workers w).fileOpQueue (slotAt k)).fields = f) (args : f.u = .stream a turn) :
    runAsync d s f cells (s'.answers w k) =
      some ⟨(ReadTask.begin d { obliging s.disk with getExtents := getExtents }
        (s.requested w (slotAt k) cells)).st.twin .async none (unstaged s.mem) zeroDesc,
          s'.planOf w k⟩ := by
  have alone := @dispatched_async n ι s w turn f cells (slotAt k) a fields args plans.idle
    (unstaged s.mem) zeroDesc
  have planned := @begin_alone d { obliging s.disk with getExtents := getExtents }
    { obliging s.disk with getExtents := getExtents } rfl _ _ _ _ _ _ alone
  have stepped : (readAlone d s.disk).step
      ⟨aloneRead (asyncOf f cells) (unstaged s.mem) zeroDesc, none⟩ (.resolved cells getExtents) =
        some (ReadTask.begin d { obliging s.disk with getExtents := getExtents }
          ((aloneRead (asyncOf f cells) (unstaged s.mem) zeroDesc).ask cells)) := rfl
  rw [plans.answers, untold, plans.plan, ← planned]
  exact runAsync_snoc rfl stepped

/-! ## What becomes of a stream read -/

/-- The stream read goes on, and the asynchronous one with it. -/
structure Accompanied (d : Driver) (begun : IoState n ι → Prop) (s : IoState n ι) (w : Fin n) (k : Nat)
    (f : OpFields) (cells : Request) (s₀ : IoState n ι) (twin : ReadState) : Prop where
  begun : begun s₀
  disk : s.disk = s₀.disk
  ran : runAsync d s₀ f cells (s.answers w k) = some ⟨twin, s.planOf w k⟩
  shadows : Shadows d ⟨s.view w (slotAt k), s.planOf w k⟩ twin

/-- The asynchronous read has come to the result. -/
structure Comes (d : Driver) (begun : IoState n ι → Prop) (s : IoState n ι) (w : Fin n) (k : Nat)
    (f : OpFields) (cells : Request) (m : Int) (s₀ : IoState n ι) (alone : ReadState) : Prop where
  begun : begun s₀
  ran : runAsync d s₀ f cells (s.answers w k) = some ⟨alone, none⟩
  state : alone.op.state = .free
  result : alone.op.result = some m

/-- What the descriptor has the stream copy is what is missing in the caller's memory. -/
structure Staged (s : IoState n ι) (desc : BounceCopy) (alone : ReadState) : Prop where
  outward : desc.Outward
  copied : ∀ a, bounceKernel desc s.mem .user a = alone.mem .user a

/-- The stream has run the copy of the read, or comes to it next. -/
def CopyPassed (s : IoState n ι) (j : Nat) (alone : ReadState) : Prop :=
  (∀ a, s.mem .user a = alone.mem .user a) ∨ NextIsCopy (s.sys.CopyOwed j) (s.sys.streams j).commands

/-- What has become of a read of the stream at a stage of its life. -/
def ReadAt (d : Driver) (begun : IoState n ι → Prop) (s : IoState n ι) (j turn : Nat) (w : Fin n)
    (k : Nat) (f : OpFields) : Stage → Prop
  | .waiting => True
  | .writing => True
  | .reading _ _ => Fresh s w k ∨ ¬ Fresh s w k ∧ ∃ cells, asked (s.answers w k) = some cells ∧
      (StartsAligned d cells → ∃ s₀ twin, Accompanied d begun s w k f cells s₀ twin)
  | .reported m => ∃ cells, asked (s.answers w k) = some cells ∧ (StartsAligned d cells → ∃ s₀ alone,
      Comes d begun s w k f cells m s₀ alone ∧ Staged s (s.copyOf w k) alone)
  | .stored m => ∃ cells, asked (s.answers w k) = some cells ∧ (StartsAligned d cells → ∃ s₀ alone,
      Comes d begun s w k f cells m s₀ alone ∧ Staged s (s.copyOf w k) alone)
  | .completed m => ∃ cells, asked (s.answers w k) = some cells ∧ (StartsAligned d cells → ∃ s₀ alone,
      Comes d begun s w k f cells m s₀ alone ∧
        (NoneLater s.sys j turn → Staged s (s.descs j) alone ∧ CopyPassed s j alone))

/-! ## Frames -/

theorem Accompanied.mono {s₀ : IoState n ι} {twin : ReadState} (more : ∀ s, begun s → begun' s)
    (goes : Accompanied d begun s w k f cells s₀ twin) : Accompanied d begun' s w k f cells s₀ twin :=
  ⟨more _ goes.begun, goes.disk, goes.ran, goes.shadows⟩

theorem Comes.mono {s₀ : IoState n ι} {alone : ReadState} {m : Int} (more : ∀ s, begun s → begun' s)
    (comes : Comes d begun s w k f cells m s₀ alone) : Comes d begun' s w k f cells m s₀ alone :=
  ⟨more _ comes.begun, comes.ran, comes.state, comes.result⟩

theorem Comes.congr {s₀ : IoState n ι} {alone : ReadState} {m : Int}
    (answers : s'.answers w k = s.answers w k) (comes : Comes d begun s w k f cells m s₀ alone) :
    Comes d begun s' w k f cells m s₀ alone :=
  ⟨comes.begun, by rw [answers]; exact comes.ran, comes.state, comes.result⟩

theorem Staged.congr {desc desc' : BounceCopy} {alone : ReadState} (mem : s'.mem = s.mem)
    (desc_eq : desc' = desc) (staged : Staged s desc alone) : Staged s' desc' alone := by
  subst desc_eq
  exact ⟨staged.outward, by rw [mem]; exact staged.copied⟩

/-- More states at which the read may have begun. -/
theorem ReadAt.mono {stage : Stage} (more : ∀ s, begun s → begun' s)
    (at' : ReadAt d begun s j turn w k f stage) : ReadAt d begun' s j turn w k f stage := by
  cases stage with
  | waiting | writing => trivial
  | reading b e =>
      refine at'.imp_right fun ⟨planned, cells, found, goes⟩ => ⟨planned, cells, found, fun aligned => ?_⟩
      obtain ⟨s₀, twin, goes⟩ := goes aligned
      exact ⟨s₀, twin, goes.mono more⟩
  | reported m | stored m =>
      obtain ⟨cells, found, comes⟩ := at'
      refine ⟨cells, found, fun aligned => ?_⟩
      obtain ⟨s₀, alone, comes, staged⟩ := comes aligned
      exact ⟨s₀, alone, comes.mono more, staged⟩
  | completed m =>
      obtain ⟨cells, found, comes⟩ := at'
      refine ⟨cells, found, fun aligned => ?_⟩
      obtain ⟨s₀, alone, comes, passed⟩ := comes aligned
      exact ⟨s₀, alone, comes.mono more, passed⟩

/-- The descriptor that a stream read leaves does not depend on what the device answers. -/
theorem completeReadOp_desc {dev dev' : Device} {st st' : ReadState} (op : st'.op = st.op)
    (desc : st'.desc = st.desc) : (completeReadOp dev' st').desc = (completeReadOp dev st).desc := by
  cases mode : st.op.mode with
  | stream b => simp only [completeReadOp, op, mode, desc]
  | async =>
      simp only [completeReadOp, op, mode]
      cases st.op.err <;> exact desc

/-- The slot of the operation and the descriptors say what its copy is. -/
theorem copyOf_congr (slot : (s'.sys.workers w).opAt k = (s.sys.workers w).opAt k)
    (data : s'.ops w (slotAt k) = s.ops w (slotAt k)) (descs : s'.descs = s.descs) :
    s'.copyOf w k = s.copyOf w k := by
  have slot : (s'.sys.workers w).fileOpQueue (slotAt k) = (s.sys.workers w).fileOpQueue (slotAt k) := slot
  refine completeReadOp_desc ?_ ?_
  · simp only [IoState.view, slot, data]
  · simp only [IoState.view, slot, descs]

/-! ## Steps of the read -/

/-- The operation was submitted to the stream. -/
theorem stream_of_ticket (ticket : f.ticket = some (j, turn)) : ∃ a, f.u = .stream a turn ∧ a.stream = j := by
  cases args : f.u with
  | async a =>
      rw [OpFields.ticket, args] at ticket
      cases ticket
  | stream a turn' =>
      rw [OpFields.ticket, args] at ticket
      cases ticket
      exact ⟨a, rfl, rfl⟩

/-- The mode of a read of the stream. -/
theorem Reading.mode (reading : Reading s w k) (inv : IoInv s) (has : s.sys.HasTurn j turn w k f) :
    ((s.sys.workers w).fileOpQueue (slotAt k)).fields = f ∧
      (s.view w (slotAt k)).op.mode = .stream (streamBounceBuf j) := by
  obtain ⟨lt, own⟩ := List.getElem?_eq_some_iff.mp has.published
  obtain ⟨a, args, rfl⟩ := stream_of_ticket has.ticket
  have fields := reading.fields inv lt
  rw [own] at fields
  refine ⟨fields, ?_⟩
  simp only [IoState.view, fields, args, modeOf]

/-- The descriptor that a stream read sees is that of its stream. -/
theorem view_desc_of_mode {slot : Fin queueSize} (mode : (s.view w slot).op.mode = .stream (streamBounceBuf j)) :
    (s.view w slot).desc = s.descs j := by
  simp only [IoState.view] at mode ⊢
  cases args : ((s.sys.workers w).fileOpQueue slot).fields.u with
  | async a =>
      rw [args] at mode
      cases mode
  | stream a turn =>
      rw [args, modeOf, FileOpMode.stream.injEq, streamBounceBuf, streamBounceBuf] at mode
      obtain rfl : a.stream = j := by omega
      rfl

/-- A read in progress is not told to plan. -/
theorem Tells.unplanned {a : Answer} {st : ReadState} (tells : Tells d s s' w k a st) (inv : IoInv s)
    (cells : Request) (getExtents : Nat → Except Int (List Extent)) : a ≠ .resolved cells getExtents := by
  rintro rfl
  have pending : (s.view w (slotAt k)).op.state = .pending := by
    have effect := tells.effect
    generalize s'.planOf w k = plan at effect
    cases effect with
    | fails _ _ _ _ pending => exact pending
    | planned _ _ _ _ pending => exact pending
  cases pending.symm.trans (tells.reading.inFlight inv)

/-- **The asynchronous read begins where the stream read is planned.** -/
theorem Accompanied.plans {getExtents : Nat → Except Int (List Extent)} (geo : d.Geometry)
    (staging : d.assumeAlignedOnly = false) (inv : IoInv s) (has : s.sys.HasTurn j turn w k f)
    (plans : Plans d s s' w k cells getExtents) (untold : s.answers w k = [])
    (laid : ∀ i extents, getExtents i = .ok extents → Layout d extents) (disk : s'.disk = s.disk)
    (view : s'.view w (slotAt k) = (ReadTask.begin d { obliging s.disk with getExtents := getExtents }
      (s.requested w (slotAt k) cells)).st) (begins : begun s) (aligned : StartsAligned d cells) :
    ∃ s₀ twin, Accompanied d begun s' w k f cells s₀ twin := by
  obtain ⟨fields, -⟩ := plans.reading.mode inv has
  obtain ⟨a, args, -⟩ := stream_of_ticket has.ticket
  refine ⟨s, _, begins, disk, plans.async untold fields args, ?_⟩
  rw [view, plans.plan]
  refine @Shadows.begin d (s.requested w (slotAt k) cells)
    { obliging s.disk with getExtents := getExtents } geo staging ?_ laid rfl
    (unstaged s.mem) (fun _ => rfl) zeroDesc
  subst fields
  simp only [IoState.requested, requestOf, args]
  exact aligned

/-- **The asynchronous read is told what the stream read is told.** -/
theorem Accompanied.tells {a : Answer} {st twin : ReadState} {s₀ : IoState n ι} (served : Served d s)
    (has : s.sys.HasTurn j turn w k f) (goes : Accompanied d begun s w k f cells s₀ twin)
    (tells : Tells d s s' w k a st) (disk : s'.disk = s.disk) (view : s'.view w (slotAt k) = st) :
    ∃ twin', Accompanied d begun s' w k f cells s₀ twin' := by
  have inv := served.inv
  have targets := served.taskInv tells.reading tells.before
  obtain ⟨-, mode⟩ := tells.reading.mode inv has
  obtain ⟨twin', stepped, shadows⟩ := goes.shadows.step targets mode tells.effect tells.asks
    (tells.unplanned inv) tells.goesOn
  refine ⟨twin', goes.begun, disk.trans goes.disk, ?_, by rw [view]; exact shadows⟩
  rw [tells.answers]
  refine runAsync_snoc goes.ran ?_
  rw [copying_eq tells.goesOn, ← goes.disk]
  exact stepped

/-- **The asynchronous read comes to the result of the stream read**, and copies what the stream
is to copy. -/
theorem Accompanied.reaps {ok : Nat → Bool} {copied : Bool} {twin : ReadState} {s₀ : IoState n ι}
    (served : Served d s) (has : s.sys.HasTurn j turn w k f)
    (goes : Accompanied d begun s w k f cells s₀ twin) (reaps : Reaps d s s' w k ok copied)
    (descs : s'.descs = s.descs) (slot : (s'.sys.workers w).opAt k = (s.sys.workers w).opAt k)
    (data : s'.ops w (slotAt k) = s.ops w (slotAt k)) {m : Int}
    (result : (completeReadOp { obliging s.disk with copies := ok } (s.view w (slotAt k))).op.result =
      some m) :
    ∃ alone, Comes d begun s' w k f cells m s₀ alone ∧ Staged s' (s'.copyOf w k) alone := by
  have inv := served.inv
  have targets := served.taskInv reaps.reading reaps.before
  obtain ⟨-, mode⟩ := reaps.reading.mode inv has
  obtain ⟨begun, disk, ran, shadows⟩ := goes
  rw [reaps.plan] at targets ran shadows
  have counted : (s.view w (slotAt k)).op.chunksRemaining = 0 ∧
      (s.view w (slotAt k)).op.bouncesOutstanding = 0 := by
    have effect := reaps.effect
    cases effect with
    | reaped ok outside state chunks bounces => exact ⟨chunks, bounces⟩
  obtain ⟨alone, stepped, free, same, outward, copies⟩ := shadows.reap
    { obliging s.disk with copies := ok } s.disk targets mode (reaps.reading.inFlight inv) counted.1
    counted.2 reaps.idle
  have desc : s'.copyOf w k =
      (completeReadOp { obliging s.disk with copies := ok } (s.view w (slotAt k))).desc :=
    (copyOf_congr slot data descs).trans (completeReadOp_desc rfl rfl)
  have mem : s'.mem = s.mem := by
    rw [reaps.mem]
    simp only [completeReadOp, mode]
    rfl
  refine ⟨alone, ⟨begun, ?_, free, same.trans result⟩, ?_, fun a => ?_⟩
  · rw [reaps.answers]
    refine runAsync_snoc ran ?_
    rw [← disk]
    exact stepped
  · rw [desc]
    exact outward
  · rw [desc, bounceKernel, mem]
    exact copies a

/-! ## Copies -/

/-- A copy that the stream has run leaves nothing for a second one. -/
theorem bounceKernel_bounceKernel {desc : BounceCopy} (outward : desc.Outward) (mem : Memory Space UInt8) :
    bounceKernel desc (bounceKernel desc mem) = bounceKernel desc mem := by
  refine mem.copy_copy fun some same => ?_
  rw [outward.dst some] at same
  exact outward.src some same.symm

/-- What the stream is to copy is missing until it has copied it. -/
theorem Staged.copies {desc : BounceCopy} {alone : ReadState} (staged : Staged s desc alone)
    (mem : s'.mem = bounceKernel desc s.mem) :
    Staged s' desc alone ∧ ∀ a, s'.mem .user a = alone.mem .user a := by
  refine ⟨⟨staged.outward, fun a => ?_⟩, fun a => ?_⟩
  · rw [mem, bounceKernel_bounceKernel staged.outward]
    exact staged.copied a
  · rw [mem]
    exact staged.copied a

/-- What the stream copies. -/
theorem StreamOnly.mem_of_copy [DecidableEq ι] [NeZero n] {l : IoLabel n ι} (only : StreamOnly d s j)
    (step : (io d).step s l = some s')
    (front : (s.sys.streams j).commands = .copy :: (s'.sys.streams j).commands) :
    s'.mem = bounceKernel (s.descs j) s.mem := by
  have shrinks : ∀ more, (s'.sys.streams j).commands ≠ (s.sys.streams j).commands ++ more := by
    intro more longer
    rw [front] at longer
    have length := congrArg List.length longer
    rw [List.length_append, List.length_cons] at length
    omega
  have still : (s'.sys.streams j).commands ≠ (s.sys.streams j).commands := by
    intro same
    exact shrinks [] (same.trans (List.append_nil _).symm)
  cases l with
  | thread t act =>
      obtain ⟨sys, engine, rfl⟩ := Option.map_eq_some_iff.mp step
      obtain ⟨more, longer⟩ := (System.threadStep_effect engine).commands j
      exact absurd longer (shrinks more)
  | worker v c =>
      rcases (IoState.workerStep_effect step).refines (only.served.inv.workers v) with same | ⟨c', engine⟩
      · exact absurd (by rw [same]) still
      · obtain ⟨event, worker, -, same⟩ := System.workerStep_effect engine
        refine absurd ?_ still
        rw [same, apply_commands]
        rfl
  | gpu i =>
      obtain ⟨sys, engine, rfl⟩ := Option.map_eq_some_iff.mp step
      by_cases here : i = j
      · subst here
        simp only [front]
      · simp only [System.gpuStep, only.one.streams i here, reduceCtorEq] at engine
  | stop =>
      cases step
      exact absurd rfl still

/-! ## Steps -/

/-- An operation that has a result to report is where the worker stands. -/
theorem reporting_of_stage (inv : EngineInv s.sys) (has : s.sys.HasTurn j turn w k f) {stage : Stage}
    (lived : f.life.run ((s.sys.workers w).history k) .waiting = some stage) (m : Int)
    (late : stage = .reported m ∨ stage = .stored m) : Reporting s w k := by
  obtain ⟨id, slot, pc⟩ := late_of_stage inv has.published lived m late
  refine ⟨id, slot, m, ?_⟩
  rw [pc]
  split
  · exact .inl rfl
  · exact .inr rfl

/-- A read is not written. -/
theorem not_writing (served : Served d s) (has : s.sys.HasTurn j turn w k f) (read : f.isWrite = false) :
    f.life.run ((s.sys.workers w).history k) .waiting ≠ some .writing := by
  intro lived
  obtain ⟨lt, rfl⟩ := List.getElem?_eq_some_iff.mp has.published
  cases read.symm.trans (served.tasks.standing w k lt _ lived).1

/-- What is staged for a result stays if nothing is moved. -/
theorem Staged.unmoved (still : Unmoved s s' w k)
    (has : s.sys.HasTurn j turn w k f) (reporting : Reporting s w k) {alone : ReadState}
    (staged : Staged s (s.copyOf w k) alone) : Staged s' (s'.copyOf w k) alone := by
  obtain ⟨slot, data⟩ := still.slot reporting (List.getElem?_eq_some_iff.mp has.published).1
  exact staged.congr still.mem (copyOf_congr slot data still.descs)

/-- **A step that moves nothing** leaves the read where it is. -/
theorem ReadAt.unmoved {stage stage' : Stage} (only : StreamOnly d s j)
    (has : s.sys.HasTurn j turn w k f) (read : f.isWrite = false)
    (lived : f.life.run ((s.sys.workers w).history k) .waiting = some stage)
    (running : stage.task = .running) (at' : ReadAt d begun s j turn w k f stage)
    (affects : Affects d s s' w k) (still : Unmoved s s' w k)
    (lived' : f.life.run ((s'.sys.workers w).history k) .waiting = some stage') :
    ReadAt d begun s' j turn w k f stage' := by
  have inv := only.served.inv
  obtain ⟨lt, own⟩ := List.getElem?_eq_some_iff.mp has.published
  have told : ∀ a, s'.answers w k ≠ s.answers w k ++ [a] := by
    intro a longer
    rw [still.answers] at longer
    exact absurd (congrArg List.length longer) (by simp)
  -- A result that is reported stays as it is.
  have reports : ∀ m, stage = .reported m ∨ stage = .stored m →
      (∃ cells, asked (s.answers w k) = some cells ∧ (StartsAligned d cells → ∃ s₀ alone,
        Comes d begun s w k f cells m s₀ alone ∧ Staged s (s.copyOf w k) alone)) →
      ∃ cells, asked (s'.answers w k) = some cells ∧ (StartsAligned d cells → ∃ s₀ alone,
        Comes d begun s' w k f cells m s₀ alone ∧ Staged s' (s'.copyOf w k) alone) := by
    rintro m late ⟨cells, found, comes⟩
    refine ⟨cells, by rw [still.answers]; exact found, fun aligned => ?_⟩
    obtain ⟨s₀, alone, comes, staged⟩ := comes aligned
    exact ⟨s₀, alone, comes.congr still.answers,
      staged.unmoved still has (reporting_of_stage inv.engine has lived m late)⟩
  cases affects with
  | skips history answers elsewhere =>
      rw [history, lived] at lived'
      cases lived'
      cases stage with
      | waiting => cases running
      | writing => trivial
      | reading b e =>
          have reading : Reading s w k := ⟨lt, b, e, by rw [own]; exact lived⟩
          have same := elsewhere reading
          refine at'.imp same.fresh.mpr fun ⟨planned, cells, found, goes⟩ =>
            ⟨fun fresh => planned (same.fresh.mp fresh), cells, by rw [answers]; exact found, fun aligned => ?_⟩
          obtain ⟨s₀, twin, begun, disk, ran, shadows⟩ := goes aligned
          have view : s'.view w (slotAt k) = s.view w (slotAt k) := by
            obtain ⟨-, mode⟩ := reading.mode inv has
            refine same.view.eq still.mem ?_
            have mode' : (s'.view w (slotAt k)).op.mode = .stream (streamBounceBuf j) := by
              rw [same.view.op]
              exact mode
            rw [view_desc_of_mode mode, view_desc_of_mode mode', still.descs]
          refine ⟨s₀, twin, begun, still.disk.trans disk, ?_, ?_⟩
          · rw [answers, same.plan]
            exact ran
          · rw [view, same.plan]
            exact shadows
      | reported m => exact reports m (.inl rfl) at'
      | stored m => exact reports m (.inr rfl) at'
      | completed m => cases running
  | outer e lt' history answers outer begins =>
      have opens := still.opens e history
      rw [history] at lived'
      obtain ⟨stage₀, lived₀, step⟩ := Machine.exists_of_run_snoc lived'
      rw [lived] at lived₀
      cases lived₀
      cases stage with
      | waiting => cases running
      | completed m => cases running
      | reading b err => cases e <;> first | exact outer.elim | cases step
      | writing => exact (not_writing only.served has read lived).elim
      | reported m =>
          cases e with
          | stored target m' =>
              simp only [OpFields.life] at step
              split at step
              · cases step
                exact reports m (.inl rfl) at'
              · cases step
          | _ => cases step
      | stored m =>
          cases e with
          | completed => cases opens
          | _ => cases step
  | plans cells getExtents plans => exact absurd plans.answers (told _)
  | tells a st tells => exact absurd tells.answers (told a)
  | reaps ok copied reaps => exact absurd reaps.answers (told _)

/-- **Every step keeps a read in service on its way.** -/
theorem ReadAt.serve {stage stage' : Stage} (geo : d.Geometry) (staging : d.assumeAlignedOnly = false)
    (only : StreamOnly d s j) (has : s.sys.HasTurn j turn w k f) (read : f.isWrite = false)
    (lived : f.life.run ((s.sys.workers w).history k) .waiting = some stage)
    (running : stage.task = .running) (at' : ReadAt d begun s j turn w k f stage)
    (begins : Fresh s w k → begun s) (affects : Affects d s s' w k) (moves : StreamStep d s s' j w k)
    (next : NextIsCopy (s'.sys.CopyOwed j) (s'.sys.streams j).commands)
    (lived' : f.life.run ((s'.sys.workers w).history k) .waiting = some stage') :
    ReadAt d begun s' j turn w k f stage' := by
  have inv := only.served.inv
  obtain ⟨lt, own⟩ := List.getElem?_eq_some_iff.mp has.published
  have before : ∀ events, (s'.sys.workers w).history k = (s.sys.workers w).history k ++ events →
      f.life.run events stage = some stage' := by
    intro events history
    rw [history, Machine.run_append, lived] at lived'
    exact lived'
  have reads : Reading s w k → ∃ b e, stage = .reading b e := by
    rintro ⟨lt', b, e, reading⟩
    rw [own, lived] at reading
    exact ⟨b, e, Option.some.inj reading⟩
  cases moves with
  | unmoved still => exact at'.unmoved only has read lived running affects still lived'
  | plans cells getExtents plans laid disk view =>
      obtain ⟨events, history, inner⟩ := plans.history
      obtain ⟨b, e, rfl⟩ := reads plans.reading
      obtain ⟨b', e', rfl⟩ := reading_of_inner inner (before _ history)
      subst own
      have standing := only.served.tasks.standing w k lt _ lived
      obtain ⟨-, untold⟩ := standing.resolve_right fun at' => at'.1 plans.fresh
      refine .inr ⟨plans.planned, cells, by rw [plans.answers, untold]; rfl, fun aligned => ?_⟩
      exact Accompanied.plans geo staging inv has plans untold laid disk view (begins plans.fresh) aligned
  | tells a st tells disk view =>
      obtain ⟨events, history, inner⟩ := tells.history
      obtain ⟨b, e, rfl⟩ := reads tells.reading
      obtain ⟨b', e', rfl⟩ := reading_of_inner inner (before _ history)
      obtain ⟨-, cells, found, goes⟩ := at'.resolve_left tells.before
      refine .inr ⟨tells.planned, cells, by rw [tells.answers]; exact asked_snoc found, fun aligned => ?_⟩
      obtain ⟨s₀, twin, goes⟩ := goes aligned
      exact ⟨s₀, goes.tells only.served has tells disk view⟩
  | reaps ok copied reaps disk descs slot data =>
      obtain ⟨b, e, rfl⟩ := reads reaps.reading
      have ran := before _ reaps.history
      cases ran
      obtain ⟨-, cells, found, goes⟩ := at'.resolve_left reaps.before
      refine ⟨cells, by rw [reaps.answers]; exact asked_snoc found, fun aligned => ?_⟩
      obtain ⟨s₀, twin, goes⟩ := goes aligned
      subst own
      exact ⟨s₀, goes.reaps only.served has reaps descs slot data (reaps.result lt b e lived)⟩
  | wrote ret history =>
      have ran := before _ history
      cases stage with
      | writing => exact (not_writing only.served has read lived).elim
      | _ => cases ran
  | completes m mem answers history descs =>
      obtain ⟨target, history⟩ := history
      have ran := before _ history
      cases stage with
      | stored m' =>
          obtain ⟨final, step, same⟩ := Option.bind_eq_some_iff.mp ran
          cases same
          simp only [OpFields.life] at step
          split at step
          · cases step
            obtain ⟨cells, found, comes⟩ := at'
            refine ⟨cells, by rw [answers]; exact found, fun aligned => ?_⟩
            obtain ⟨s₀, alone, comes, staged⟩ := comes aligned
            refine ⟨s₀, alone, comes.congr answers, fun _ => ⟨staged.congr mem ?_, .inr next⟩⟩
            -- The worker has told the stream how much it is to copy.
            obtain ⟨-, slot, -⟩ := late_of_stage inv.engine has.published lived m' (.inr rfl)
            obtain ⟨fields, -⟩ := inv.engine.not_freed has.published lived (by simp [Stage.task])
            have current : (s.sys.workers w).current.fields = f := by
              rw [IoWorker.current, slot]
              exact fields
            obtain ⟨a, args, rfl⟩ := stream_of_ticket has.ticket
            rw [current] at descs
            exact descs read a turn args
          · cases step
      | waiting | completed => cases running
      | writing | reading | reported => cases ran
  | copies front =>
      refine absurd front (only.stream.order.not_copying (only.stream.gates.gateSafe j) has ?_ _)
      exact inService_of_stage lived running

/-- A later operation that has been dispatched stays so. -/
theorem NoneLater.before (none : NoneLater s'.sys j turn)
    (published : ∀ v, ∃ more, (s'.sys.workers v).published = (s.sys.workers v).published ++ more)
    (history : ∀ v i, (s.sys.workers v).history i <+: (s'.sys.workers v).history i) :
    NoneLater s.sys j turn := by
  intro turn' v i g has dispatched
  refine none turn' v i g ⟨?_, has.ticket⟩ ((history v i).subset dispatched)
  obtain ⟨more, longer⟩ := published v
  rw [longer]
  exact (List.getElem?_append_left (List.getElem?_eq_some_iff.mp has.published).1).trans has.published

section Labels

variable [DecidableEq ι] [NeZero n] {l : IoLabel n ι}

/-- What has happened to an operation is not undone. -/
theorem history_of_ioStep (inv : IoInv s) (step : (io d).step s l = some s') (w : Fin n) (k : Nat) :
    (s.sys.workers w).history k <+: (s'.sys.workers w).history k := by
  rcases inv.refines step with same | ⟨l', engine⟩
  · rw [same]
  · exact history_of_step engine w k

/-- An operation keeps its turn. -/
theorem hasTurn_of_ioStep (inv : IoInv s) (logs : Wires d s) (step : (io d).step s l = some s')
    (has : s.sys.HasTurn j turn w k f) : s'.sys.HasTurn j turn w k f := by
  obtain ⟨more, longer⟩ := (inv.affects logs step).1 w
  refine ⟨?_, has.ticket⟩
  rw [longer]
  exact (List.getElem?_append_left (List.getElem?_eq_some_iff.mp has.published).1).trans has.published

/-- The life of an operation that is completed is over. -/
theorem over_of_completed {m : Int} (served : Served d s) (has : s.sys.HasTurn j turn w k f)
    (lived : f.life.run ((s.sys.workers w).history k) .waiting = some (.completed m))
    (step : (io d).step s l = some s') :
    ¬ Reading s w k ∧ s'.answers w k = s.answers w k ∧
      ∀ e : OpEvent, (s'.sys.workers w).history k ≠ (s.sys.workers w).history k ++ [e] := by
  obtain ⟨lt, own⟩ := List.getElem?_eq_some_iff.mp has.published
  have ended : ¬ Reading s w k := by
    rintro ⟨lt', b, e, reading⟩
    rw [own, lived] at reading
    cases reading
  refine ⟨ended, ?_, fun e longer => ?_⟩
  · cases (served.inv.affects served.logs step).2.1 w k with
    | skips history answers elsewhere => exact answers
    | outer e lt' history answers => exact answers
    | plans cells getExtents plans => exact absurd plans.reading ended
    | tells a st tells => exact absurd tells.reading ended
    | reaps ok copied reaps => exact absurd reaps.reading ended
  · have has' := hasTurn_of_ioStep served.inv served.logs step has
    obtain ⟨stage', lived'⟩ := (served.inv.step step).engine.lived has'.published
    rw [longer] at lived'
    obtain ⟨stage, lived₀, last⟩ := Machine.exists_of_run_snoc lived'
    cases lived.symm.trans lived₀
    cases e <;> cases last

/-- **Nothing moves once a read is completed**, until a later operation is dispatched, but for
the copy of the read. -/
theorem Staged.rest {m : Int} {alone : ReadState} (staged : Staged s (s.descs j) alone)
    (only : StreamOnly d s j) (has : s.sys.HasTurn j turn w k f)
    (lived : f.life.run ((s.sys.workers w).history k) .waiting = some (.completed m))
    (none : NoneLater s.sys j turn) (on : l.OnStream d j) (step : (io d).step s l = some s') :
    Staged s' (s'.descs j) alone ∧
      (s'.mem = s.mem ∨ ∀ a, s'.mem .user a = alone.mem .user a) := by
  obtain ⟨ended, -, finished⟩ := over_of_completed only.served has lived step
  have sole := only.sole has (dispatched_of_stage lived (by simp [Stage.rank])) (.inr none)
  cases only.streamStep sole on step with
  | unmoved still => exact ⟨staged.congr still.mem (by rw [still.descs]), .inl still.mem⟩
  | plans cells getExtents plans => exact absurd plans.reading ended
  | tells a st tells => exact absurd tells.reading ended
  | reaps ok copied reaps => exact absurd reaps.reading ended
  | wrote ret history => exact absurd history (finished _)
  | completes m' mem answers history =>
      obtain ⟨target, history⟩ := history
      exact absurd history (finished _)
  | copies front mem disk descs =>
      obtain ⟨staged, same⟩ := staged.copies mem
      exact ⟨by rw [descs]; exact staged, .inr same⟩

/-- **Every step keeps the copy of a read that is completed**, until a later operation is
dispatched. -/
theorem ReadAt.rest {m : Int} (only : StreamOnly d s j) (has : s.sys.HasTurn j turn w k f)
    (lived : f.life.run ((s.sys.workers w).history k) .waiting = some (.completed m))
    (at' : ReadAt d begun s j turn w k f (.completed m)) (staging : d.assumeAlignedOnly = false)
    (on : l.OnStream d j) (first : CopiesFirst j s l) (step : (io d).step s l = some s') :
    ReadAt d begun s' j turn w k f (.completed m) := by
  have inv := only.served.inv
  obtain ⟨-, answers, -⟩ := over_of_completed only.served has lived step
  obtain ⟨cells, found, comes⟩ := at'
  refine ⟨cells, by rw [answers]; exact found, fun aligned => ?_⟩
  obtain ⟨s₀, alone, comes, passed⟩ := comes aligned
  refine ⟨s₀, alone, comes.congr answers, fun none' => ?_⟩
  have none := none'.before (inv.affects only.served.logs step).1 (history_of_ioStep inv step)
  obtain ⟨staged, passed⟩ := passed none
  obtain ⟨staged', mem⟩ := staged.rest only has lived none on step
  refine ⟨staged', ?_⟩
  rcases passed with same | next
  · rcases mem with mem | same'
    · exact .inl fun a => by rw [mem]; exact same a
    · exact .inl same'
  · rcases engine_of_step inv staging on first step with same | ⟨l', engine, gates, enqueues, -⟩
    · rw [CopyPassed, same]
      exact .inr next
    · rcases nextIsCopy_step only.stream.order gates enqueues engine next with next' | front
      · exact .inr next'
      · exact .inl (staged.copies (only.mem_of_copy step front)).2

/-- The copy of a read in service comes next past the step. -/
theorem StreamOnly.nextIsCopy (only : StreamOnly d s j) (has : s.sys.HasTurn j turn w k f)
    (read : f.isWrite = false) (service : s.sys.InService w k) (staging : d.assumeAlignedOnly = false)
    (on : l.OnStream d j) (first : CopiesFirst j s l) (step : (io d).step s l = some s') :
    NextIsCopy (s'.sys.CopyOwed j) (s'.sys.streams j).commands := by
  have safe := only.stream.gates.gateSafe j
  have passed : .write turn ∉ (s.sys.streams j).commands := fun member =>
    safe.reached w k f turn has service.1 _ member rfl
  have next := (only.stream.due.published turn w k f has read service.2).next passed
  rcases engine_of_step only.served.inv staging on first step with same | ⟨l', engine, gates, enqueues, -⟩
  · rw [same]
    exact next
  · rcases nextIsCopy_step only.stream.order gates enqueues engine next with next' | front
    · exact next'
    · exact absurd front (only.stream.order.not_copying safe has service _)

/-- What has become of the operation if it is a read. -/
def ReadsAt (d : Driver) (begun : IoState n ι → Prop) (s : IoState n ι) (j : Nat) (w : Fin n) (k : Nat) :
    Prop :=
  ∀ turn f stage, s.sys.HasTurn j turn w k f → f.isWrite = false →
    f.life.run ((s.sys.workers w).history k) .waiting = some stage → ReadAt d begun s j turn w k f stage

/-- **Every step keeps a read of the stream on its way.** -/
theorem ReadsAt.step (geo : d.Geometry) (staging : d.assumeAlignedOnly = false) (only : StreamOnly d s j)
    (reads : ReadsAt d begun s j w k) (begins : Fresh s w k → begun s) (on : l.OnStream d j)
    (first : CopiesFirst j s l) (step : (io d).step s l = some s') : ReadsAt d begun s' j w k := by
  intro turn f stage has' read lived'
  have inv := only.served.inv
  obtain ⟨published, affects, -⟩ := inv.affects only.served.logs step
  have affects := affects w k
  by_cases old : k < (s.sys.workers w).published.length
  · have has : s.sys.HasTurn j turn w k f := by
      obtain ⟨more, longer⟩ := published w
      refine ⟨?_, has'.ticket⟩
      rw [← has'.published, longer]
      exact (List.getElem?_append_left old).symm
    obtain ⟨stage₀, lived⟩ := inv.engine.lived has.published
    have at' := reads turn f stage₀ has read lived
    -- A read in service is the only one.
    have serves : stage₀.task = .running → ReadAt d begun s' j turn w k f stage := by
      intro running
      have service : s.sys.InService w k := inService_of_stage lived running
      have sole := only.sole has service.1 (.inl service.2)
      exact at'.serve geo staging only has read lived running begins affects (only.streamStep sole on step)
        (only.nextIsCopy has read service staging on first step) lived'
    cases stage₀ with
    | waiting =>
        obtain ⟨lt, own⟩ := List.getElem?_eq_some_iff.mp has.published
        have reading : ¬ Reading s w k := by
          rintro ⟨lt', b, e, reading⟩
          rw [own, lived] at reading
          cases reading
        cases affects with
        | skips history answers elsewhere =>
            rw [history, lived] at lived'
            cases lived'
            trivial
        | outer e lt' history answers outer begins =>
            rw [history] at lived'
            obtain ⟨stage₁, lived₁, last⟩ := Machine.exists_of_run_snoc lived'
            cases lived.symm.trans lived₁
            cases e with
            | dispatched =>
                simp only [OpFields.life, read, Bool.false_eq_true, if_false] at last
                cases last
                exact .inl (begins rfl (by rw [own]; exact read))
            | _ => cases last
        | plans cells getExtents plans => exact absurd plans.reading reading
        | tells a st tells => exact absurd tells.reading reading
        | reaps ok copied reaps => exact absurd reaps.reading reading
    | completed m =>
        have completed := (history_of_ioStep inv step w k).subset (OpFields.life_end lived)
        obtain rfl := OpFields.life_completed lived' completed
        exact at'.rest only has lived staging on first step
    | _ => exact serves rfl
  · -- Nothing has happened to an operation that is just published.
    have past := Nat.le_of_not_lt old
    rw [(affects.unpublished past).1, history_of_unpublished inv.engine past] at lived'
    cases lived'
    trivial

end Labels

end OpenDS.DataPath
