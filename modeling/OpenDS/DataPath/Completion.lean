import OpenDS.DataPath.Submission

/-!
# Completion

A command that the device finishes is told to the read it was issued for, whoever is
submitting meanwhile, and a worker reaps a read that has no command left. With the
submissions this is every step of the data path (`IoInv.affects`).
-/

set_option autoImplicit false

namespace OpenDS.DataPath

open OpenDS.Library (Machine Memory Ptr)
open OpenDS.Aisio OpenDS.Engine

variable {n : Nat} {ι : Type} {d : Driver} {s s' : IoState n ι} {w v : Fin n} {k : Nat}

/-! ## A queue that loses a command -/

section Queue

variable {mine : Wire → Bool} {wires : List Wire} {i : Nat} {x : Wire}

theorem filter_eraseIdx (there : wires[i]? = some x) (other : mine x = false) :
    (wires.eraseIdx i).filter mine = wires.filter mine := by
  induction wires generalizing i with
  | nil => rfl
  | cons y rest ih =>
      cases i with
      | zero =>
          cases there
          rw [List.eraseIdx_cons_zero, List.filter_cons_of_neg (by simp [other])]
      | succ i =>
          rw [List.eraseIdx_cons_succ, List.filter_cons, List.filter_cons, ih there]

/-- The place of the command that is gone is no longer outstanding. -/
theorem places_eraseIdx (there : wires[i]? = some x) (here : mine x = true)
    (nodup : ((wires.filter mine).map Wire.place).Nodup) :
    ((wires.eraseIdx i).filter mine).map Wire.place =
      ((wires.filter mine).map Wire.place).erase x.place := by
  induction wires generalizing i with
  | nil => cases there
  | cons y rest ih =>
      cases i with
      | zero =>
          cases there
          rw [List.eraseIdx_cons_zero, List.filter_cons_of_pos here, List.map_cons,
            List.erase_cons_head]
      | succ i =>
          have there : rest[i]? = some x := there
          rw [List.eraseIdx_cons_succ]
          cases keeps : mine y with
          | true =>
              rw [List.filter_cons_of_pos keeps, List.map_cons] at nodup
              obtain ⟨new, nodup⟩ := List.nodup_cons.mp nodup
              have ne : y.place ≠ x.place := by
                intro same
                rw [same] at new
                exact new (List.mem_map_of_mem
                  (List.mem_filter.mpr ⟨List.mem_of_getElem? there, here⟩))
              rw [List.filter_cons_of_pos keeps, List.filter_cons_of_pos keeps, List.map_cons,
                List.map_cons, List.erase_cons_tail (by simpa using ne), ih there nodup]
          | false =>
              have keeps : ¬ mine y = true := by simp [keeps]
              rw [List.filter_cons_of_neg keeps] at nodup ⊢
              rw [List.filter_cons_of_neg keeps]
              exact ih there nodup

end Queue

/-! ## A command arrives -/

/-- A completion of a command that is outstanding. -/
theorem complete_outstanding (dev : Device) {st : ReadState} {id : Nat} {c : Command}
    (outstanding : id ∈ st.inflight) (logged : st.issued[id]? = some c) :
    (ReadState.complete d dev st id).op = (match c.callback with
        | .chunk => ReadState.chunkCb d c (dev.succeeds id) st.op
        | .bounce => ReadState.bounceCb (dev.succeeds id) st.op) ∧
      (ReadState.complete d dev st id).inflight = st.inflight.erase id := by
  have contains : st.inflight.contains id = true := by simpa using outstanding
  rw [ReadState.complete, contains, logged]
  exact ⟨rfl, rfl⟩

/-- The engine past the completion of a command. -/
theorem arrive_slot {command : Nat} {ok : Bool} {sys : System n ι} {x : Wire} (inv : WorkerInv s w)
    (there : (s.wires w)[command]? = some x)
    (step : s.sys.workerStep w (.poked command ok) = some sys) :
    (∀ slot, (sys.workers w).fileOpQueue slot = if slot = x.slot then
        ((s.sys.workers w).fileOpQueue x.slot).arrive x.cmd.callback x.nbytes ok
      else (s.sys.workers w).fileOpQueue slot) ∧
    (sys.workers w).pc = (s.sys.workers w).pc ∧ (sys.workers w).i = (s.sys.workers w).i ∧
    (sys.workers w).published = (s.sys.workers w).published ∧
    (∀ j, (sys.workers w).history j = (s.sys.workers w).history j ++
      if x.id = j then [.arrived x.cmd.callback x.nbytes ok] else []) := by
  obtain ⟨c, queued, rfl⟩ := engineArrive_of_step step
  rw [inv.linked, List.getElem?_map, there] at queued
  cases queued
  simp only [System.setWorker, Function.update_self]
  refine ⟨fun slot => Function.update_apply .., rfl, rfl, rfl, fun j => ?_⟩
  refine (@history_record (s.sys.workers w) _ rfl _ j).trans ?_
  by_cases here : x.id = j
  · simp [Wire.queued, here]
  · simp [Wire.queued, here]

/-- The callback of a command counts in the engine as it does in a read. -/
theorem view_arrive {command : Nat} {ok : Bool} {sys : System n ι} {x : Wire} (logs : Wires d s)
    (inv : WorkerInv s w) (there : (s.wires w)[command]? = some x)
    (step : s.sys.workerStep w (.poked command ok) = some sys)
    (same : s'.sys = sys) (ops : s'.ops = s.ops)
    (wires : s'.wires = Function.update s.wires w ((s.wires w).eraseIdx command)) :
    SameView (ReadState.complete d { obliging s.disk with succeeds := fun _ => ok }
      (s.view w x.slot) x.place) (s'.view w x.slot) := by
  have member := List.mem_of_getElem? there
  obtain ⟨cmd, nbytes⟩ := logs.logged w x member
  have outstanding : x.place ∈ (s.view w x.slot).inflight :=
    List.mem_map_of_mem (List.mem_filter.mpr ⟨member, by simp⟩)
  obtain ⟨op, inflight⟩ := complete_outstanding (d := d)
    { obliging s.disk with succeeds := fun _ => ok } outstanding cmd
  have slot := (arrive_slot inv there step).1 x.slot
  rw [if_pos rfl] at slot
  refine ⟨?_, ?_, ?_⟩
  · rw [op]
    simp only [IoState.view, same, ops, slot]
    cases callback : x.cmd.callback with
    | chunk =>
        rw [nbytes callback]
        cases ok <;> rfl
    | bounce =>
        simp only [QueuedOp.arrive, QueuedOp.bounceCb, ReadState.bounceCb]
        split <;> rfl
  · rw [(complete_frame d _ _ _).issued]
    simp only [IoState.view, ops]
  · rw [inflight]
    simp only [IoState.view, wires, Function.update_self]
    exact places_eraseIdx there (by simp) (logs.places w x.slot)

theorem arrive_id (op : QueuedOp) (callback : Callback) (nbytes : Nat) (ok : Bool) :
    (op.arrive callback nbytes ok).id = op.id := by
  cases callback with
  | chunk => cases ok <;> rfl
  | bounce =>
      simp only [QueuedOp.arrive, QueuedOp.bounceCb]
      split <;> rfl

section Arrive

variable {command : Nat} {ok : Bool} {x : Wire} {sys : System n ι}

/-- The slots that a command has not been issued for, past its completion. -/
theorem arrive_others (inv : WorkerInv s w) (there : (s.wires w)[command]? = some x)
    (step : s.sys.workerStep w (.poked command ok) = some sys) (same : s'.sys = sys)
    (ops : s'.ops = s.ops)
    (wires : s'.wires = Function.update s.wires w ((s.wires w).eraseIdx command))
    {slot : Fin queueSize} (ne : slot ≠ x.slot) : SameView (s.view w slot) (s'.view w slot) := by
  refine sameView_of ?_ (by rw [ops]) ?_
  · rw [same, (arrive_slot inv there step).1, if_neg ne]
  · rw [wires, Function.update_self]
    exact filter_eraseIdx there (by simp [Ne.symm ne])

/-- A completion leaves the worker where it stands. -/
theorem arrive_plan (inv : WorkerInv s w) (there : (s.wires w)[command]? = some x)
    (step : s.sys.workerStep w (.poked command ok) = some sys) (same : s'.sys = sys)
    (submission : s'.submission = s.submission) :
    (Fresh s' w k ↔ Fresh s w k) ∧ s'.planOf w k = s.planOf w k := by
  obtain ⟨slots, pc, i, -, -⟩ := arrive_slot inv there step
  rw [← same] at slots pc i
  refine plan_of_still pc (fun _ => ?_) (by rw [submission])
  rw [IoWorker.current, i, slots, IoWorker.current]
  split
  · rename_i here
    rw [arrive_id, here]
  · rfl

/-- **A command that arrives is told to the read it was issued for.** -/
theorem arrive_tells (logs : Wires d s) (inv : IoInv s)
    (pokes : ((s.sys.workers w).pc = .submit ∧ ∃ sub, s.submission w = some sub ∧ sub.poking = true) ∨
      (s.sys.workers w).pc = .poke)
    (there : (s.wires w)[command]? = some x)
    (step : s.sys.workerStep w (.poked command ok) = some sys) (same : s'.sys = sys)
    (ops : s'.ops = s.ops)
    (wires : s'.wires = Function.update s.wires w ((s.wires w).eraseIdx command))
    (submission : s'.submission = s.submission)
    (answers : s'.answers = (s.tell w x.id (.arrived x.place ok)).answers)
    (mem : s'.mem = if ok then
        s.mem.blit x.cmd.dst (ReadState.commandBytes d x.cmd)
          (ReadState.commandData d (obliging s.disk) x.cmd)
      else s.mem) :
    Tells d s s' w x.id (.arrived x.place ok) (ReadState.complete d
      { obliging s.disk with succeeds := fun _ => ok } (s.view w x.slot) x.place) := by
  have member := List.mem_of_getElem? there
  obtain ⟨m, queue⟩ := inv.engine.queues w
  obtain ⟨low, lt, slotX, inFlight⟩ := wire_id (inv.workers w) queue member
  obtain ⟨-, -, -, -, history⟩ := arrive_slot (inv.workers w) there step
  rw [← same] at history
  have early : (s.sys.workers w).pc.late = false := by
    rcases pokes with ⟨pc, -⟩ | pc <;> rw [pc] <;> rfl
  obtain ⟨fresh, plan⟩ := @arrive_plan n ι s s' w x.id command ok x sys (inv.workers w) there step same
    submission
  -- The queue holds no command of a read that is not planned yet.
  have planned : ¬ Fresh s w x.id := fun fresh => by
    refine idle_of_fresh (inv.workers w) queue fresh.1 fresh.2.1 x member ?_
    obtain ⟨-, slot, -⟩ := queue.place (by rw [fresh.1]; rfl)
    rw [slotX, slot, ← current_id queue (by rw [fresh.1]; rfl), fresh.2.2]
  have outstanding : x.place ∈ (s.view w x.slot).inflight :=
    List.mem_map_of_mem (List.mem_filter.mpr ⟨member, by simp⟩)
  refine ⟨⟨lt, _, _, reading_of_inFlight queue early low lt inFlight⟩, planned,
    fun at' => planned (fresh.mp at'), ?_,
    ⟨_, by rw [history, if_pos rfl], fun f b e => ⟨_, _, rfl⟩⟩, ?_,
    fun alloc enters => (by cases enters), fun copies same => (by cases same), ?_, ?_⟩
  · rw [answers]
    simp only [IoState.tell, Function.update_self]
  · rw [← slotX, plan]
    refine .arrived x.place ok outstanding ?_
    intro sub submitting
    simp only [IoState.planOf] at submitting
    split at submitting
    · rename_i inside
      rcases pokes with ⟨-, sub', at', poking⟩ | poke
      · cases at'.symm.trans submitting
        exact poking
      · cases inside.1.symm.trans poke
    · cases submitting
  · rw [← slotX]
    exact view_arrive logs (inv.workers w) there step same ops wires
  · rw [mem]
    exact (complete_mem (d := d) { obliging s.disk with succeeds := fun _ => ok } outstanding
      (logs.logged w x member).cmd).symm

/-- A command that arrives is nothing to the other reads. -/
theorem arrive_skips (inv : IoInv s) (there : (s.wires w)[command]? = some x)
    (step : s.sys.workerStep w (.poked command ok) = some sys) (same : s'.sys = sys)
    (ops : s'.ops = s.ops)
    (wires : s'.wires = Function.update s.wires w ((s.wires w).eraseIdx command))
    (submission : s'.submission = s.submission)
    (answers : s'.answers = (s.tell w x.id (.arrived x.place ok)).answers) (other : k ≠ x.id) :
    Affects d s s' w k := by
  obtain ⟨m, queue⟩ := inv.engine.queues w
  obtain ⟨low, lt, slotX, -⟩ := wire_id (inv.workers w) queue (List.mem_of_getElem? there)
  obtain ⟨-, -, -, -, history⟩ := arrive_slot (inv.workers w) there step
  rw [← same] at history
  obtain ⟨fresh, plan⟩ := @arrive_plan n ι s s' w k command ok x sys (inv.workers w) there step same
    submission
  have untold : s'.answers w k = s.answers w k := by
    rw [answers]
    simp only [IoState.tell, Function.update_self, Function.update_of_ne other]
  refine .skips (by rw [history, if_neg (Ne.symm other), List.append_nil]) untold fun reading => ?_
  obtain ⟨lt', b, e, lived⟩ := reading
  obtain ⟨lowK, -⟩ := window_of_reading queue lt' lived
  refine ⟨untold, fresh, plan, arrive_others (inv.workers w) there step same ops wires ?_⟩
  rw [slotX]
  exact queue.counters.slotAt_ne lowK lt' low lt other

theorem arrive_wires (logs : Wires d s) (inv : IoInv s) (effect : IoEffect d s w s')
    (there : (s.wires w)[command]? = some x)
    (step : s.sys.workerStep w (.poked command ok) = some sys) (same : s'.sys = sys)
    (ops : s'.ops = s.ops)
    (wires : s'.wires = Function.update s.wires w ((s.wires w).eraseIdx command)) : Wires d s' := by
  have left : s'.wires w = (s.wires w).eraseIdx command := by
    rw [wires]
    exact Function.update_self ..
  refine logs.worker (inv.workers w) effect (fun y keeps => ?_) fun slot => ?_
  · rw [left] at keeps
    obtain ⟨cmd, nbytes⟩ := logs.logged w y (List.mem_of_mem_eraseIdx keeps)
    exact ⟨by rw [ops]; exact cmd, nbytes⟩
  · by_cases here : slot = x.slot
    · subst here
      simp only [IoState.view, left]
      rw [places_eraseIdx there (by simp) (logs.places w x.slot)]
      exact (logs.places w x.slot).erase _
    · rw [(arrive_others (inv.workers w) there step same ops wires here).inflight]
      exact logs.places w slot

end Arrive

/-! ## A read is reaped -/

/-- The completion of a read reports what the engine does. -/
theorem completeReadOp_result (dev : Device) {st : ReadState} {f : OpFields}
    (mode : st.op.mode = modeOf f.u) : (completeReadOp dev st).op.result =
      some (f.readResult st.op.bytesAcc st.op.err
        (runBounceCopies dev 0 st.op.bounces st.mem).1) := by
  unfold completeReadOp OpFields.readResult
  rw [mode]
  generalize ssize st.op.bytesAcc = n
  cases f.u with
  | stream a turn =>
      cases st.op.err with
      | none => exact rfl
      | some e => exact rfl
  | async a =>
      cases st.op.err with
      | none => exact rfl
      | some e => exact rfl

/-- A read that is reaped has no command left. -/
theorem idle_of_counted {offer : Option Offer} {m : Marks} (inv : WorkerInv s w)
    (queue : QueueInv (s.sys.workers w) offer m) (pc : (s.sys.workers w).pc = .reap)
    (chunks : (s.sys.workers w).current.chunksRemaining = 0)
    (bounces : (s.sys.workers w).current.bouncesOutstanding = 0) :
    ∀ x ∈ s.wires w, x.slot ≠ slotOf (s.sys.workers w).i := by
  intro x member here
  obtain ⟨at', slot, low, lt, -⟩ := queue.place (by rw [pc]; rfl)
  obtain ⟨lowX, ltX, slotX, -⟩ := wire_id inv queue member
  rw [at'] at chunks bounces
  refine queue.commands.none_of_zero low lt (queue.lives.reads (.inr pc)) chunks bounces x.queued ?_ ?_
  · rw [inv.linked]
    exact List.mem_map_of_mem member
  · by_contra ne
    refine queue.counters.slotAt_ne lowX ltX low lt ne ?_
    rw [← slotX, here, slot]

section Reap

variable {ok : Nat → Bool} {sys : System n ι}

/-- The worker past the completion of a read: the engine stores nothing into the slots. -/
theorem reap_worker {copied : Bool} (pc : (s.sys.workers w).pc = .reap)
    (chunks : (s.sys.workers w).current.chunksRemaining = 0)
    (bounces : (s.sys.workers w).current.bouncesOutstanding = 0)
    (step : s.sys.workerStep w (.copies copied) = some sys) :
    sys.workers w = ({ s.sys.workers w with
      pc := .result ((s.sys.workers w).current.fields.readResult (s.sys.workers w).current.bytesAcc
        (s.sys.workers w).current.err copied) } : IoWorker).record
          (some ((s.sys.workers w).current.id, .copied copied)) := by
  obtain ⟨worker, event, act, workers⟩ := engineWorker_of_step step
  simp only [IoWorker.act, pc, chunks, bounces, and_self, if_true, Option.some.injEq,
    Prod.mk.injEq] at act
  obtain ⟨rfl, rfl⟩ := act
  rw [workers]
  exact Function.update_self ..

theorem reap_about {copied : Bool} (pc : (s.sys.workers w).pc = .reap)
    (chunks : (s.sys.workers w).current.chunksRemaining = 0)
    (bounces : (s.sys.workers w).current.bouncesOutstanding = 0)
    (step : s.sys.workerStep w (.copies copied) = some sys) (same : s'.sys = sys) :
    About s s' w (some ((s.sys.workers w).current.id, .copied copied)) :=
  @about_of_effect n ι s s' w _ _ (fun _ => 0) false (.copied copied pc chunks bounces)
    (by rw [same]; exact reap_worker pc chunks bounces step)

/-- **A read that has no command left is reaped.** -/
theorem reap_reaps (inv : IoInv s) (pc : (s.sys.workers w).pc = .reap)
    (chunks : (s.sys.workers w).current.chunksRemaining = 0)
    (bounces : (s.sys.workers w).current.bouncesOutstanding = 0)
    (step : s.sys.workerStep w (.copies (runBounceCopies { obliging s.disk with copies := ok } 0
      (s.view w (slotOf (s.sys.workers w).i)).op.bounces s.mem).1) = some sys)
    (same : s'.sys = sys)
    (answers : s'.answers = (s.tell w (s.sys.workers w).current.id (.copies ok)).answers)
    (mem : s'.mem = (completeReadOp { obliging s.disk with copies := ok }
      (s.view w (slotOf (s.sys.workers w).i))).mem) :
    ∃ copied, Reaps d s s' w (s.sys.workers w).current.id ok copied := by
  generalize copied : (runBounceCopies { obliging s.disk with copies := ok } 0
    (s.view w (slotOf (s.sys.workers w).i)).op.bounces s.mem).1 = copied' at step
  obtain ⟨m, queue⟩ := inv.engine.queues w
  have onOp : (s.sys.workers w).pc.onOp = true := by rw [pc]; rfl
  have id := current_id queue onOp
  obtain ⟨at', -, low, ltI, -⟩ := queue.place onOp
  have slot := slotAt_current queue onOp
  refine ⟨copied', reading_current queue (.inr pc), fun fresh => ?_, ?_, ?_, ?_,
    (reap_about pc chunks bounces step same).here, ?_, fun lt b e lived => ?_, by rw [slot]; exact mem⟩
  · cases pc.symm.trans fresh.1
  · rw [IoState.planOf, if_neg fun inside => by cases pc.symm.trans inside.1]
  · rw [slot]
    simp only [IoState.view]
    rw [List.filter_eq_nil_iff.mpr fun x member => by
      simp [idle_of_counted (inv.workers w) queue pc chunks bounces x member], List.map_nil]
  · rw [answers]
    simp only [IoState.tell, Function.update_self]
  · rw [slot]
    refine .reaped ok rfl ?_ chunks bounces
    have inFlight : (s.sys.workers w).current.state = .inFlight := by
      rw [at']
      exact queue.lives.reads (.inr pc)
    exact inFlight
  · have reading := reading_of_reads queue (.inr pc) ltI
    simp only [← id] at reading
    cases lived.symm.trans reading
    have fields : (s.sys.workers w).current.fields =
        (s.sys.workers w).published[(s.sys.workers w).current.id] := by
      obtain ⟨-, fields⟩ := queue.slots.window m.i ltI low
      simp only [id]
      rw [← fields, at']
    have result : (completeReadOp { obliging s.disk with copies := ok }
        (s.view w (slotOf (s.sys.workers w).i))).op.result =
          some ((s.sys.workers w).current.fields.readResult (s.sys.workers w).current.bytesAcc
            (s.sys.workers w).current.err copied') := by
      rw [← copied]
      exact completeReadOp_result _ rfl
    rw [slot, result, fields]

/-- A read that is reaped is nothing to the others. -/
theorem reap_skips {copied : Bool} (pc : (s.sys.workers w).pc = .reap)
    (chunks : (s.sys.workers w).current.chunksRemaining = 0)
    (bounces : (s.sys.workers w).current.bouncesOutstanding = 0)
    (step : s.sys.workerStep w (.copies copied) = some sys)
    (same : s'.sys = sys) (ops : s'.ops = s.ops) (wires : s'.wires = s.wires)
    (answers : s'.answers = (s.tell w (s.sys.workers w).current.id (.copies ok)).answers)
    (other : k ≠ (s.sys.workers w).current.id) : Affects d s s' w k := by
  have here := reap_worker pc chunks bounces step
  rw [← same] at here
  have untold : s'.answers w k = s.answers w k := by
    rw [answers]
    simp only [IoState.tell, Function.update_self, Function.update_of_ne other]
  refine .skips ((reap_about pc chunks bounces step same).other ?_) untold fun _ => ?_
  · rintro ⟨j, e⟩ at' rfl
    cases at'
    exact other rfl
  · refine elsewhere_of_submit untold (fun inside => by cases pc.symm.trans inside)
      (fun inside => ?_) (sameView_of (by rw [here]; rfl) (by rw [ops]) (by rw [wires]))
    rw [here] at inside
    cases inside

end Reap

/-! ## Every step -/

/-- The bytes of a step: a step that is no completion of a command or of a read moves
none. -/
inductive Moves (d : Driver) (s s' : IoState n ι) : Prop where
  | still : s'.mem = s.mem → Moves d s s'
  | tells (w : Fin n) (k : Nat) (a : Answer) (st : ReadState) : Tells d s s' w k a st → Moves d s s'
  | reaps (w : Fin n) (k : Nat) (ok : Nat → Bool) (copied : Bool) : Reaps d s s' w k ok copied →
      Moves d s s'

/-- **What a step of a worker is for the operations of its queue.** -/
theorem IoEffect.affects (logs : Wires d s) (inv : IoInv s) (effect : IoEffect d s w s') :
    (s'.sys.workers w).published = (s.sys.workers w).published ∧
      (∀ k, Affects d s s' w k) ∧ Wires d s' ∧ Moves d s s' := by
  -- What the engine does outside of the submission and the completion of reads.
  have engine : ∀ {c : Choice} {sys : System n ι}, s.sys.workerStep w c = some sys →
      ∃ event worker, WorkerEffect (fun j => (s.sys.streams j).gate) s.sys.stop (s.sys.workers w)
          event worker ∧ (s.sys.workers w).act (fun j => (s.sys.streams j).gate) s.sys.stop c =
            some (worker, event) ∧ sys.workers w = worker.record event := by
    intro c sys step
    obtain ⟨worker, event, act, workers⟩ := engineWorker_of_step step
    exact ⟨event, worker, IoWorker.act_effect act, act, by rw [workers]; exact Function.update_self ..⟩
  have whole := effect
  cases effect with
  | quiet c sys outside quiet step =>
      obtain ⟨event, worker, moves, same, -, outer⟩ := quiet.effect outside step
      obtain ⟨-, -, workers, -⟩ := (s.sys.setWorker w (worker.record event)).apply_frame event
      have here : sys.workers w = worker.record event := by
        rw [same, workers]
        exact Function.update_self ..
      exact ⟨(about_of_effect moves here).published, fun k =>
        affects_of_outer inv moves here outer outside rfl rfl rfl rfl, logs.keep rfl rfl, .still rfl⟩
  | began cells getExtents pc fresh =>
      have plans := began_plans (d := d) inv cells getExtents pc fresh
      refine ⟨proceed_about.published, fun k => ?_, began_wires logs inv cells getExtents pc fresh,
        .still plans.mem⟩
      by_cases here : k = (s.sys.workers w).current.id
      · rw [here]
        exact .plans cells getExtents plans
      · exact proceed_skips inv pc here
  | told sub c a task pc submitting answers step =>
      have onward := told_onward (ReadTask.step_effect step) fun place ok same =>
        answer_arrived (same ▸ answers)
      have tells := told_tells inv pc submitting answers step
      refine ⟨proceed_about.published, fun k => ?_, told_wires logs inv whole onward,
        .tells _ _ _ _ tells⟩
      by_cases here : k = (s.sys.workers w).current.id
      · rw [here]
        exact .tells a task.st tells
      · exact proceed_skips inv pc here
  | arrived x command ok sys pokes there step =>
      have tells : Tells d s { s.tell w x.id (.arrived x.place ok) with
          sys := sys
          wires := Function.update s.wires w ((s.wires w).eraseIdx command)
          mem := if ok then
              s.mem.blit x.cmd.dst (ReadState.commandBytes d x.cmd)
                (ReadState.commandData d (obliging s.disk) x.cmd)
            else s.mem } w x.id (.arrived x.place ok) (ReadState.complete d
              { obliging s.disk with succeeds := fun _ => ok } (s.view w x.slot) x.place) :=
        arrive_tells logs inv pokes there step rfl rfl rfl rfl rfl rfl
      refine ⟨(arrive_slot (inv.workers w) there step).2.2.2.1, fun k => ?_,
        arrive_wires logs inv whole there step rfl rfl rfl, .tells _ _ _ _ tells⟩
      by_cases here : k = x.id
      · rw [here]
        exact .tells _ _ tells
      · exact arrive_skips inv there step rfl rfl rfl rfl rfl here
  | wrote ret disk sys pc step =>
      obtain ⟨event, worker, moves, act, here⟩ := engine step
      simp only [IoWorker.act, pc, Option.some.injEq, Prod.mk.injEq] at act
      obtain ⟨-, rfl⟩ := act
      refine ⟨(about_of_effect moves here).published, fun k =>
        affects_of_outer inv moves here (fun e at' => ?_) (by rw [pc]; simp) rfl rfl rfl rfl,
        logs.keep rfl rfl, .still rfl⟩
      cases at'
      trivial
  | reaped ok sys pc chunks bounces step =>
      obtain ⟨event, worker, moves, -, here⟩ := engine step
      obtain ⟨copied, reaps⟩ : ∃ copied, Reaps d s { s.tell w (s.sys.workers w).current.id (.copies ok) with
          sys := sys
          mem := (completeReadOp { obliging s.disk with copies := ok }
            (s.view w (slotOf (s.sys.workers w).i))).mem } w (s.sys.workers w).current.id ok copied :=
        reap_reaps inv pc chunks bounces step rfl rfl rfl
      refine ⟨(about_of_effect moves here).published, fun k => ?_, logs.keep rfl rfl,
        .reaps _ _ _ _ reaps⟩
      by_cases here : k = (s.sys.workers w).current.id
      · rw [here]
        exact .reaps ok copied reaps
      · exact reap_skips pc chunks bounces step rfl rfl rfl rfl here
  | released m sys pc step =>
      obtain ⟨event, worker, moves, act, here⟩ := engine step
      simp only [IoWorker.act, pc, Option.some.injEq, Prod.mk.injEq] at act
      obtain ⟨-, rfl⟩ := act
      refine ⟨(about_of_effect moves here).published, fun k =>
        affects_of_outer inv moves here (fun e at' => ?_) (by rw [pc]; simp) rfl rfl rfl rfl,
        logs.keep rfl rfl, .still rfl⟩
      cases at'
      trivial

variable [DecidableEq ι] [NeZero n] {l : IoLabel n ι}

/-- **What a step is for the operations that are published**, and what it publishes. -/
theorem IoInv.affects (inv : IoInv s) (logs : Wires d s) (step : (io d).step s l = some s') :
    (∀ w, ∃ more, (s'.sys.workers w).published = (s.sys.workers w).published ++ more) ∧
      (∀ w k, Affects d s s' w k) ∧ Wires d s' := by
  have undisturbed : (∀ w, Undisturbed (s.sys.offer w) (s.sys.workers w) (s'.sys.workers w)) →
      s'.ops = s.ops → s'.wires = s.wires → s'.submission = s.submission →
      s'.answers = s.answers → _ := fun same ops wires submission answers =>
    (⟨fun w => (same w).published,
      fun w k => affects_of_undisturbed inv.engine (same w) ops wires submission answers,
      logs.keep ops wires⟩ : (∀ w, ∃ more, (s'.sys.workers w).published =
        (s.sys.workers w).published ++ more) ∧ (∀ w k, Affects d s s' w k) ∧ Wires d s')
  cases l with
  | thread t act =>
      obtain ⟨sys, stepped, rfl⟩ := Option.map_eq_some_iff.mp step
      have effect := System.threadStep_effect stepped
      exact undisturbed (undisturbed_of_effect inv.engine effect) rfl rfl rfl rfl
  | worker w c =>
      have effect := IoState.workerStep_effect step
      obtain ⟨published, affects, wires, -⟩ := effect.affects logs inv
      refine ⟨fun v => ⟨[], ?_⟩, fun v k => ?_, wires⟩ <;> by_cases same : v = w
      · subst same
        rw [published, List.append_nil]
      · rw [(affects_of_other (d := d) (k := 0) (inv.workers w) effect same).1, List.append_nil]
      · subst same
        exact affects k
      · exact (affects_of_other (inv.workers w) effect same).2
  | gpu j =>
      obtain ⟨sys, stepped, rfl⟩ := Option.map_eq_some_iff.mp step
      have workers := (System.gpuStep_effect stepped).frame.2.2.1
      refine undisturbed (fun v => ?_) rfl rfl rfl rfl
      simp only [workers]
      exact .refl _ _
  | stop =>
      cases step
      exact undisturbed (fun v => .refl _ _) rfl rfl rfl rfl

end OpenDS.DataPath
