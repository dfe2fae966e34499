import OpenDS.Engine.System

/-!
# The effects of the steps of the engine

What a thread, a worker and a stream can do in one step. Every invariant of the
engine is derived from these.
-/

set_option autoImplicit false

namespace OpenDS.Engine

open OpenDS.Library OpenDS.Aisio

variable {n : Nat} {ι : Type}

/-! ## Threads -/

/-- The effects of the steps of a thread. -/
inductive ThreadEffect [NeZero n] [DecidableEq ι] (alignedOnly : Bool) (s : System n ι) (t : ι) :
    System n ι → Prop where
  | callAsync (c : Call) (a : FileOpAsync) : s.threads t = .idle → c.u = .async a →
      ThreadEffect alignedOnly s t ((s.setFuture a.future ⟨false, 0⟩).setThread t (.lock c))
  | callStream (c : Call) : s.threads t = .idle →
      ThreadEffect alignedOnly s t (s.setThread t (.lock c))
  | lock (c : Call) : s.threads t = .lock c → s.submitLock = none →
      ThreadEffect alignedOnly s t ({ s with submitLock := some t }.setThread t (.claim c))
  | claim (c : Call) : s.threads t = .claim c →
      (s.workers (route s.rrNext)).hasRoom = true →
      ThreadEffect alignedOnly s t ({ s with rrNext := s.rrNext + 1#32 }.setThread t
        (.fill c (route s.rrNext) (s.workers (route s.rrNext)).queueHead))
  | full (c : Call) : s.threads t = .claim c →
      ThreadEffect alignedOnly s t
        ({ s with rrNext := s.rrNext + 1#32, submitLock := none }.setThread t (.lock c))
  | fillAsync (c : Call) (w : Fin n) (head : BitVec 32) (a : FileOpAsync) :
      s.threads t = .fill c w head → c.u = .async a →
      ThreadEffect alignedOnly s t
        ((s.setWorker w ((s.workers w).fill head ⟨c.isWrite, c.h, c.bufBase, .async a⟩)).setThread t
          (.pend ⟨c.isWrite, c.h, c.bufBase, .async a⟩ w head))
  | fillStream (c : Call) (w : Fin n) (head : BitVec 32) (a : FileOpStream) (turn : Nat) :
      s.threads t = .fill c w head → c.u = .stream a → turn = (s.streams a.stream).turns + 1 →
      ThreadEffect alignedOnly s t
        (((s.setStream a.stream { s.streams a.stream with turns := turn }).setWorker w
          ((s.workers w).fill head ⟨c.isWrite, c.h, c.bufBase, .stream a turn⟩)).setThread t
            (.gate ⟨c.isWrite, c.h, c.bufBase, .stream a turn⟩ w head))
  | fails (fields : OpFields) (w : Fin n) (head : BitVec 32) :
      s.threads t = .gate fields w head ∨ s.threads t = .wait fields w head →
      ThreadEffect alignedOnly s t (s.setThread t (.unlock none))
  | park (fields : OpFields) (w : Fin n) (head : BitVec 32) (a : FileOpStream) (turn : Nat) :
      s.threads t = .gate fields w head → fields.u = .stream a turn → alignedOnly = true →
      ThreadEffect alignedOnly s t
        ((s.enqueue a.stream (.park w (slotOf head))).setThread t (.pend fields w head))
  | write (fields : OpFields) (w : Fin n) (head : BitVec 32) (a : FileOpStream) (turn : Nat) :
      s.threads t = .gate fields w head → fields.u = .stream a turn → alignedOnly = false →
      ThreadEffect alignedOnly s t
        ((s.enqueue a.stream (.write turn)).setThread t (.wait fields w head))
  | wait (fields : OpFields) (w : Fin n) (head : BitVec 32) (a : FileOpStream) (turn : Nat) :
      s.threads t = .wait fields w head → fields.u = .stream a turn →
      ThreadEffect alignedOnly s t
        ((s.enqueue a.stream (.wait turn)).setThread t (.pend fields w head))
  | pend (fields : OpFields) (w : Fin n) (head : BitVec 32) : s.threads t = .pend fields w head →
      ThreadEffect alignedOnly s t
        ((s.setWorker w ((s.workers w).pend head)).setThread t (.publish fields w head))
  | publish (fields : OpFields) (w : Fin n) (head : BitVec 32) :
      s.threads t = .publish fields w head →
      ThreadEffect alignedOnly s t ((s.setWorker w ((s.workers w).publish head)).setThread t
        (.unlock (copyOf alignedOnly fields)))
  | unlock (copy : Option Nat) (pc : SubmitPc n) : s.threads t = .unlock copy →
      pc = .idle ∨ (∃ j, copy = some j ∧ pc = .copy j) →
      ThreadEffect alignedOnly s t ({ s with submitLock := none }.setThread t pc)
  | copy (j : Nat) : s.threads t = .copy j →
      ThreadEffect alignedOnly s t ((s.enqueue j .copy).setThread t .idle)
  | lost (j : Nat) : s.threads t = .copy j → ThreadEffect alignedOnly s t (s.setThread t .idle)

/-- **Every step of a thread has one of the effects.** -/
theorem System.threadStep_effect [NeZero n] [DecidableEq ι] {alignedOnly : Bool}
    {s s' : System n ι} {t : ι} {act : ThreadAct}
    (step : s.threadStep alignedOnly t act = some s') : ThreadEffect alignedOnly s t s' := by
  cases pc : s.threads t with
  | idle =>
      cases act with
      | call c =>
          simp only [threadStep, pc] at step
          split at step
          · rename_i args
            cases step
            exact .callAsync c _ pc args
          · cases step
            exact .callStream c pc
      | _ => simp only [threadStep, pc, reduceCtorEq] at step
  | lock c =>
      cases act with
      | go =>
          simp only [threadStep, pc] at step
          split at step
          · rename_i free
            cases step
            exact .lock c pc (Option.isNone_iff_eq_none.mp free)
          · cases step
      | _ => simp only [threadStep, pc, reduceCtorEq] at step
  | claim c =>
      cases act with
      | go =>
          simp only [threadStep, pc] at step
          split at step
          · rename_i room
            cases step
            exact .claim c pc room
          · cases step
            exact .full c pc
      | _ => simp only [threadStep, pc, reduceCtorEq] at step
  | fill c w head =>
      cases act with
      | go =>
          simp only [threadStep, pc] at step
          split at step
          · rename_i args
            cases step
            exact .fillAsync c w head _ pc args
          · rename_i args
            cases step
            exact .fillStream c w head _ _ pc args rfl
      | _ => simp only [threadStep, pc, reduceCtorEq] at step
  | gate fields w head =>
      cases act with
      | accel ok =>
          simp only [threadStep, pc] at step
          split at step
          · cases step
          · rename_i args
            split at step
            · rename_i aligned
              cases step
              cases ok with
              | true => exact .park fields w head _ _ pc args aligned
              | false => exact .fails fields w head (.inl pc)
            · rename_i aligned
              cases step
              cases ok with
              | true => exact .write fields w head _ _ pc args (Bool.not_eq_true _ ▸ aligned)
              | false => exact .fails fields w head (.inl pc)
      | _ => simp only [threadStep, pc, reduceCtorEq] at step
  | wait fields w head =>
      cases act with
      | accel ok =>
          simp only [threadStep, pc] at step
          split at step
          · cases step
          · rename_i args
            cases step
            cases ok with
            | true => exact .wait fields w head _ _ pc args
            | false => exact .fails fields w head (.inr pc)
      | _ => simp only [threadStep, pc, reduceCtorEq] at step
  | pend fields w head =>
      cases act with
      | go =>
          simp only [threadStep, pc] at step
          cases step
          exact .pend fields w head pc
      | _ => simp only [threadStep, pc, reduceCtorEq] at step
  | publish fields w head =>
      cases act with
      | go =>
          simp only [threadStep, pc] at step
          cases step
          exact .publish fields w head pc
      | _ => simp only [threadStep, pc, reduceCtorEq] at step
  | unlock copy =>
      cases act with
      | go =>
          simp only [threadStep, pc] at step
          cases step
          refine .unlock copy _ pc ?_
          cases copy with
          | none => exact .inl rfl
          | some j => exact .inr ⟨j, rfl, rfl⟩
      | _ => simp only [threadStep, pc, reduceCtorEq] at step
  | copy j =>
      cases act with
      | accel ok =>
          simp only [threadStep, pc] at step
          cases step
          cases ok with
          | true => exact .copy j pc
          | false => exact .lost j pc
      | _ => simp only [threadStep, pc, reduceCtorEq] at step

/-! ## Workers and streams -/

/-- What happens to an operation changes neither threads nor workers. -/
theorem System.apply_frame (s : System n ι) (event : Option (Nat × OpEvent)) :
    (s.apply event).threads = s.threads ∧ (s.apply event).submitLock = s.submitLock ∧
      (s.apply event).workers = s.workers ∧ (s.apply event).stop = s.stop := by
  unfold apply
  split <;> exact ⟨rfl, rfl, rfl, rfl⟩

/-- A change of a stream that leaves its commands enqueues none. -/
theorem setStream_commands (s : System n ι) {i : Nat} {stream : Stream n}
    (same : stream.commands = (s.streams i).commands) (j : Nat) :
    ((s.setStream i stream).streams j).commands = (s.streams j).commands := by
  simp only [System.setStream, Function.update_apply]
  split
  · rename_i here
    rw [here, same]
  · rfl

/-- What a worker reports enqueues nothing. -/
theorem apply_commands (s : System n ι) (event : Option (Nat × OpEvent)) (j : Nat) :
    ((s.apply event).streams j).commands = (s.streams j).commands := by
  unfold System.apply
  split
  all_goals first | rfl | exact setStream_commands s (by rfl) j

/-- A step of a worker has an effect on its queue and leaves the other ones alone. -/
theorem System.workerStep_effect {s s' : System n ι} {w : Fin n} {c : Choice} (step : s.workerStep w c = some s') :
    ∃ event worker, WorkerEffect (fun j => (s.streams j).gate) s.stop (s.workers w) event worker ∧
      s' = (s.setWorker w (worker.record event)).apply event := by
  obtain ⟨out, act, rfl⟩ := Option.map_eq_some_iff.mp step
  exact ⟨out.2, out.1, IoWorker.act_effect act, rfl⟩

/-- A worker publishes nothing, and what happens is written down past its step. -/
theorem published_of_effect {gate : Nat → BitVec 32} {stop : Bool} {worker worker' : IoWorker}
    {event : Option (Nat × OpEvent)} (effect : WorkerEffect gate stop worker event worker') :
    worker'.published = worker.published ∧ worker'.log = worker.log := by
  cases effect <;> exact ⟨rfl, rfl⟩

/-- The effects of the steps of a stream. -/
inductive GpuEffect (s : System n ι) (j : Nat) : System n ι → Prop where
  | write (turn : Nat) (rest : List (StreamCommand n)) :
      (s.streams j).commands = .write turn :: rest →
      GpuEffect s j (s.setStream j ⟨(s.streams j).turns, 2#32 * word 32 turn, rest⟩)
  | wait (turn : Nat) (rest : List (StreamCommand n)) :
      (s.streams j).commands = .wait turn :: rest → released (s.streams j).gate turn = true →
      GpuEffect s j (s.setStream j { s.streams j with commands := rest })
  | park (w : Fin n) (slot : Fin queueSize) (rest : List (StreamCommand n)) (a : FileOpStream)
      (turn : Nat) : (s.streams j).commands = .park w slot :: rest →
      ((s.workers w).fileOpQueue slot).fields.u = .stream a turn →
      GpuEffect s j ((s.setStream j { s.streams j with commands := .spin a.stream turn :: rest }).setGate
        a.stream (2#32 * word 32 turn))
  | spin (target turn : Nat) (rest : List (StreamCommand n)) :
      (s.streams j).commands = .spin target turn :: rest →
      released (s.streams target).gate turn = true →
      GpuEffect s j (s.setStream j { s.streams j with commands := rest })
  | copy (rest : List (StreamCommand n)) : (s.streams j).commands = .copy :: rest →
      GpuEffect s j (s.setStream j { s.streams j with commands := rest })

/-- **Every step of a stream has one of the effects.** -/
theorem System.gpuStep_effect {s s' : System n ι} {j : Nat} (step : s.gpuStep j = some s') :
    GpuEffect s j s' := by
  simp only [gpuStep] at step
  split at step
  · cases step
  · rename_i front
    cases step
    exact .write _ _ front
  · rename_i front
    split at step
    · rename_i reached
      cases step
      exact .wait _ _ front reached
    · cases step
  · rename_i front
    split at step
    · cases step
    · rename_i args
      cases step
      exact .park _ _ _ _ _ front args
  · rename_i front
    split at step
    · rename_i reached
      cases step
      exact .spin _ _ _ front reached
    · cases step
  · rename_i front
    cases step
    exact .copy _ front

/-- A step of a stream changes the streams only. -/
theorem GpuEffect.frame {s s' : System n ι} {j : Nat} (effect : GpuEffect s j s') :
    s'.threads = s.threads ∧ s'.submitLock = s.submitLock ∧ s'.workers = s.workers ∧
      s'.stop = s.stop := by
  cases effect <;> exact ⟨rfl, rfl, rfl, rfl⟩

end OpenDS.Engine
