import OpenDS.DataPath.System

/-!
# The effects of the steps of the data path

What a worker can do in one step, and that each of its steps is one of the engine or
none: the passes of the submission loops that take no command, the end of a poke and
the entry of a partial LBA change nothing the engine knows of.
-/

set_option autoImplicit false

namespace OpenDS.DataPath

open OpenDS.Library (Machine Memory Ptr)
open OpenDS.Aisio OpenDS.Engine

variable {n : Nat} {ι : Type}

/-- A step of the engine's worker outside of `start_read_op`, and not one that begins the
completion of a read or releases a stream. -/
def QuietChoice (s : IoState n ι) (w : Fin n) (c : Choice) : Prop :=
  (c = .go ∧ ∀ n, (s.sys.workers w).pc ≠ .release n) ∨
    (c = .copies true ∧ ¬ ((s.sys.workers w).current.chunksRemaining = 0 ∧
      (s.sys.workers w).current.bouncesOutstanding = 0))

/-- The effects of the steps of a worker. -/
inductive IoEffect (d : Driver) (s : IoState n ι) (w : Fin n) : IoState n ι → Prop where
  | quiet (c : Choice) (sys : System n ι) : (s.sys.workers w).pc ≠ .submit → QuietChoice s w c →
      s.sys.workerStep w c = some sys → IoEffect d s w { s with sys := sys }
  | began (cells : Request) (getExtents : Nat → Except Int (List Extent)) :
      (s.sys.workers w).pc = .submit → s.submission w = none →
      IoEffect d s w (s.proceed d w (.resolved cells getExtents)
        (.begin d { obliging s.disk with getExtents := getExtents }
          (s.requested w (slotOf (s.sys.workers w).i) cells)))
  | told (sub : Submission) (c : IoChoice) (a : Answer) (task : ReadTask) :
      (s.sys.workers w).pc = .submit → s.submission w = some sub →
      c.answer sub (s.view w (slotOf (s.sys.workers w).i)).op (hostBounceBuf s.allocated) = some a →
      ReadTask.step d s.disk ⟨s.view w (slotOf (s.sys.workers w).i), some sub⟩ a = some task →
      IoEffect d s w (s.proceed d w a task)
  | arrived (x : Wire) (command : Nat) (ok : Bool) (sys : System n ι) :
      ((s.sys.workers w).pc = .submit ∧ ∃ sub, s.submission w = some sub ∧ sub.poking = true) ∨
        (s.sys.workers w).pc = .poke →
      (s.wires w)[command]? = some x → s.sys.workerStep w (.poked command ok) = some sys →
      IoEffect d s w { s.tell w x.id (.arrived x.place ok) with
        sys := sys
        wires := Function.update s.wires w ((s.wires w).eraseIdx command)
        mem := if ok then
            s.mem.blit x.cmd.dst (ReadState.commandBytes d x.cmd)
              (ReadState.commandData d (obliging s.disk) x.cmd)
          else s.mem }
  | wrote (ret : Int) (disk : Nat → Nat → UInt8) (sys : System n ι) :
      (s.sys.workers w).pc = .pwrite → s.sys.workerStep w (.wrote ret) = some sys →
      IoEffect d s w { s with sys := sys, disk := disk }
  | reaped (ok : Nat → Bool) (sys : System n ι) : (s.sys.workers w).pc = .reap →
      (s.sys.workers w).current.chunksRemaining = 0 →
      (s.sys.workers w).current.bouncesOutstanding = 0 →
      s.sys.workerStep w (.copies (runBounceCopies { obliging s.disk with copies := ok } 0
        (s.view w (slotOf (s.sys.workers w).i)).op.bounces s.mem).1) = some sys →
      IoEffect d s w { s.tell w (s.sys.workers w).current.id (.copies ok) with
        sys := sys
        mem := (completeReadOp { obliging s.disk with copies := ok }
          (s.view w (slotOf (s.sys.workers w).i))).mem }
  | released (m : Int) (sys : System n ι) : (s.sys.workers w).pc = .release m →
      s.sys.workerStep w .go = some sys →
      IoEffect d s w { s with sys := sys, descs := s.described w }

variable {d : Driver} {s s' : IoState n ι} {w : Fin n} {c : IoChoice}

/-- **Every step of a worker has one of the effects.** -/
theorem IoState.workerStep_effect (step : s.workerStep d w c = some s') : IoEffect d s w s' := by
  have arrived : ∀ {command ok}, ((s.sys.workers w).pc = .submit ∧
        ∃ sub, s.submission w = some sub ∧ sub.poking = true) ∨ (s.sys.workers w).pc = .poke →
      s.arrive d w command ok = some s' → IoEffect d s w s' := by
    intro command ok pokes arrives
    obtain ⟨x, there, done⟩ := Option.bind_eq_some_iff.mp arrives
    obtain ⟨sys, stepped, rfl⟩ := Option.map_eq_some_iff.mp done
    exact .arrived x command ok sys pokes there stepped
  -- A step that is the engine's own.
  have goes : (s.sys.workers w).pc ≠ .submit → (∀ m, (s.sys.workers w).pc ≠ .release m) →
      ((s.sys.workerStep w .go).map fun sys => ({ s with sys := sys } : IoState n ι)) = some s' →
      IoEffect d s w s' := by
    intro outside early moved
    obtain ⟨sys, stepped, rfl⟩ := Option.map_eq_some_iff.mp moved
    exact .quiet .go sys outside (.inl ⟨rfl, early⟩) stepped
  have told : (s.sys.workers w).pc = .submit →
      ((s.submission w).bind fun sub =>
        (c.answer sub (s.view w (slotOf (s.sys.workers w).i)).op
          (hostBounceBuf s.allocated)).bind fun a =>
            (ReadTask.step d s.disk ⟨s.view w (slotOf (s.sys.workers w).i), some sub⟩ a).map
              (s.proceed d w a)) = some s' → IoEffect d s w s' := by
    intro pc out
    obtain ⟨sub, submitting, out⟩ := Option.bind_eq_some_iff.mp out
    obtain ⟨a, answers, out⟩ := Option.bind_eq_some_iff.mp out
    obtain ⟨task, stepped, rfl⟩ := Option.map_eq_some_iff.mp out
    exact .told sub c a task pc submitting answers stepped
  cases pc : (s.sys.workers w).pc with
  | submit =>
      cases c with
      | resolved cells getExtents =>
          simp only [IoState.workerStep, pc] at step
          split at step
          · rename_i fresh
            cases step
            exact .began cells getExtents pc (Option.isNone_iff_eq_none.mp fresh)
          · cases step
      | poked command ok =>
          simp only [IoState.workerStep, pc] at step
          split at step
          · rename_i poking
            obtain ⟨sub, submitting, pokes⟩ := (Option.any_eq_true _ _).mp poking
            exact arrived (.inl ⟨pc, sub, submitting, pokes⟩) step
          · cases step
      | go | enter | retry | attempt | wrote | copies =>
          simp only [IoState.workerStep, pc] at step
          exact told pc step
  | poke =>
      cases c with
      | poked command ok =>
          simp only [IoState.workerStep, pc] at step
          exact arrived (.inr pc) step
      | go =>
          simp only [IoState.workerStep, pc] at step
          exact goes (by simp [pc]) (by simp [pc]) step
      | _ => simp only [IoState.workerStep, pc, reduceCtorEq] at step
  | pwrite =>
      cases c with
      | wrote ret disk =>
          simp only [IoState.workerStep, pc] at step
          obtain ⟨sys, stepped, rfl⟩ := Option.map_eq_some_iff.mp step
          exact .wrote ret disk sys pc stepped
      | go =>
          simp only [IoState.workerStep, pc] at step
          exact goes (by simp [pc]) (by simp [pc]) step
      | _ => simp only [IoState.workerStep, pc, reduceCtorEq] at step
  | reap =>
      cases c with
      | copies ok =>
          simp only [IoState.workerStep, pc, IoState.reap] at step
          split at step
          · rename_i all
            obtain ⟨sys, stepped, rfl⟩ := Option.map_eq_some_iff.mp step
            exact .reaped ok sys pc all.1 all.2 stepped
          · rename_i some'
            obtain ⟨sys, stepped, rfl⟩ := Option.map_eq_some_iff.mp step
            exact .quiet (.copies true) sys (by simp [pc]) (.inr ⟨rfl, some'⟩) stepped
      | go =>
          simp only [IoState.workerStep, pc] at step
          exact goes (by simp [pc]) (by simp [pc]) step
      | _ => simp only [IoState.workerStep, pc, reduceCtorEq] at step
  | release m =>
      cases c with
      | go =>
          simp only [IoState.workerStep, pc] at step
          obtain ⟨sys, stepped, rfl⟩ := Option.map_eq_some_iff.mp step
          exact .released m sys pc stepped
      | _ => simp only [IoState.workerStep, pc, reduceCtorEq] at step
  | _ =>
      cases c with
      | go =>
          simp only [IoState.workerStep, pc] at step
          exact goes (by simp [pc]) (by simp [pc]) step
      | _ => simp only [IoState.workerStep, pc, reduceCtorEq] at step

end OpenDS.DataPath
