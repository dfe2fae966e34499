import OpenDS.Library.Interrupts
import OpenDS.Python.Runs

/-!
# Signals on the main thread, and whether `_cleanup` waits for its own thread

The main thread executes the calls of its host, and `_signal_cleanup` runs on it between
any two operations (`host`). `_lock` is reentrant, so the one wait that cannot end is
`_cleanup` acquiring the registry lock that the interrupted code holds.

That happens to a signal that arrives while the registry lock is held, no `_cleanup` is
in progress and the driver is referenced. `SafePoint` excludes it. When every signal of a
run arrives at a safe point, no handler of the run waits for its own thread, however the
signals nest (`cleanup_never_waits`). At any other point, an undisturbed handler waits
(`signalCleanup_run_eq_none_iff`).
-/

set_option autoImplicit false

namespace OpenDS.Python

open OpenDS.Library

/-- The main thread. A terminated process takes no step, and a signal is routed to the
module while its handler is the current one. -/
def host : Host Op Op.Ans PyError ModuleState Env Signal Call where
  exec env op s := if s.terminated then none else exec { env with mainThread := true } op s
  handler := signalCleanup
  routed sig s := !s.terminated && s.handlers sig == .signalCleanup
  start := Call.program

/-- The main thread of a process that has just imported the module. -/
def freshTask (handlers : Signal → Disposition) : Task Op Op.Ans PyError ModuleState :=
  ⟨.initial handlers, pure (), []⟩

theorem host_exec {env : Env} {op : Op} {s s' : ModuleState} {answer : Except PyError op.Ans}
    (step : host.exec env op s = some (answer, s')) :
    exec { env with mainThread := true } op s = some (answer, s') := by
  simp only [host] at step
  split at step
  · cases step
  · exact step

/-- The running handler waits for a lock that its own thread holds. -/
def WaitsForItself (t : Task Op Op.Ans PyError ModuleState) : Prop :=
  ∃ closing op next rest env, t.handlers = .act closing op next :: rest ∧
    exec env op t.world = none

/-- Where a signal may arrive without harm: the registry lock is free, or a `_cleanup` is
in progress, or the driver is not referenced. -/
def SafePoint (s : ModuleState) : Prop :=
  s.registryLocked = true → s.cleaning = true ∨ s.driverRefs ≤ 0

namespace Deadlock

/-- What complete handlers do at most: they leave the registry lock as it was, do not end
the `_cleanup` of someone else, and add no reference. -/
structure Between (s s' : ModuleState) : Prop where
  registry : s'.registryLocked = s.registryLocked
  cleaning : s.cleaning = true → s'.cleaning = true
  refs : s.driverRefs ≤ 0 → s'.driverRefs ≤ 0

theorem Between.trans {s s' s'' : ModuleState} (first : Between s s') (second : Between s' s'') :
    Between s s'' :=
  ⟨second.registry.trans first.registry, fun h => second.cleaning (first.cleaning h),
    fun h => second.refs (first.refs h)⟩

theorem laws : Interference Between Between where
  refl _ := ⟨rfl, id, id⟩
  trans _ _ _ := Between.trans
  complete _ _ := id
  before_after _ _ _ := Between.trans
  after_before _ _ _ := Between.trans

/-- The same without the flag, which `_cleanup` resets at its end. -/
structure Quiet (s s' : ModuleState) : Prop where
  registry : s'.registryLocked = s.registryLocked
  refs : s.driverRefs ≤ 0 → s'.driverRefs ≤ 0

theorem Between.quiet {s s' : ModuleState} (between : Between s s') : Quiet s s' :=
  ⟨between.registry, between.refs⟩

theorem Quiet.trans {s s' s'' : ModuleState} (first : Quiet s s') (second : Quiet s' s'') :
    Quiet s s'' :=
  ⟨second.registry.trans first.registry, fun h => second.refs (first.refs h)⟩

theorem quiet_stable (s : ModuleState) : Stable Between (Quiet s) :=
  fun _ _ during quiet => quiet.trans during.quiet

theorem between_stable (s : ModuleState) : Stable Between (Between s) :=
  fun _ _ during between => between.trans during

/-- An acquisition finds the registry lock free. -/
def Finds (op : Op) (s : ModuleState) : Prop :=
  op = .acquire .registry → s.registryLocked = false

abbrev Holds {α : Type} (p : Py α) (post : ModuleState → Prop) (s : ModuleState) : Prop :=
  p.Keeps host.exec Between Between Finds (fun _ => post) s

/-- The operations of `_registry.clear()` inside its lock. -/
def ClearsRegistry : Op → Prop
  | .regsKeys => True
  | .bufDeregister _ => True
  | .regsClear => True
  | _ => False

/-- The operations that hand a signal on. -/
def HandsOn : Op → Prop
  | .getPrev _ => True
  | .invoke _ _ => True
  | .setsignal _ _ => True
  | .kill _ => True
  | _ => False

theorem exec_clearsRegistry {env : Env} {op : Op} {s s' : ModuleState}
    {answer : Except PyError op.Ans} (clears : ClearsRegistry op)
    (step : exec env op s = some (answer, s')) :
    s'.registryLocked = s.registryLocked ∧ s'.driverRefs = s.driverRefs := by
  cases op <;> simp only [ClearsRegistry] at clears <;> cases step <;> exact ⟨rfl, rfl⟩

theorem exec_handsOn {env : Env} {op : Op} {s s' : ModuleState}
    {answer : Except PyError op.Ans} (handsOn : HandsOn op)
    (step : exec env op s = some (answer, s')) : Between s s' := by
  cases op <;> simp only [HandsOn] at handsOn <;> simp only [exec] at step
  case getPrev =>
      cases step
      exact ⟨rfl, id, id⟩
  case kill =>
      cases step
      exact ⟨rfl, id, id⟩
  case setsignal =>
      split at step <;> cases step <;> exact ⟨rfl, id, id⟩
  case invoke =>
      split at step <;> cases step <;> exact ⟨rfl, id, id⟩

/-- `_registry.clear()` needs its lock to be free. -/
theorem holds_registryClear {s : ModuleState} (free : s.registryLocked = false) :
    Holds registryClear (Quiet s) s := by
  let inside : ModuleState → Prop :=
    fun s' => s'.registryLocked = true ∧ (s.driverRefs ≤ 0 → s'.driverRefs ≤ 0)
  have uses : Prog.Uses ClearsRegistry (do
      let ptrs ← call .regsKeys
      Prog.forEach (fun ptr => call (.bufDeregister ptr)) ptrs
      call .regsClear : Py Unit) := by
    apply Prog.uses_bind (Prog.uses_call trivial)
    intro ptrs
    apply Prog.uses_bind (Prog.uses_forEach (fun _ => Prog.uses_call trivial) ptrs)
    intro _
    exact Prog.uses_call trivial
  refine Prog.keeps_within laws inside (quiet_stable s) (fun _ late => late.quiet) ?_ ?_
  · intro s₁ during
    have free₁ : s₁.registryLocked = false := during.registry.trans free
    refine ⟨fun _ => free₁, fun env answer s₂ step => ?_⟩
    have step := host_exec step
    simp only [exec, free₁, Bool.false_eq_true, if_false] at step
    cases step
    refine uses.keeps laws ?_ ?_ ?_ ⟨rfl, during.refs⟩
    · intro s₃ s₄ during holds
      exact ⟨during.registry.trans holds.1, fun h => during.refs (holds.2 h)⟩
    · intro op _ clears _ same
      subst same
      exact clears.elim
    · intro env op s₃ answer s₄ clears holds step
      obtain ⟨registry, refs⟩ := exec_clearsRegistry clears (host_exec step)
      exact ⟨registry.trans holds.1, fun h => refs ▸ holds.2 h⟩
  · intro s₁ s₂ holds during
    refine ⟨fun same => ?_, fun env answer s₃ step => ?_⟩
    · cases same
    · have step := host_exec step
      cases step
      exact ⟨free.symm, fun h => during.refs (holds.2 h)⟩

/-- The operations that leave the registry lock alone and add no reference. -/
def Mild : Op → Prop
  | .acquire .registry => False
  | .release .registry => False
  | .setDriverRefs n => n ≤ 0
  | _ => True

theorem Mild.finds {op : Op} (mild : Mild op) (s : ModuleState) : Finds op s := by
  intro same
  subst same
  exact mild.elim

theorem exec_mild {env : Env} (op : Op) {s s' : ModuleState} {answer : Except PyError op.Ans}
    (mild : Mild op) (step : exec env op s = some (answer, s')) : Quiet s s' := by
  cases op with
  | acquire l =>
      cases l with
      | module =>
          cases step
          exact ⟨rfl, id⟩
      | registry => exact mild.elim
  | release l =>
      cases l with
      | module =>
          cases step
          exact ⟨rfl, id⟩
      | registry => exact mild.elim
  | setDriverRefs n =>
      cases step
      exact ⟨rfl, fun _ => mild⟩
  | driverOpen =>
      cases step
      unfold ModuleState.openDriver
      split_ifs <;> exact ⟨rfl, id⟩
  | driverClose =>
      cases step
      unfold ModuleState.closeDriver
      split_ifs <;> exact ⟨rfl, id⟩
  | osOpen | osClose | setsignal | invoke =>
      simp only [exec] at step
      split at step <;> cases step <;> exact ⟨rfl, id⟩
  | _ =>
      cases step
      exact ⟨rfl, id⟩

/-- A mild operation, and what follows. -/
theorem holds_call_bind {α : Type} (op : Op) {f : op.Ans → Py α} {s₀ s : ModuleState}
    (mild : Mild op) (quiet : Quiet s₀ s)
    (next : ∀ env s₁ answer s₂, Quiet s₀ s₂ → exec env op s₁ = some (answer, s₂) →
      match answer with
      | .ok a => Holds (f a) (Quiet s₀) s₂
      | .error _ => True) : Holds (call op >>= f) (Quiet s₀) s := by
  refine Prog.keeps_call_bind laws (quiet_stable s₀) (fun _ late => quiet.trans late.quiet) ?_
  intro s₁ during
  refine ⟨mild.finds s₁, fun env answer s₂ step => ?_⟩
  have quiet₂ : Quiet s₀ s₂ := (quiet.trans during.quiet).trans (exec_mild op mild (host_exec step))
  have rest := next _ s₁ answer s₂ quiet₂ (host_exec step)
  cases answer with
  | ok a => exact rest
  | error e => exact quiet₂

/-- The part of `_cleanup` under `_lock` needs a free registry lock while there are
references. -/
theorem holds_cleanupDriver {s : ModuleState}
    (free : s.registryLocked = true → s.driverRefs ≤ 0) : Holds cleanupDriver (Quiet s) s := by
  refine Prog.keeps_within laws (Quiet s) (quiet_stable s) (fun _ late => late.quiet) ?_ ?_
  · intro s₁ during
    refine ⟨nofun, fun env answer s₂ step => ?_⟩
    have quiet₂ : Quiet s s₂ :=
      during.quiet.trans (exec_mild (.acquire .module) trivial (host_exec step))
    have step := host_exec step
    cases step
    apply holds_call_bind .getDriverRefs trivial quiet₂
    intro env s₂ answer s₃ quiet₃ step
    cases step
    dsimp only
    split
    case isFalse => exact Prog.keeps_done laws (quiet_stable s) quiet₃
    case isTrue referenced =>
      have free₂ : s.registryLocked = false := by
        by_contra locked
        exact absurd referenced (not_lt.mpr (quiet₃.refs (free (by simpa using locked))))
      apply holds_call_bind .pinnedClear trivial quiet₃
      intro env s₃ answer s₄ quiet₄ step
      cases step
      refine Prog.keeps_bind laws (Quiet s) (quiet_stable s) ?_ (fun _ => id) ?_
      · refine (holds_registryClear ?_).mono fun _ s₅ cleared => quiet₄.trans cleared
        exact quiet₄.registry.trans free₂
      · intro _ s₄ quiet₄
        apply holds_call_bind .driverClose trivial quiet₄
        intro env s₄ answer s₅ quiet₅ step
        cases step
        exact Prog.keeps_call laws (quiet_stable s) (fun _ late => quiet₅.trans late.quiet)
          fun s₆ during => ⟨nofun, fun env answer s₇ step => (quiet₅.trans during.quiet).trans
            (exec_mild (.setDriverRefs 0) (le_refl 0) (host_exec step))⟩
  · intro s₁ s₂ quiet during
    exact ⟨nofun, fun env answer s₃ step => (quiet.trans during.quiet).trans
      (exec_mild (.release .module) trivial (host_exec step))⟩

/-- `_cleanup` needs a safe point. -/
theorem holds_cleanup {s : ModuleState} (safe : SafePoint s) : Holds cleanup (Between s) s := by
  refine Prog.keeps_call_bind laws (between_stable s) (fun _ late => late) ?_
  intro s₁ during
  refine ⟨nofun, fun env answer s₂ step => ?_⟩
  have step := host_exec step
  cases step
  dsimp only
  split
  case isTrue => exact Prog.keeps_done laws (between_stable s) during
  case isFalse idle =>
    have first : s.cleaning = true → False := fun cleaning => idle (during.cleaning cleaning)
    have free : s.registryLocked = true → s.driverRefs ≤ 0 :=
      fun locked => (safe locked).resolve_left first
    refine Prog.keeps_call_bind laws (between_stable s) (fun _ late => during.trans late) ?_
    intro s₂ during₂
    refine ⟨nofun, fun env answer s₃ step => ?_⟩
    have quiet₃ : Quiet s s₃ := (during.trans during₂).quiet.trans
      (exec_mild (.setCleaning true) trivial (host_exec step))
    have step := host_exec step
    cases step
    refine Prog.keeps_tryFinally laws (Quiet s) (between_stable s) ?_ ?_
    · refine (holds_cleanupDriver ?_).mono fun _ s₄ cleaned => quiet₃.trans cleaned
      intro locked
      exact quiet₃.refs (free (quiet₃.registry ▸ locked))
    · intro s₄ quiet₄
      refine Prog.keeps_call laws (between_stable s) (fun s₅ late => ?_) fun s₅ during => ?_
      · have quiet₅ := quiet₄.trans late.quiet
        exact ⟨quiet₅.registry, fun cleaning => (first cleaning).elim, quiet₅.refs⟩
      · refine ⟨nofun, fun env answer s₆ step => ?_⟩
        have quiet₆ := (quiet₄.trans during.quiet).trans
          (exec_mild (.setCleaning false) trivial (host_exec step))
        exact ⟨quiet₆.registry, fun cleaning => (first cleaning).elim, quiet₆.refs⟩

/-- The handler needs a safe point, and does no more than complete handlers may. -/
theorem holds_signalCleanup (sig : Signal) {s : ModuleState} (safe : SafePoint s) :
    Holds (signalCleanup sig) (Between s) s := by
  refine Prog.keeps_bind laws (Between s) (between_stable s) (holds_cleanup safe) (fun _ => id) ?_
  intro _ s₁ between
  have uses : (giveAway sig).Uses HandsOn := by
    apply Prog.uses_bind (Prog.uses_call trivial)
    intro prev
    split
    · exact Prog.uses_call trivial
    · exact Prog.uses_bind (Prog.uses_call trivial) fun _ => Prog.uses_call trivial
  refine uses.keeps laws (between_stable s) ?_ ?_ between
  · intro op _ handsOn _ same
    subst same
    exact handsOn.elim
  · intro env op s₂ answer s₃ handsOn between step
    exact between.trans (exec_handsOn handsOn (host_exec step))

end Deadlock

/-- The only wait of a thread for itself. -/
theorem exec_eq_none_iff {env : Env} {op : Op} {s : ModuleState} :
    exec env op s = none ↔ op = .acquire .registry ∧ s.registryLocked = true := by
  cases op with
  | acquire l => cases l <;> simp [exec, ModuleState.effect]
  | release l => cases l <;> simp [exec, ModuleState.effect]
  | osOpen | osClose | setsignal | invoke =>
      simp only [exec]
      split <;> simp [ModuleState.effect]
  | _ => simp [exec, ModuleState.effect]

/-- Handing a signal on never waits. -/
theorem runPy_signalCleanup_ne_none {env : Env} {sig : Signal} {s s' : ModuleState}
    (cleaned : runPy env cleanup s = some (.ok (), s')) :
    runPy env (signalCleanup sig) s ≠ none := by
  unfold signalCleanup giveAway
  rw [runPy_bind_ok cleaned, runPy_call_bind rfl]
  split
  · rw [runPy_call, Ne, exec_eq_none_iff]
    exact fun wait => nomatch wait.1
  · unfold runPy
    rw [Prog.run_bind, Prog.run_call]
    cases main : env.mainThread <;> simp [exec, ModuleState.effect, main]

/-- **An undisturbed handler waits for its own thread exactly when its signal arrives at a
point that is not safe.** -/
theorem signalCleanup_run_eq_none_iff {env : Env} {sig : Signal} {s : ModuleState} :
    runPy env (signalCleanup sig) s = none ↔ ¬ SafePoint s := by
  by_cases busy : s.cleaning = true
  · have quick : runPy env (signalCleanup sig) s ≠ none :=
      runPy_signalCleanup_ne_none (runPy_cleanup_reentrant busy)
    simp [SafePoint, busy, quick]
  have idle : s.cleaning = false := by simpa using busy
  by_cases refs : 0 < s.driverRefs
  · cases locked : s.registryLocked with
    | true =>
        have waits : runPy env (signalCleanup sig) s = none :=
          runPy_bind_none (runPy_cleanup_none idle refs locked)
        simp [SafePoint, waits, idle, locked, refs]
    | false =>
        have quick : runPy env (signalCleanup sig) s ≠ none :=
          runPy_signalCleanup_ne_none (runPy_cleanup idle refs locked)
        simp [SafePoint, locked, quick]
  · have quick : runPy env (signalCleanup sig) s ≠ none :=
      runPy_signalCleanup_ne_none (runPy_cleanup_unreferenced idle refs)
    simp [SafePoint, idle, quick, not_lt.mp refs]

/-- **No handler waits for its own thread when every signal arrives at a safe point**, and
in every state of such a run a signal makes its handler wait exactly if the state is no
safe point. -/
theorem cleanup_never_waits {handlers : Signal → Disposition} {events : List (Event Env Signal Call)}
    {t : Task Op Op.Ans PyError ModuleState}
    (safe : host.machine.Meets (fun t e => ∀ sig, e = .signal sig → SafePoint t.world) events
      (freshTask handlers))
    (ran : host.machine.run events (freshTask handlers) = some t) :
    ¬ WaitsForItself t ∧
      ∀ env sig, runPy env (signalCleanup sig) t.world = none ↔ ¬ SafePoint t.world := by
  refine ⟨?_, fun env sig => signalCleanup_run_eq_none_iff⟩
  rintro ⟨closing, op, next, rest, env, running, waits⟩
  have finds := Host.run_keeps Deadlock.laws
    (fun sig s _ safe => Deadlock.holds_signalCleanup sig safe) rfl safe ran
  rw [running] at finds
  obtain ⟨acquires, locked⟩ := exec_eq_none_iff.mp waits
  exact absurd (finds acquires) (by simp [locked])

/-- The calls of `register_buffer` on one buffer, a signal after `n` of its operations, and
`m` operations of the handler. -/
def registerThenSignal (n m : Nat) : List (Event Env Signal Call) :=
  .call (.registerBuffer ⟨4096, none⟩ (some 4096)) :: List.replicate n (.tick granted) ++
    .signal .sigterm :: List.replicate m (.tick granted)

/-- The test that a signal of a run arrives at a safe point. -/
def arrivesSafely (t : Task Op Op.Ans PyError ModuleState) : Event Env Signal Call → Bool
  | .signal _ => !t.world.registryLocked || t.world.cleaning || t.world.driverRefs ≤ 0
  | _ => true

theorem arrivesSafely_sound (t : Task Op Op.Ans PyError ModuleState) (e : Event Env Signal Call)
    (passes : arrivesSafely t e = true) : ∀ sig, e = .signal sig → SafePoint t.world := by
  intro sig same locked
  subst same
  simpa [arrivesSafely, locked] using passes

/-- A signal that arrives while `register_buffer` inserts its pointer under `_lock`. -/
theorem cleanup_never_waits_inserting :
    ¬ WaitsForItself ((host.machine.run (registerThenSignal 21 5) (freshTask fun _ => .sigDfl)).get
      (by decide)) :=
  (cleanup_never_waits (Machine.meets_of_check arrivesSafely_sound (by decide))
    (Option.some_get _).symm).1

/-- **A signal inside `_registry.ensure` of `register_buffer` makes `_cleanup` wait for its
own thread.** -/
theorem cleanup_waits_in_registryEnsure :
    ∃ t, host.machine.run (registerThenSignal 16 5) (freshTask fun _ => .sigDfl) = some t ∧
      WaitsForItself t :=
  ⟨_, rfl, false, .acquire .registry, _, _, granted, rfl, rfl⟩

end OpenDS.Python
