import OpenDS.Python.File

/-!
# The functions of `opends._file`, run to the end

What each function does to the globals of the module when no signal interrupts it and the
thread that calls it holds no lock. The native calls answer what the environment says.
-/

set_option autoImplicit false

namespace OpenDS.Python

open OpenDS.Library

/-- Run a function to its end. -/
def runPy {α : Type} (env : Env) (p : Py α) (s : ModuleState) :
    Option (Except PyError α × ModuleState) :=
  p.run (exec env) s

variable {α β : Type} {env : Env} {s : ModuleState}

@[simp] theorem runPy_pure (a : α) : runPy env (pure a : Py α) s = some (.ok a, s) := rfl

@[simp] theorem runPy_raise (e : PyError) : runPy env (raise e : Py α) s = some (.error e, s) :=
  rfl

@[simp] theorem runPy_call (op : Op) : runPy env (call op) s = exec env op s :=
  Prog.run_call op s

theorem runPy_bind_ok {p : Py α} {f : α → Py β} {s' : ModuleState} {a : α}
    (ran : runPy env p s = some (.ok a, s')) : runPy env (p >>= f) s = runPy env (f a) s' :=
  Prog.run_bind_ok ran

/-- An operation that answers, and what follows. -/
theorem runPy_call_bind {op : Op} {f : op.Ans → Py β} {s' : ModuleState} {a : op.Ans}
    (step : exec env op s = some (.ok a, s')) :
    runPy env (call op >>= f) s = runPy env (f a) s' :=
  Prog.run_bind_ok ((Prog.run_call op s).trans step)

/-- `with _lock:` around a function that returns with the depth it was called at. -/
theorem runPy_withLock_module {body : Py α} {r : Except PyError α} {s' : ModuleState}
    (ran : runPy env body { s with lockDepth := s.lockDepth + 1 } =
      some (r, { s' with lockDepth := s'.lockDepth + 1 })) :
    runPy env (withLock .module body) s = some (r, s') := by
  have inner : body.run (exec env) { s with lockDepth := s.lockDepth + 1 } =
    some (r, { s' with lockDepth := s'.lockDepth + 1 }) := ran
  simp only [runPy, withLock, Prog.run_within, exec, ModuleState.effect, Option.bind_some, inner]
  rfl

/-- `with self._lock:` in a method of `_Registry`. -/
theorem runPy_withLock_registry {body : Py α} {r : Except PyError α} {s' : ModuleState}
    (free : s.registryLocked = false)
    (ran : runPy env body { s with registryLocked := true } =
      some (r, { s' with registryLocked := true }))
    (free' : s'.registryLocked = false) :
    runPy env (withLock .registry body) s = some (r, s') := by
  have inner : body.run (exec env) { s with registryLocked := true } =
    some (r, { s' with registryLocked := true }) := ran
  simp only [runPy, withLock, Prog.run_within, exec, free, Bool.false_eq_true, if_false,
    ModuleState.effect, Option.bind_some, inner]
  rw [← free']

/-- The wait of a thread that holds the registry lock already. -/
theorem runPy_withLock_registry_none {body : Py α} (locked : s.registryLocked = true) :
    runPy env (withLock .registry body) s = none := by
  simp [runPy, withLock, Prog.run_within, exec, locked]

theorem runPy_forEach_bufDeregister (ptrs : List Nat) :
    runPy env (Prog.forEach (fun ptr => call (.bufDeregister ptr)) ptrs) s = some (.ok (), s) := by
  induction ptrs with
  | nil => rfl
  | cons ptr rest ih => exact ih

/-- `_registry.clear()` -/
theorem runPy_registryClear (free : s.registryLocked = false) :
    runPy env registryClear s = some (.ok (), { s with regs := [] }) := by
  refine runPy_withLock_registry free ?_ free
  rw [runPy_call_bind rfl, runPy_bind_ok (runPy_forEach_bufDeregister _)]
  rfl

theorem runPy_registryClear_none (locked : s.registryLocked = true) :
    runPy env registryClear s = none :=
  runPy_withLock_registry_none locked

theorem runPy_tryFinally {p : Py α} {last : Py Unit} {r : Except PyError α} {s' s'' : ModuleState}
    (ran : runPy env p s = some (r, s')) (final : runPy env last s' = some (.ok (), s'')) :
    runPy env (Prog.tryFinally p last) s = some (r, s'') := by
  unfold runPy at *
  rw [Prog.run_tryFinally, ran]
  simp [final]

/-! ## Cleaning up -/

/-- The state that `_cleanup` leaves. -/
def cleaned (s : ModuleState) : ModuleState :=
  { s with pinned := ∅, regs := [], driverOpen := false, driverRefs := 0 }

theorem runPy_driverClose (env : Env) (s : ModuleState) : ∃ err : DsError,
    exec env .driverClose s = some (.ok err, { s with driverOpen := false }) := by
  simp only [exec, ModuleState.closeDriver]
  split_ifs with opened
  · exact ⟨_, rfl⟩
  · refine ⟨_, congrArg (fun t => some (_, t)) ?_⟩
    cases s
    simp_all

/-- `with _lock:` of `_cleanup` while the driver is referenced. -/
theorem runPy_cleanupDriver (refs : 0 < s.driverRefs) (free : s.registryLocked = false) :
    runPy env cleanupDriver s = some (.ok (), cleaned s) := by
  refine runPy_withLock_module ?_
  rw [runPy_call_bind rfl, if_pos refs, runPy_call_bind rfl]
  refine (runPy_bind_ok (runPy_registryClear (by exact free))).trans ?_
  obtain ⟨err, closed⟩ := runPy_driverClose env
    { s with lockDepth := s.lockDepth + 1, pinned := ∅, regs := [] }
  rw [runPy_call_bind closed]
  rfl

theorem runPy_cleanupDriver_unreferenced (refs : ¬ 0 < s.driverRefs) :
    runPy env cleanupDriver s = some (.ok (), s) := by
  refine runPy_withLock_module ?_
  rw [runPy_call_bind rfl, if_neg refs]
  rfl

/-- A `_cleanup` inside another one does nothing. -/
theorem runPy_cleanup_reentrant (busy : s.cleaning = true) :
    runPy env cleanup s = some (.ok (), s) := by
  unfold cleanup
  rw [runPy_call_bind rfl, if_pos busy]
  rfl

/-- `_cleanup` while the driver is referenced. -/
theorem runPy_cleanup (idle : s.cleaning = false) (refs : 0 < s.driverRefs)
    (free : s.registryLocked = false) : runPy env cleanup s = some (.ok (), cleaned s) := by
  unfold cleanup
  rw [runPy_call_bind rfl, if_neg (by simp [idle]), runPy_call_bind rfl]
  refine Eq.trans (runPy_tryFinally (runPy_cleanupDriver refs free) rfl) ?_
  simp [cleaned, idle]

theorem runPy_cleanup_unreferenced (idle : s.cleaning = false) (refs : ¬ 0 < s.driverRefs) :
    runPy env cleanup s = some (.ok (), s) := by
  unfold cleanup
  rw [runPy_call_bind rfl, if_neg (by simp [idle]), runPy_call_bind rfl]
  refine Eq.trans (runPy_tryFinally (runPy_cleanupDriver_unreferenced refs) rfl) ?_
  rw [← idle]

/-- A function that never returns is not continued. -/
theorem runPy_bind_none {p : Py α} {f : α → Py β} (ran : runPy env p s = none) :
    runPy env (p >>= f) s = none := by
  unfold runPy at *
  rw [Prog.run_bind, ran]
  rfl

/-- `_cleanup` on a thread that holds the registry lock. -/
theorem runPy_cleanup_none (idle : s.cleaning = false) (refs : 0 < s.driverRefs)
    (locked : s.registryLocked = true) : runPy env cleanup s = none := by
  unfold cleanup
  rw [runPy_call_bind rfl, if_neg (by simp [idle]), runPy_call_bind rfl]
  have inner : runPy env (do
      let refs ← call .getDriverRefs
      if refs > 0 then
        call .pinnedClear
        registryClear
        let _ ← call .driverClose
        call (.setDriverRefs 0) : Py Unit)
      { s with cleaning := true, lockDepth := s.lockDepth + 1 } = none := by
    rw [runPy_call_bind rfl, if_pos refs, runPy_call_bind rfl]
    exact runPy_bind_none (runPy_registryClear_none locked)
  unfold runPy at *
  rw [Prog.run_tryFinally, cleanupDriver, withLock, Prog.run_within]
  simp [exec, ModuleState.effect, inner]

/-- The operations of `_cleanup`. -/
def CleanupOp : Op → Prop
  | .acquire _ => True
  | .release _ => True
  | .getDriverRefs => True
  | .setDriverRefs _ => True
  | .getCleaning => True
  | .setCleaning _ => True
  | .pinnedClear => True
  | .regsKeys => True
  | .regsClear => True
  | .bufDeregister _ => True
  | .driverClose => True
  | _ => False

theorem uses_clearLoop (ptrs : List Nat) :
    (Prog.forEach (fun ptr => call (.bufDeregister ptr)) ptrs : Py Unit).Uses CleanupOp :=
  Prog.uses_forEach (fun _ => Prog.uses_call trivial) ptrs

theorem uses_registryClear : registryClear.Uses CleanupOp := by
  apply Prog.uses_within trivial trivial
  apply Prog.uses_bind (Prog.uses_call trivial)
  intro ptrs
  apply Prog.uses_bind (uses_clearLoop ptrs)
  intro _
  exact Prog.uses_call trivial

/-- The part of `_cleanup` that runs if the driver is referenced. -/
theorem uses_closing : (do
    call .pinnedClear
    registryClear
    let _ ← call .driverClose
    call (.setDriverRefs 0) : Py Unit).Uses CleanupOp := by
  apply Prog.uses_bind (Prog.uses_call trivial)
  intro _
  apply Prog.uses_bind uses_registryClear
  intro _
  apply Prog.uses_bind (Prog.uses_call trivial)
  intro _
  exact Prog.uses_call trivial

/-- The part of `_cleanup` inside `with _lock`. -/
theorem uses_cleanupBody : (do
    let refs ← call .getDriverRefs
    if refs > 0 then
      call .pinnedClear
      registryClear
      let _ ← call .driverClose
      call (.setDriverRefs 0) : Py Unit).Uses CleanupOp := by
  apply Prog.uses_bind (Prog.uses_call trivial)
  intro refs
  split
  · exact uses_closing
  · trivial

/-- The part of `_cleanup` that runs if no other one is in progress. -/
theorem uses_cleaning : (do
    call (.setCleaning true)
    Prog.tryFinally cleanupDriver (call (.setCleaning false)) : Py Unit).Uses CleanupOp := by
  apply Prog.uses_bind (Prog.uses_call trivial)
  intro _
  exact Prog.uses_tryFinally (Prog.uses_within trivial trivial uses_cleanupBody)
    (Prog.uses_call trivial)

theorem uses_cleanup : cleanup.Uses CleanupOp := by
  apply Prog.uses_bind (Prog.uses_call trivial)
  intro cleaning
  split
  · trivial
  · exact uses_cleaning

/-! ## Opening and releasing the driver -/

/-- What `_install_signal_handlers` does about one signal. -/
def installed (env : Env) (s : ModuleState) (sig : Signal) : ModuleState :=
  if s.handlers sig = .signalCleanup ∨ env.mainThread = false then s
  else { s with
    handlers := Function.update s.handlers sig .signalCleanup
    prevHandlers := Function.update s.prevHandlers sig (some (s.handlers sig)) }

/-- What `_install_signal_handlers` does. -/
def allInstalled (env : Env) (s : ModuleState) : ModuleState :=
  installed env (installed env s .sigterm) .sigint

theorem runPy_installSignalHandler (sig : Signal) :
    runPy env (installSignalHandler sig) s = some (.ok (), installed env s sig) := by
  unfold runPy installSignalHandler
  rw [Prog.run_tryExcept]
  change (runPy env _ s).bind _ = _
  rw [runPy_call_bind rfl]
  by_cases ours : s.handlers sig = .signalCleanup
  · rw [if_pos ours]
    simp [installed, ours]
  · rw [if_neg ours]
    cases main : env.mainThread <;>
      simp [runPy, Prog.run_bind, exec, ModuleState.effect, installed, main, ours,
        PyError.isValueOrOS]

theorem runPy_installSignalHandlers :
    runPy env installSignalHandlers s = some (.ok (), allInstalled env s) := by
  refine Eq.trans (runPy_bind_ok (runPy_installSignalHandler _)) ?_
  refine Eq.trans (runPy_bind_ok (runPy_installSignalHandler _)) ?_
  rfl

theorem runPy_bind_error {p : Py α} {f : α → Py β} {s' : ModuleState} {e : PyError}
    (ran : runPy env p s = some (.error e, s')) : runPy env (p >>= f) s = some (.error e, s') :=
  Prog.run_bind_error ran

/-- The driver is open exactly while it is referenced. -/
structure Counted (s : ModuleState) : Prop where
  refs : 0 ≤ s.driverRefs
  open_iff : s.driverOpen = true ↔ 0 < s.driverRefs

/-- The native driver opens, or is open already when it is referenced. -/
theorem exec_driverOpen (closed : s.driverOpen = false) :
    exec env .driverOpen s = some (.ok env.driverOpen,
      if env.driverOpen.err = opendsSuccess then { s with driverOpen := true } else s) := by
  simp only [exec, ModuleState.openDriver, closed, Bool.false_eq_true, if_false]
  split_ifs <;> rfl

/-- The first reference finds the driver closed. -/
theorem Counted.closed (counted : Counted s) (first : s.driverRefs = 0) : s.driverOpen = false := by
  have unopened := counted.open_iff.not.mpr (by simp [first])
  simpa using unopened

/-- `_ensure_driver` adds a reference, and opens the driver for the first one. -/
theorem runPy_ensureDriver (counted : Counted s)
    (opens : s.driverRefs = 0 → env.driverOpen.err = opendsSuccess) :
    runPy env ensureDriver s = some (.ok (), allInstalled env
      { s with driverOpen := true, driverRefs := s.driverRefs + 1 }) := by
  have locked : runPy env (withLock .module do
      let refs ← call .getDriverRefs
      if refs = 0 then
        let err ← call .driverOpen
        check err
      let refs ← call .getDriverRefs
      call (.setDriverRefs (refs + 1))) s =
        some (.ok (), { s with driverOpen := true, driverRefs := s.driverRefs + 1 }) := by
    refine runPy_withLock_module ?_
    rw [runPy_call_bind rfl]
    dsimp only
    by_cases first : s.driverRefs = 0
    · have closed := counted.closed first
      rw [if_pos first, runPy_call_bind (exec_driverOpen (by exact closed)), if_pos (opens first),
        check, if_neg (not_not.mpr (opens first))]
      rfl
    · have opened : s.driverOpen = true :=
        counted.open_iff.mpr (lt_of_le_of_ne counted.refs (Ne.symm first))
      rw [if_neg first]
      refine Eq.trans (runPy_call_bind rfl) ?_
      simp only [opened]
      rfl
  refine Eq.trans (runPy_bind_ok locked) ?_
  exact runPy_installSignalHandlers

/-- `_ensure_driver` raises if the first reference cannot open the driver. -/
theorem runPy_ensureDriver_error (counted : Counted s) (first : s.driverRefs = 0)
    (fails : env.driverOpen.err ≠ opendsSuccess) :
    runPy env ensureDriver s =
      some (.error (.openDS env.driverOpen.err env.driverOpen.devErr), s) := by
  refine runPy_bind_error (runPy_withLock_module ?_)
  rw [runPy_call_bind rfl]
  dsimp only
  rw [if_pos first, runPy_call_bind (exec_driverOpen (by exact counted.closed first)),
    if_neg fails, check, if_pos fails]
  rfl

/-- `_release_driver` without a reference does nothing. -/
theorem runPy_releaseDriver_zero (none : s.driverRefs = 0) :
    runPy env releaseDriver s = some (.ok (), s) := by
  refine runPy_withLock_module ?_
  rw [runPy_call_bind rfl, if_pos none]
  rfl

/-- `_release_driver` takes a reference away that is not the last one. -/
theorem runPy_releaseDriver_many (many : 1 < s.driverRefs) :
    runPy env releaseDriver s = some (.ok (), { s with driverRefs := s.driverRefs - 1 }) := by
  have some_ : s.driverRefs ≠ 0 := by omega
  have more : s.driverRefs - 1 ≠ 0 := by omega
  refine runPy_withLock_module ?_
  rw [runPy_call_bind rfl, if_neg some_, runPy_call_bind rfl, runPy_call_bind rfl,
    runPy_call_bind rfl, if_neg more]
  rfl

/-- `_release_driver` closes the driver with the last reference. -/
theorem runPy_releaseDriver_last (last : s.driverRefs = 1) (opened : s.driverOpen = true)
    (free : s.registryLocked = false) :
    runPy env releaseDriver s = some (.ok (), cleaned s) := by
  have some_ : s.driverRefs ≠ 0 := by omega
  have zero : s.driverRefs - 1 = 0 := by omega
  refine runPy_withLock_module ?_
  rw [runPy_call_bind rfl, if_neg some_, runPy_call_bind rfl, runPy_call_bind rfl,
    runPy_call_bind rfl, if_pos zero, runPy_call_bind rfl]
  refine Eq.trans (runPy_bind_ok (runPy_registryClear (by exact free))) ?_
  have closes : exec env .driverClose { s with
      lockDepth := s.lockDepth + 1, driverRefs := s.driverRefs - 1, pinned := ∅, regs := [] } =
      some (.ok .ok, { s with
        lockDepth := s.lockDepth + 1, driverRefs := s.driverRefs - 1, pinned := ∅, regs := [],
        driverOpen := false }) := by
    simp [exec, ModuleState.closeDriver, opened]
  rw [runPy_call_bind closes, check, if_neg (by simp [DsError.ok]), zero]
  rfl

/-! ## The registration cache -/

/-- The pointers in the registration cache. -/
def ModuleState.registered (s : ModuleState) (ptr : Nat) : Prop := ptr ∈ s.regs.map Prod.fst

/-- `self._regs[ptr] = size` -/
theorem mem_regsSet (regs : List (Nat × Int)) (ptr : Nat) (size : Int) (p : Nat) :
    p ∈ (regs.filter (fun r : Nat × Int => r.1 != ptr) ++ [(ptr, size)]).map Prod.fst ↔
      p = ptr ∨ p ∈ regs.map Prod.fst := by
  simp only [List.map_append, List.mem_append, List.mem_map, List.mem_filter, List.map_cons,
    List.map_nil, List.mem_singleton, bne_iff_ne]
  constructor
  · rintro (⟨r, ⟨member, _⟩, same⟩ | same)
    · exact .inr ⟨r, member, same⟩
    · exact .inl same
  · rintro (same | ⟨r, member, same⟩)
    · exact .inr same
    · by_cases new : p = ptr
      · exact .inr new
      · exact .inl ⟨r, ⟨member, same ▸ new⟩, same⟩

/-- What `_registry.ensure` leaves: a registered pointer or an `Exception`, and a cache that
has lost nothing. -/
structure Ensured (ptr : Nat) (s : ModuleState) (r : Except PyError Unit)
    (regs : List (Nat × Int)) : Prop where
  ok : r = .ok () → ptr ∈ regs.map Prod.fst
  error : ∀ e, r = .error e → e.isException = true
  kept : ∀ p ∈ s.regs.map Prod.fst, p ∈ regs.map Prod.fst

/-- `_registry.ensure` changes no more than the cache. -/
theorem runPy_registryEnsure (env : Env) (ptr : Nat) (size : Option Int) (free : s.registryLocked = false) :
    ∃ r regs, runPy env (registryEnsure ptr size) s = some (r, { s with regs := regs }) ∧
      Ensured ptr s r regs := by
  by_cases known : (s.regs.any fun r : Nat × Int => r.1 == ptr) = true
  · obtain ⟨r, member, same⟩ := List.any_eq_true.mp known
    have registered : ptr ∈ s.regs.map Prod.fst :=
      List.mem_map.mpr ⟨r, member, by simpa using same⟩
    refine ⟨.ok (), s.regs, runPy_withLock_registry free ?_ free,
      ⟨fun _ => registered, nofun, fun _ => id⟩⟩
    rw [runPy_call_bind rfl, if_pos known]
    rfl
  · cases size with
    | none =>
        refine ⟨.error (bareUnregistered ptr), s.regs, runPy_withLock_registry free ?_ free,
          ⟨nofun, fun e same => ?_, fun _ => id⟩⟩
        · rw [runPy_call_bind rfl, if_neg known]
          rfl
        · cases same
          rfl
    | some size =>
        let err := if s.driverOpen then env.bufRegister else ⟨opendsDriverNotInitialized, 0⟩
        by_cases fails : err.err ≠ opendsSuccess ∧ err.err ≠ opendsMemoryAlreadyRegistered
        · refine ⟨.error (.openDS err.err err.devErr), s.regs,
            runPy_withLock_registry free ?_ free, ⟨nofun, fun e same => ?_, fun _ => id⟩⟩
          · rw [runPy_call_bind rfl, if_neg known]
            dsimp only
            rw [runPy_call_bind rfl, if_pos fails]
            rfl
          · cases same
            rfl
        · refine ⟨.ok (), s.regs.filter (fun r : Nat × Int => r.1 != ptr) ++ [(ptr, size)],
            runPy_withLock_registry free ?_ free, ⟨fun _ => ?_, nofun, fun p member => ?_⟩⟩
          · rw [runPy_call_bind rfl, if_neg known]
            dsimp only
            rw [runPy_call_bind rfl, if_neg fails]
            rfl
          · exact (mem_regsSet ..).mpr (.inl rfl)
          · exact (mem_regsSet ..).mpr (.inr member)

/-- `_registry.drop` removes the pointer from the cache. -/
theorem runPy_registryDrop (env : Env) (ptr : Nat) (free : s.registryLocked = false) :
    runPy env (registryDrop ptr) s = some (.ok (),
      { s with regs := s.regs.filter fun r : Nat × Int => r.1 != ptr }) := by
  refine runPy_withLock_registry free ?_ free
  rw [runPy_call_bind rfl]
  split_ifs <;> rfl

end OpenDS.Python
