import OpenDS.Library.Transition
import OpenDS.Python.Runs

/-!
# The driver reference count over whole runs of calls

A host opens and closes files, registers and deregisters buffers and calls `_cleanup`, one
call after the other, with any answers of the native library. `Session` keeps, next to the
module, the files that were opened and the pointers that were registered after the latest
`_cleanup` and are still held.

The driver is open exactly while `_driver_refs` is positive, in every run. A file that
was opened before the latest `_cleanup` still believes that it holds a reference. While
no such file is closed at a positive count, every file and pointer that the session holds
keeps the driver open (`driver_kept_open`).
-/

set_option autoImplicit false

namespace OpenDS.Python

open OpenDS.Library

variable {env : Env} {s s' : ModuleState}

/-! ## Specifications of the sections -/

/-- The module between two calls: the driver is counted, the registry lock is free, and no
`_cleanup` is in progress. -/
structure Sound (s : ModuleState) : Prop where
  counted : Counted s
  free : s.registryLocked = false
  idle : s.cleaning = false

/-- Installing the handlers touches the handlers alone. -/
theorem installed_eq (env : Env) (s : ModuleState) (sig : Signal) :
    ∃ handlers prev, installed env s sig = { s with handlers := handlers, prevHandlers := prev } := by
  unfold installed
  split_ifs
  · exact ⟨s.handlers, s.prevHandlers, rfl⟩
  · exact ⟨_, _, rfl⟩

theorem allInstalled_eq (env : Env) (s : ModuleState) :
    ∃ handlers prev, allInstalled env s = { s with handlers := handlers, prevHandlers := prev } := by
  obtain ⟨h, p, first⟩ := installed_eq env s .sigterm
  obtain ⟨h', p', second⟩ := installed_eq env (installed env s .sigterm) .sigint
  refine ⟨h', p', second.trans ?_⟩
  rw [first]

/-- The state after a reference was taken. -/
structure Taken (s s' : ModuleState) : Prop where
  sound : Sound s'
  refs : s'.driverRefs = s.driverRefs + 1
  pinned : s'.pinned = s.pinned
  regs : s'.regs = s.regs
  files : s'.files = s.files

/-- The state after a reference was given back. -/
structure Given (s s' : ModuleState) : Prop where
  sound : Sound s'
  refs : s'.driverRefs = s.driverRefs - 1
  pinned : s'.pinned = if s'.driverRefs = 0 then ∅ else s.pinned
  regs : s'.driverRefs ≠ 0 → s'.regs = s.regs
  files : s'.files = s.files

/-- `_ensure_driver` takes a reference, where the driver is open or opens. -/
theorem ensureDriver_ok (env : Env) (sound : Sound s)
    (opens : s.driverRefs = 0 → env.driverOpen.err = opendsSuccess) :
    ∃ s', runPy env ensureDriver s = some (.ok (), s') ∧ Taken s s' := by
  refine ⟨_, runPy_ensureDriver sound.counted opens, ?_⟩
  obtain ⟨h, p, same⟩ := allInstalled_eq env
    { s with driverOpen := true, driverRefs := s.driverRefs + 1 }
  have nonneg := sound.counted.refs
  rw [same]
  refine ⟨⟨⟨?_, ?_⟩, sound.free, sound.idle⟩, rfl, rfl, rfl, rfl⟩
  · change 0 ≤ s.driverRefs + 1
    omega
  · change true = true ↔ 0 < s.driverRefs + 1
    exact iff_of_true rfl (by omega)

/-- `_ensure_driver` takes a reference or raises. -/
theorem ensureDriver_spec (env : Env) (sound : Sound s) :
    (∃ s', runPy env ensureDriver s = some (.ok (), s') ∧ Taken s s') ∨
      ∃ e, runPy env ensureDriver s = some (.error e, s) := by
  by_cases fails : s.driverRefs = 0 ∧ env.driverOpen.err ≠ opendsSuccess
  · exact .inr ⟨_, runPy_ensureDriver_error sound.counted fails.1 fails.2⟩
  · exact .inl (ensureDriver_ok env sound fun first => not_not.mp fun bad => fails ⟨first, bad⟩)

/-- `_release_driver` gives a reference back. -/
theorem releaseDriver_spec (env : Env) (sound : Sound s) (held : 0 < s.driverRefs) :
    ∃ s', runPy env releaseDriver s = some (.ok (), s') ∧ Given s s' := by
  by_cases last : s.driverRefs = 1
  · refine ⟨_, runPy_releaseDriver_last last (sound.counted.open_iff.mpr held) sound.free, ?_⟩
    refine ⟨⟨⟨le_refl 0, ?_⟩, sound.free, sound.idle⟩, ?_, rfl, fun more => absurd rfl more, rfl⟩
    · exact iff_of_false Bool.false_ne_true (lt_irrefl 0)
    · change (0 : Int) = s.driverRefs - 1
      omega
  · have many : 1 < s.driverRefs := by omega
    have more : s.driverRefs - 1 ≠ 0 := by omega
    refine ⟨_, runPy_releaseDriver_many many, ?_⟩
    refine ⟨⟨⟨?_, ?_⟩, sound.free, sound.idle⟩, rfl, (if_neg more).symm, fun _ => rfl, rfl⟩
    · change 0 ≤ s.driverRefs - 1
      omega
    · change s.driverOpen = true ↔ 0 < s.driverRefs - 1
      exact iff_of_true (sound.counted.open_iff.mpr held) (by omega)

/-- A state that differs in the pins, the cache and the files alone. -/
theorem Sound.congr (sound : Sound s) (opened : s'.driverOpen = s.driverOpen)
    (refs : s'.driverRefs = s.driverRefs) (free : s'.registryLocked = s.registryLocked)
    (idle : s'.cleaning = s.cleaning) : Sound s' :=
  ⟨⟨refs ▸ sound.counted.refs, by rw [opened, refs]; exact sound.counted.open_iff⟩,
    free.trans sound.free, idle.trans sound.idle⟩

/-! ## Specifications of the calls -/

/-- A section, run to its end. -/
def execSection (env : Env) (c : Section) (s : ModuleState) :
    Option (Except PyError c.Ans × ModuleState) :=
  runPy env c.body s

theorem execSection_testPinned (ptr : Nat) :
    execSection env (.testPinned ptr) s = some (.ok (decide (ptr ∈ s.pinned)), s) :=
  runPy_withLock_module rfl

theorem execSection_addPinned (ptr : Nat) (first : Bool) :
    execSection env (.addPinned ptr first) s =
      some (.ok (), { s with pinned := insert ptr s.pinned }) :=
  runPy_withLock_module rfl

theorem execSection_discardPinned (ptr : Nat) :
    execSection env (.discardPinned ptr) s =
      some (.ok (decide (ptr ∈ s.pinned)), { s with pinned := s.pinned.erase ptr }) :=
  runPy_withLock_module rfl

/-- A section that answers, and what follows. -/
theorem run_perform_bind {α : Type} {c : Section} {f : c.Ans → Sections α} {a : c.Ans}
    (step : execSection env c s = some (.ok a, s')) :
    (perform c >>= f).run (execSection env) s = (f a).run (execSection env) s' :=
  Prog.run_bind_ok ((Prog.run_call c s).trans step)

theorem run_perform_bind_error {α : Type} {c : Section} {f : c.Ans → Sections α} {e : PyError}
    (step : execSection env c s = some (.error e, s')) :
    (perform c >>= f).run (execSection env) s = some (.error e, s') :=
  Prog.run_bind_error ((Prog.run_call c s).trans step)

/-- A call over sections runs as its program does. -/
theorem runPy_expand {α : Type} (p : Sections α) :
    runPy env (p.expand Section.body) s = p.run (execSection env) s :=
  Prog.run_expand Section.body p s

/-- `register_buffer` pins its pointer, with a reference for a new one, or raises and
leaves the count as it was. -/
structure Registered (ptr : Nat) (s : ModuleState) (r : Except PyError Unit) (s' : ModuleState) :
    Prop where
  sound : Sound s'
  ok : r = .ok () → s'.pinned = insert ptr s.pinned ∧
    s'.driverRefs = s.driverRefs + if ptr ∈ s.pinned then 0 else 1
  error : r ≠ .ok () → s'.driverRefs = s.driverRefs ∧
    (s'.pinned = s.pinned ∨ s'.driverRefs = 0 ∧ s'.pinned = ∅)

/-- The part of `register_buffer` from `_registry.ensure` on. -/
def registerFrom (ptr : Nat) (size : Int) (first : Bool) : Sections Unit := do
  Prog.tryExcept (perform (.registryEnsure ptr (some size))) PyError.isException fun e => do
    if first then perform .releaseDriver
    Prog.raise e
  perform (.addPinned ptr first)

/-- The part of `register_buffer` after the `_pinned` test. -/
def registerTested (ptr : Nat) (size : Int) (first : Bool) : Sections Unit :=
  if first then do
    perform .ensureDriver
    registerFrom ptr size first
  else registerFrom ptr size first

theorem registerSections_eq (ptr : Nat) (size : Int) :
    registerSections ptr size =
      perform (.testPinned ptr) >>= fun pinned => registerTested ptr size (!pinned) := by
  unfold registerSections registerTested registerFrom
  rfl

theorem registerFrom_spec (env : Env) (sound : Sound s) (ptr : Nat) (size : Int) (first : Bool)
    (held : first = true → 0 < s.driverRefs) :
    ∃ r s', (registerFrom ptr size first).run (execSection env) s = some (r, s') ∧ Sound s' ∧
      (r = .ok () → s'.pinned = insert ptr s.pinned ∧ s'.driverRefs = s.driverRefs) ∧
      (r ≠ .ok () → s'.driverRefs = s.driverRefs - (if first then 1 else 0) ∧
        (s'.pinned = s.pinned ∨ s'.driverRefs = 0 ∧ s'.pinned = ∅)) := by
  obtain ⟨r, regs, ran, ensured⟩ :=
    runPy_registryEnsure env ptr (some size) sound.free
  have sound' : Sound { s with regs := regs } := sound.congr rfl rfl rfl rfl
  have ensures : (perform (.registryEnsure ptr (some size)) : Sections Unit).run (execSection env) s =
      some (r, { s with regs := regs }) := (Prog.run_call _ s).trans ran
  cases r with
  | ok a =>
      have tried : (Prog.tryExcept (perform (.registryEnsure ptr (some size))) PyError.isException
          fun e => do
            if first then perform .releaseDriver
            Prog.raise e : Sections Unit).run (execSection env) s =
          some (.ok a, { s with regs := regs }) := by
        rw [Prog.run_tryExcept, ensures]
        rfl
      refine ⟨.ok (), { s with regs := regs, pinned := insert ptr s.pinned }, ?_,
        sound.congr rfl rfl rfl rfl, fun _ => ⟨rfl, rfl⟩, fun failed => absurd rfl failed⟩
      exact (Prog.run_bind_ok tried).trans ((Prog.run_call _ _).trans (execSection_addPinned ptr first))
  | error e =>
      have caught := ensured.error e rfl
      cases first with
      | false =>
          refine ⟨.error e, { s with regs := regs }, ?_, sound', nofun,
            fun _ => ⟨by simp, .inl rfl⟩⟩
          refine Prog.run_bind_error ?_
          rw [Prog.run_tryExcept, ensures]
          simp
      | true =>
          obtain ⟨s', released, given⟩ := releaseDriver_spec env sound' (held rfl)
          refine ⟨.error e, s', ?_, given.sound, nofun, fun _ => ⟨given.refs, ?_⟩⟩
          · refine Prog.run_bind_error ?_
            rw [Prog.run_tryExcept, ensures]
            simp only [Option.bind_some, caught, if_true]
            exact run_perform_bind released
          · rw [given.pinned]
            split_ifs with zero
            · exact .inr ⟨zero, rfl⟩
            · exact .inl rfl

theorem registerSections_spec (env : Env) (sound : Sound s) (ptr : Nat) (size : Int) :
    ∃ r s', (registerSections ptr size).run (execSection env) s = some (r, s') ∧
      Registered ptr s r s' := by
  rw [registerSections_eq, run_perform_bind (execSection_testPinned ptr)]
  by_cases member : ptr ∈ s.pinned
  · rw [show (!decide (ptr ∈ s.pinned)) = false by simp [member]]
    obtain ⟨r, s', ran, sound', ok, error⟩ := registerFrom_spec env sound ptr size false nofun
    refine ⟨r, s', ran, sound', fun h => ?_, fun h => ?_⟩
    · simpa [member] using ok h
    · simpa using error h
  · rw [show (!decide (ptr ∈ s.pinned)) = true by simp [member]]
    rcases ensureDriver_spec env sound with ⟨s₁, ensured, taken⟩ | ⟨e, raised⟩
    · have ensured : execSection env .ensureDriver s = some (.ok (), s₁) := ensured
      have held : 0 < s₁.driverRefs := by
        have nonneg := sound.counted.refs
        have refs := taken.refs
        omega
      obtain ⟨r, s', ran, sound', ok, error⟩ :=
        registerFrom_spec env taken.sound ptr size true fun _ => held
      refine ⟨r, s', (run_perform_bind ensured).trans ran, sound', fun h => ?_, fun h => ?_⟩
      · obtain ⟨pinned, refs⟩ := ok h
        exact ⟨taken.pinned ▸ pinned, by rw [refs, taken.refs, if_neg member]⟩
      · obtain ⟨refs, pinned⟩ := error h
        exact ⟨by rw [refs, taken.refs]; simp, taken.pinned ▸ pinned⟩
    · have raised : execSection env .ensureDriver s = some (.error e, s) := raised
      exact ⟨.error e, s, run_perform_bind_error raised, sound, nofun, fun _ => ⟨rfl, .inl rfl⟩⟩

/-- `deregister_buffer` gives back the reference of a pinned pointer. -/
structure Deregistered (ptr : Nat) (s s' : ModuleState) : Prop where
  sound : Sound s'
  refs : s'.driverRefs = s.driverRefs - if ptr ∈ s.pinned ∧ 0 < s.driverRefs then 1 else 0
  pinned : s'.pinned = s.pinned.erase ptr ∨ s'.driverRefs = 0 ∧ s'.pinned = ∅

theorem deregisterBuffer_spec (env : Env) (sound : Sound s) (buf : BufferView) :
    ∃ s', (deregisterBuffer buf).run (execSection env) s = some (.ok (), s') ∧
      Deregistered buf.ptr s s' := by
  let s₁ : ModuleState := { s with
    pinned := s.pinned.erase buf.ptr
    regs := s.regs.filter fun r : Nat × Int => r.1 != buf.ptr }
  have sound₁ : Sound s₁ := sound.congr rfl rfl rfl rfl
  have dropped : execSection env (.registryDrop buf.ptr)
      { s with pinned := s.pinned.erase buf.ptr } = some (.ok (), s₁) :=
    runPy_registryDrop env buf.ptr sound.free
  unfold deregisterBuffer
  rw [run_perform_bind (execSection_discardPinned buf.ptr), run_perform_bind dropped]
  by_cases member : buf.ptr ∈ s.pinned
  · rw [if_pos (by simpa using member)]
    by_cases held : 0 < s.driverRefs
    · obtain ⟨s', released, given⟩ := releaseDriver_spec env sound₁ held
      refine ⟨s', (Prog.run_call _ s₁).trans released, given.sound, ?_, ?_⟩
      · rw [given.refs, if_pos ⟨member, held⟩]
      · rw [given.pinned]
        split_ifs with zero
        · exact .inr ⟨zero, rfl⟩
        · exact .inl rfl
    · have zero : s₁.driverRefs = 0 := le_antisymm (not_lt.mp held) sound.counted.refs
      refine ⟨s₁, (Prog.run_call _ s₁).trans (runPy_releaseDriver_zero zero), sound₁, ?_, .inl rfl⟩
      rw [if_neg (fun h => held h.2), sub_zero]
  · rw [if_neg (by simpa using member)]
    exact ⟨s₁, rfl, sound₁, by rw [if_neg (fun h => member h.1), sub_zero], .inl rfl⟩

/-- The state after `OpenDSFile.__init__`, which takes a reference if it returns. -/
structure Opened (s : ModuleState) (r : Except PyError Unit) (s' : ModuleState) : Prop where
  sound : Sound s'
  pinned : s'.pinned = s.pinned
  refs : s.driverRefs ≤ s'.driverRefs
  ok : r = .ok () → s'.driverRefs = s.driverRefs + 1

/-- The `try` block of `OpenDSFile.__init__`. -/
def initDriver (f : Nat) (fd : Int) : Py Unit := do
  ensureDriver
  let answer ← call (.handleRegister fd)
  check answer.1
  call (.setFh f (some answer.2))

theorem initDriver_spec (env : Env) (sound : Sound s) (f : Nat) (fd : Int) :
    ∃ r s', runPy env (initDriver f fd) s = some (r, s') ∧ Opened s r s' := by
  unfold initDriver
  rcases ensureDriver_spec env sound with ⟨s₁, ensured, taken⟩ | ⟨e, raised⟩
  · have more : s.driverRefs ≤ s₁.driverRefs := by
      have refs := taken.refs
      omega
    rw [runPy_bind_ok ensured, runPy_call_bind rfl]
    by_cases fails : env.handleRegister.1.err ≠ opendsSuccess
    · refine ⟨.error (.openDS env.handleRegister.1.err env.handleRegister.1.devErr), s₁,
        runPy_bind_error ?_, taken.sound, taken.pinned, more, fun ok => by cases ok⟩
      rw [check, if_pos fails]
      rfl
    · let file : FileObject := ⟨some env.handleRegister.2, (s₁.files f).fd⟩
      refine ⟨.ok (), { s₁ with files := Function.update s₁.files f file }, ?_,
        taken.sound.congr rfl rfl rfl rfl, taken.pinned, more, fun _ => taken.refs⟩
      rw [check, if_neg fails]
      rfl
  · exact ⟨.error e, s, runPy_bind_error raised, sound, rfl, le_refl _, fun ok => by cases ok⟩

/-- A change of the attributes of a file. -/
theorem Sound.setFd (sound : Sound s) (f : Nat) (fd : Int) :
    Sound { s with files := Function.update s.files f ⟨(s.files f).fh, fd⟩ } :=
  sound.congr rfl rfl rfl rfl

/-- The `try` statement of `OpenDSFile.__init__`. -/
def initOrClose (f : Nat) (fd : Int) : Py Unit :=
  Prog.tryExcept (initDriver f fd) PyError.isException fun e => do
    call (.osClose fd)
    call (.setFd f (-1))
    raise e

theorem initOrClose_spec (env : Env) (sound : Sound s) (f : Nat) (fd : Int) :
    ∃ r s', runPy env (initOrClose f fd) s = some (r, s') ∧ Opened s r s' := by
  obtain ⟨r, s₁, ran, opened⟩ := initDriver_spec env sound f fd
  have tried : runPy env (initOrClose f fd) s = (runPy env (initDriver f fd) s).bind _ :=
    Prog.run_tryExcept _ _ _ _
  rw [ran, Option.bind_some] at tried
  cases r with
  | ok a => exact ⟨.ok a, s₁, tried, opened⟩
  | error e =>
      by_cases caught : e.isException = true
      · simp only [caught, if_true] at tried
        cases answer : env.osClose with
        | none =>
            have closes : exec env (.osClose fd) s₁ = some (.ok (), s₁) := by
              simp [exec, answer, ModuleState.effect]
            exact ⟨.error e, _, tried.trans ((runPy_call_bind closes).trans (runPy_call_bind rfl)),
              opened.sound.setFd f (-1), opened.pinned, opened.refs, fun ok => by cases ok⟩
        | some errno =>
            have fails : exec env (.osClose fd) s₁ = some (.error (.os errno), s₁) := by
              simp [exec, answer]
            exact ⟨.error (.os errno), s₁, tried.trans
              (runPy_bind_error ((runPy_call _).trans fails)), opened.sound, opened.pinned,
              opened.refs, fun ok => by cases ok⟩
      · simp only [caught] at tried
        exact ⟨.error e, s₁, tried, opened⟩

theorem fileInit_spec (env : Env) (sound : Sound s) (f : Nat) (path flags : String)
    (useDirectIo : Option Bool) (mode : Nat) :
    ∃ r s', runPy env (fileInit f path flags useDirectIo mode) s = some (r, s') ∧
      Opened s r s' := by
  unfold fileInit
  cases openFlags flags with
  | none => exact ⟨_, s, rfl, sound, rfl, le_refl _, nofun⟩
  | some oflags =>
      dsimp only
      rw [runPy_call_bind rfl]
      have sound₁ : Sound { s with files := Function.update s.files f ⟨none, (s.files f).fd⟩ } :=
        sound.congr rfl rfl rfl rfl
      cases answer : env.osOpen with
      | error errno =>
          refine ⟨.error (.os errno), _, runPy_bind_error ((runPy_call _).trans ?_), sound₁, rfl,
            le_refl _, nofun⟩
          simp [exec, answer]
      | ok fd =>
          have opens : exec env (.osOpen path
              (if useDirectIo.getD true then oflags ||| oDirect else oflags) mode)
              { s with files := Function.update s.files f ⟨none, (s.files f).fd⟩ } =
              some (.ok fd, { s with files := Function.update s.files f ⟨none, (s.files f).fd⟩ }) := by
            simp [exec, answer]
          rw [runPy_call_bind opens, runPy_call_bind rfl]
          have sound₂ := sound₁.setFd f fd
          obtain ⟨r, s', ran, opened⟩ := initOrClose_spec env sound₂ f fd
          exact ⟨r, s', ran, opened.sound, opened.pinned, opened.refs, opened.ok⟩

/-- What `OpenDSFile.close` leaves: the reference of a registered handle is given back. -/
structure ClosedFile (f : Nat) (s s' : ModuleState) : Prop where
  sound : Sound s'
  refs : s'.driverRefs =
    s.driverRefs - if (s.files f).fh.isSome ∧ 0 < s.driverRefs then 1 else 0
  pinned : s'.pinned = s.pinned ∨ s'.driverRefs = 0 ∧ s'.pinned = ∅

/-- The end of `OpenDSFile.close`. -/
def closeFd (f : Nat) : Py Unit := do
  let fd ← call (.getFd f)
  if fd ≥ 0 then
    call (.osClose fd)
    call (.setFd f (-1))

theorem closeFd_spec (env : Env) (sound : Sound s) (f : Nat) :
    ∃ r s', runPy env (closeFd f) s = some (r, s') ∧ Sound s' ∧ s'.driverRefs = s.driverRefs ∧
      s'.pinned = s.pinned := by
  unfold closeFd
  rw [runPy_call_bind rfl]
  by_cases opened : (s.files f).fd ≥ 0
  · rw [if_pos opened]
    cases answer : env.osClose with
    | none =>
        have closes : exec env (.osClose (s.files f).fd) s = some (.ok (), s) := by
          simp [exec, answer, ModuleState.effect]
        exact ⟨.ok (), _, runPy_call_bind closes, sound.setFd f (-1), rfl, rfl⟩
    | some errno =>
        have fails : exec env (.osClose (s.files f).fd) s = some (.error (.os errno), s) := by
          simp [exec, answer]
        exact ⟨.error (.os errno), s, runPy_bind_error ((runPy_call _).trans fails), sound, rfl, rfl⟩
  · rw [if_neg opened]
    exact ⟨.ok (), s, rfl, sound, rfl, rfl⟩

theorem fileClose_eq (f : Nat) : fileClose f = call (.getFh f) >>= fun fh =>
    match fh with
    | some handle => call (.handleDeregister handle) >>= fun _ => call (.setFh f none) >>= fun _ =>
        releaseDriver >>= fun _ => closeFd f
    | none => closeFd f := by
  unfold fileClose closeFd
  rfl

theorem fileClose_spec (env : Env) (sound : Sound s) (f : Nat) :
    ∃ r s', runPy env (fileClose f) s = some (r, s') ∧ ClosedFile f s s' := by
  rw [fileClose_eq, runPy_call_bind rfl]
  cases registered : (s.files f).fh with
  | none =>
      obtain ⟨r, s', ran, sound', refs, pinned⟩ := closeFd_spec env sound f
      exact ⟨r, s', ran, sound', by simp [registered, refs], .inl pinned⟩
  | some handle =>
      dsimp only
      rw [runPy_call_bind rfl, runPy_call_bind rfl]
      have sound₁ : Sound { s with files := Function.update s.files f ⟨none, (s.files f).fd⟩ } :=
        sound.congr rfl rfl rfl rfl
      by_cases held : 0 < s.driverRefs
      · obtain ⟨s₂, released, given⟩ := releaseDriver_spec env sound₁ held
        obtain ⟨r, s', ran, sound', refs, pinned⟩ := closeFd_spec env given.sound f
        refine ⟨r, s', (runPy_bind_ok released).trans ran, sound', ?_, ?_⟩
        · rw [refs, given.refs, registered, if_pos ⟨rfl, held⟩]
        · rw [refs, pinned, given.pinned]
          split_ifs with zero
          · exact .inr ⟨zero, rfl⟩
          · exact .inl rfl
      · have zero : s.driverRefs = 0 := le_antisymm (not_lt.mp held) sound.counted.refs
        obtain ⟨r, s', ran, sound', refs, pinned⟩ := closeFd_spec env sound₁ f
        refine ⟨r, s', (runPy_bind_ok (runPy_releaseDriver_zero (by exact zero))).trans ran,
          sound', ?_, .inl pinned⟩
        rw [refs, if_neg (fun h => held h.2), sub_zero]

/-- `_cleanup` drops every reference. -/
theorem cleanup_spec (env : Env) (sound : Sound s) :
    ∃ s', runPy env cleanup s = some (.ok (), s') ∧ Sound s' ∧ s'.driverRefs = 0 ∧
      (s' = s ∨ s'.pinned = ∅) := by
  by_cases held : 0 < s.driverRefs
  · refine ⟨cleaned s, runPy_cleanup sound.idle held sound.free,
      ⟨⟨le_refl 0, ?_⟩, sound.free, sound.idle⟩, rfl, .inr rfl⟩
    exact iff_of_false Bool.false_ne_true (lt_irrefl 0)
  · exact ⟨s, runPy_cleanup_unreferenced sound.idle held, sound,
      le_antisymm (not_lt.mp held) sound.counted.refs, .inl rfl⟩

/-- The native part of `OpenDSFile._submit`. -/
def submitNative (f : Nat) (isWrite : Bool) (buf : BufferView) (fileOffset devOffset size : Int) :
    Py Int := do
  registryEnsure buf.ptr buf.nbytes
  let fh ← call (.getFh f)
  let ret ← call (.transfer isWrite fh buf.ptr size fileOffset devOffset)
  ioResult ret

theorem submitNative_spec (env : Env) (sound : Sound s) (f : Nat) (isWrite : Bool)
    (buf : BufferView) (fileOffset devOffset size : Int) :
    ∃ r regs, runPy env (submitNative f isWrite buf fileOffset devOffset size) s =
      some (r, { s with regs := regs }) := by
  obtain ⟨r, regs, ran, _⟩ := runPy_registryEnsure env buf.ptr buf.nbytes sound.free
  unfold submitNative
  cases r with
  | error e => exact ⟨.error e, regs, runPy_bind_error ran⟩
  | ok a =>
      rw [runPy_bind_ok ran, runPy_call_bind rfl, runPy_call_bind rfl, ioResult]
      split_ifs <;> exact ⟨_, regs, rfl⟩

/-- A read or a write may register its buffer. -/
theorem fileSubmit_spec (env : Env) (sound : Sound s) (f : Nat) (isWrite : Bool)
    (buf : BufferView) (size : Option Int) (fileOffset devOffset : Int) :
    ∃ r regs, runPy env (fileSubmit f isWrite buf size fileOffset devOffset) s =
      some (r, { s with regs := regs }) := by
  have native := submitNative_spec env sound f isWrite buf fileOffset devOffset
  cases size with
  | some size => exact native size
  | none =>
      cases extent : buf.nbytes with
      | some nbytes =>
          simp only [fileSubmit, extent]
          have ran := native (nbytes - devOffset)
          simp only [submitNative, extent] at ran
          exact ran
      | none =>
          simp only [fileSubmit, extent]
          exact ⟨.error (.value "size is required for a bare pointer"), s.regs, rfl⟩

theorem registerBuffer_spec (env : Env) (sound : Sound s) (buf : BufferView)
    (size : Option Int) :
    ∃ r s', (registerBuffer buf size).run (execSection env) s = some (r, s') ∧
      Registered buf.ptr s r s' := by
  cases size with
  | some size => exact registerSections_spec env sound buf.ptr size
  | none =>
      unfold registerBuffer
      cases buf.nbytes with
      | some nbytes => exact registerSections_spec env sound buf.ptr nbytes
      | none => exact ⟨_, s, rfl, sound, nofun, fun _ => ⟨rfl, .inl rfl⟩⟩

/-- What a call does to the count and the pins. -/
def Account (s : ModuleState) : Call → Except PyError Unit → ModuleState → Prop
  | .fileInit .., r, s' => Opened s r s'
  | .fileSubmit .., _, s' => s'.driverRefs = s.driverRefs ∧ s'.pinned = s.pinned
  | .fileClose f, _, s' => ClosedFile f s s'
  | .registerBuffer buf _, r, s' => Registered buf.ptr s r s'
  | .deregisterBuffer buf, _, s' => Deregistered buf.ptr s s'
  | .cleanup, _, s' => s'.driverRefs = 0 ∧ (s' = s ∨ s'.pinned = ∅)

/-- **Every call of a sound module ends, keeps it sound and does to the count what it
should.** -/
theorem call_spec (env : Env) (sound : Sound s) (c : Call) :
    ∃ r s', runPy env c.program s = some (r, s') ∧ Sound s' ∧ Account s c r s' := by
  cases c with
  | fileInit f path flags useDirectIo mode =>
      obtain ⟨r, s', ran, opened⟩ := fileInit_spec env sound f path flags useDirectIo mode
      exact ⟨r, s', ran, opened.sound, opened⟩
  | fileSubmit f isWrite buf size fileOffset devOffset =>
      obtain ⟨r, regs, ran⟩ := fileSubmit_spec env sound f isWrite buf size fileOffset devOffset
      have sound' : Sound { s with regs := regs } := sound.congr rfl rfl rfl rfl
      cases r with
      | ok n => exact ⟨.ok (), _, runPy_bind_ok ran, sound', rfl, rfl⟩
      | error e => exact ⟨.error e, _, runPy_bind_error ran, sound', rfl, rfl⟩
  | fileClose f =>
      obtain ⟨r, s', ran, closed⟩ := fileClose_spec env sound f
      exact ⟨r, s', ran, closed.sound, closed⟩
  | registerBuffer buf size =>
      obtain ⟨r, s', ran, registered⟩ := registerBuffer_spec env sound buf size
      exact ⟨r, s', (runPy_expand _).trans ran, registered.sound, registered⟩
  | deregisterBuffer buf =>
      obtain ⟨s', ran, deregistered⟩ := deregisterBuffer_spec env sound buf
      exact ⟨.ok (), s', (runPy_expand _).trans ran, deregistered.sound, deregistered⟩
  | cleanup =>
      obtain ⟨s', ran, sound', dropped⟩ := cleanup_spec env sound
      exact ⟨.ok (), s', ran, sound', dropped⟩

/-! ## Sessions -/

/-- A run of calls: the module, the files opened after the latest `_cleanup` and not
closed, and the pointers registered after it and not deregistered. -/
structure Session where
  module : ModuleState
  files : Finset Nat
  pins : Finset Nat

def Session.initial (handlers : Signal → Disposition) : Session :=
  ⟨.initial handlers, ∅, ∅⟩

/-- What the session holds after a call that ended with `r`. -/
def Session.after (t : Session) (c : Call) (r : Except PyError Unit) (s : ModuleState) : Session :=
  match c, r with
  | .fileInit f _ _ _ _, .ok _ => ⟨s, insert f t.files, t.pins⟩
  | .fileClose f, _ => ⟨s, t.files.erase f, t.pins⟩
  | .registerBuffer buf _, .ok _ => ⟨s, t.files, insert buf.ptr t.pins⟩
  | .deregisterBuffer buf, _ => ⟨s, t.files, t.pins.erase buf.ptr⟩
  | .cleanup, _ => ⟨s, ∅, ∅⟩
  | _, _ => ⟨s, t.files, t.pins⟩

/-- Calls on an idle module, each run to its end. -/
def session : Machine Session (Env × Call) where
  step t a := (runPy a.1 a.2.program t.module).map fun r => t.after a.2 r.1 r.2

/-- The step does not close a file that was opened before the latest `_cleanup` while the
driver is referenced. -/
def KeepsCount (t : Session) (a : Env × Call) : Prop :=
  ∀ f, a.2 = .fileClose f → (t.module.files f).fh.isSome → 0 < t.module.driverRefs → f ∈ t.files

/-- Every file and pointer that the session holds has its reference. -/
structure Backed (t : Session) : Prop where
  sound : Sound t.module
  pins : t.pins = t.module.pinned
  refs : (t.files.card + t.pins.card : Int) ≤ t.module.driverRefs

theorem session_step {t t' : Session} {a : Env × Call} (sound : Sound t.module)
    (step : session.step t a = some t') :
    ∃ r s', t' = t.after a.2 r s' ∧ Sound s' ∧ Account t.module a.2 r s' := by
  obtain ⟨r, s', ran, sound', account⟩ := call_spec a.1 sound a.2
  simp only [session, ran, Option.map_some, Option.some.injEq] at step
  exact ⟨r, s', step.symm, sound', account⟩

@[simp] theorem Session.after_module (t : Session) (c : Call) (r : Except PyError Unit)
    (s : ModuleState) : (t.after c r s).module = s := by
  unfold Session.after
  split <;> rfl

/-- A call keeps the module sound. -/
theorem session_sound {t t' : Session} {a : Env × Call} (sound : Sound t.module)
    (step : session.step t a = some t') : Sound t'.module := by
  obtain ⟨r, s', same, sound', _⟩ := session_step sound step
  rw [same, Session.after_module]
  exact sound'

/-- The pins that are left when a section has emptied `_pinned`: none, for want of
references. -/
theorem pins_empty {files pins : Finset Nat} {refs : Int}
    (backed : (files.card + pins.card : Int) ≤ refs) (zero : refs = 0) : pins = ∅ := by
  have none : pins.card = 0 := by omega
  exact Finset.card_eq_zero.mp none

/-- A call that keeps the count keeps the session backed. -/
theorem session_backed {t t' : Session} {a : Env × Call} (backed : Backed t)
    (keeps : KeepsCount t a) (step : session.step t a = some t') : Backed t' := by
  obtain ⟨r, s', same, sound', account⟩ := session_step backed.sound step
  obtain ⟨env, c⟩ := a
  have pins := backed.pins
  have refs := backed.refs
  subst same
  cases c with
  | fileInit f path flags useDirectIo mode =>
      have opened : Opened t.module r s' := account
      cases r with
      | error e =>
          exact ⟨sound', pins.trans opened.pinned.symm, refs.trans opened.refs⟩
      | ok a =>
          refine ⟨sound', pins.trans opened.pinned.symm, ?_⟩
          have more := opened.ok rfl
          have card := Finset.card_insert_le f t.files
          change ((insert f t.files).card + t.pins.card : Int) ≤ s'.driverRefs
          omega
  | fileSubmit f isWrite buf size fileOffset devOffset =>
      obtain ⟨refs', pinned⟩ := account
      exact ⟨sound', pins.trans pinned.symm, refs.trans_eq refs'.symm⟩
  | fileClose f =>
      have closed : ClosedFile f t.module s' := account
      have held : ((t.files.erase f).card + t.pins.card : Int) ≤ s'.driverRefs := by
        rw [closed.refs]
        have fewer := Finset.card_erase_le (s := t.files) (a := f)
        split_ifs with released
        · have member := keeps f rfl released.1 released.2
          have card := Finset.card_erase_add_one member
          omega
        · omega
      refine ⟨sound', ?_, held⟩
      rcases closed.pinned with same | ⟨zero, empty⟩
      · exact pins.trans same.symm
      · exact (pins_empty held zero).trans empty.symm
  | registerBuffer buf size =>
      have registered : Registered buf.ptr t.module r s' := account
      cases r with
      | ok a =>
          obtain ⟨pinned, more⟩ := registered.ok rfl
          refine ⟨sound', ?_, ?_⟩
          · change insert buf.ptr t.pins = s'.pinned
            rw [pinned, pins]
          · change (t.files.card + (insert buf.ptr t.pins).card : Int) ≤ s'.driverRefs
            rw [more, ← pins]
            split_ifs with member
            · rw [Finset.insert_eq_of_mem member]
              omega
            · rw [Finset.card_insert_of_notMem member]
              omega
      | error e =>
          obtain ⟨same, pinned⟩ := registered.error nofun
          have held : (t.files.card + t.pins.card : Int) ≤ s'.driverRefs := refs.trans_eq same.symm
          refine ⟨sound', ?_, held⟩
          rcases pinned with same | ⟨zero, empty⟩
          · exact pins.trans same.symm
          · exact (pins_empty held zero).trans empty.symm
  | deregisterBuffer buf =>
      have deregistered : Deregistered buf.ptr t.module s' := account
      have held : (t.files.card + (t.pins.erase buf.ptr).card : Int) ≤ s'.driverRefs := by
        rw [deregistered.refs]
        have fewer := Finset.card_erase_le (s := t.pins) (a := buf.ptr)
        split_ifs with released
        · have card := Finset.card_erase_add_one (pins ▸ released.1)
          omega
        · omega
      refine ⟨sound', ?_, held⟩
      change t.pins.erase buf.ptr = s'.pinned
      rcases deregistered.pinned with same | ⟨zero, empty⟩
      · rw [same, pins]
      · exact (pins_empty held zero).trans empty.symm
  | cleanup =>
      obtain ⟨zero, cleaned⟩ := account
      refine ⟨sound', ?_, by simp [Session.after, zero]⟩
      rcases cleaned with same | empty
      · subst same
        exact ((pins_empty refs zero).symm.trans pins)
      · exact empty.symm

theorem initial_sound (handlers : Signal → Disposition) :
    Sound (Session.initial handlers).module :=
  ⟨⟨le_refl 0, iff_of_false Bool.false_ne_true (lt_irrefl 0)⟩, rfl, rfl⟩

/-- **The driver is open exactly while `_driver_refs` is positive**, after every run of
calls. -/
theorem driver_open_iff_referenced {handlers : Signal → Disposition} {calls : List (Env × Call)}
    {t : Session} (ran : session.run calls (.initial handlers) = some t) :
    t.module.driverOpen = true ↔ 0 < t.module.driverRefs := by
  have keeps : ∀ t a t', Sound t.module → session.step t a = some t' → Sound t'.module := by
    intro t a t' sound step
    exact session_sound sound step
  have sound := Machine.run_invariant_of_step keeps (initial_sound handlers) ran
  exact sound.counted.open_iff

/-- **Every file and pointer that a session holds keeps the driver open**, in every run
that closes no file from before the latest `_cleanup` at a positive count. The driver is
open exactly while `_driver_refs` is positive, in every run. -/
theorem driver_kept_open {handlers : Signal → Disposition} {calls : List (Env × Call)}
    {t : Session} (keepsCount : session.Meets KeepsCount calls (.initial handlers))
    (ran : session.run calls (.initial handlers) = some t) :
    (t.module.driverOpen = true ↔ 0 < t.module.driverRefs) ∧
      (∀ f ∈ t.files, t.module.driverOpen = true) ∧
      ∀ ptr ∈ t.pins, t.module.driverOpen = true := by
  have keeps : ∀ t a t', Backed t → KeepsCount t a → session.step t a = some t' → Backed t' := by
    intro t a t' backed keeps step
    exact session_backed backed keeps step
  have start : Backed (.initial handlers) := ⟨initial_sound handlers, rfl, le_refl 0⟩
  have backed := Machine.run_invariant keeps start keepsCount ran
  have referenced := backed.sound.counted.open_iff
  have refs := backed.refs
  refine ⟨referenced, fun f member => referenced.mpr ?_, fun ptr member => referenced.mpr ?_⟩
  · have card := Finset.card_pos.mpr ⟨f, member⟩
    omega
  · have card := Finset.card_pos.mpr ⟨ptr, member⟩
    omega

/-- The test that a step keeps the count. -/
def keepsCount (t : Session) (a : Env × Call) : Bool :=
  match a.2 with
  | .fileClose f =>
    !(t.module.files f).fh.isSome || decide (t.module.driverRefs ≤ 0) || decide (f ∈ t.files)
  | _ => true

theorem keepsCount_sound (t : Session) (a : Env × Call) (passes : keepsCount t a = true) :
    KeepsCount t a := by
  intro f same registered held
  simpa [keepsCount, same, registered, not_le.mpr held] using passes

/-- Open a file with the default arguments. -/
def openFile (f : Nat) : Env × Call := (granted, .fileInit f "data" "r" none 0o644)

/-- A file from before a `_cleanup` is closed at count zero, and a second driver lifecycle
begins with a pin and a file. -/
theorem driver_kept_open_reopened :
    ((session.run [openFile 0, (granted, .cleanup), (granted, .fileClose 0),
      (granted, .registerBuffer ⟨4096, some 64⟩ none), openFile 1]
      (.initial fun _ => .sigDfl)).get (by decide)).module.driverOpen = true :=
  (driver_kept_open (Machine.meets_of_check keepsCount_sound (by decide))
    (Option.some_get _).symm).2.1 1 (by decide)

/-- **Closing a file from before a `_cleanup` closes the driver under a file that was opened
after it.** -/
theorem stale_close_closes_driver :
    ∃ t, session.run [openFile 0, (granted, .cleanup), openFile 1, (granted, .fileClose 0)]
        (.initial fun _ => .sigDfl) = some t ∧
      1 ∈ t.files ∧ t.module.driverOpen = false :=
  ⟨_, rfl, by decide, rfl⟩

end OpenDS.Python
