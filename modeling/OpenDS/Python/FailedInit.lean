import OpenDS.Python.CallOrder

/-!
# Constructors that fail

`OpenDSFile.__init__` acquires a descriptor, a reference to the driver and a native handle in
turn, and has one `except` clause for the failures of all three. The clause closes the
descriptor. It does not give the reference back, so a failed `opends_handle_register` leaves
one behind, and every other failure leaves nothing (`failedInit_runs`).
-/

set_option autoImplicit false

namespace OpenDS.Python

open OpenDS.Library

/-! ## Descriptors -/

/-- The module, and the descriptors of the process that are open. -/
structure Descriptors where
  module : ModuleState
  fds : Finset Int

/-- The open descriptors after an operation. Linux gives a descriptor back even where `close`
reports an error. -/
def Op.fdsAfter : (op : Op) → Except PyError op.Ans → Finset Int → Finset Int
  | .osOpen _ _ _, .ok fd, fds => insert fd fds
  | .osClose fd, _, fds => fds.erase fd
  | _, _, fds => fds

/-- One operation of the module, with the descriptors. -/
def execFds (env : Env) (op : Op) (p : Descriptors) : Option (Except PyError op.Ans × Descriptors) :=
  (exec env op p.module).map fun r => (r.1, ⟨r.2, op.fdsAfter r.1 p.fds⟩)

/-- Run a function to its end. -/
def runFds {α : Type} (env : Env) (f : Py α) (p : Descriptors) :
    Option (Except PyError α × Descriptors) :=
  f.run (execFds env) p

/-- What a session holds, with the descriptors that are open. -/
structure OpenSession where
  session : Session
  fds : Finset Int

def OpenSession.initial (handlers : Signal → Disposition) (fds : Finset Int) : OpenSession :=
  ⟨.initial handlers, fds⟩

/-- The process that a call finds. -/
def OpenSession.descriptors (t : OpenSession) : Descriptors := ⟨t.session.module, t.fds⟩

/-- Calls on an idle module, each run to its end. -/
def openSession : Machine OpenSession (Env × Call) where
  step t a := (runFds a.1 a.2.program t.descriptors).map fun r =>
    ⟨t.session.after a.2 r.1 r.2.module, r.2.fds⟩

/-! ## The claim -/

/-- The state is what it was before. -/
structure NoTrace (p p' : Descriptors) : Prop where
  refs : p'.module.driverRefs = p.module.driverRefs
  pinned : p'.module.pinned = p.module.pinned
  regs : p'.module.regs = p.module.regs
  fds : p'.fds = p.fds
  driverOpen : p'.module.driverOpen = p.module.driverOpen

/-- `opends_handle_register` fails, and everything before it has worked. -/
structure HandleFails (env : Env) (s : ModuleState) (flags : String) : Prop where
  flags : openFlags flags ≠ none
  osOpen : ∃ fd, env.osOpen = .ok fd
  driverOpen : s.driverRefs = 0 → env.driverOpen.err = opendsSuccess
  handleRegister : env.handleRegister.1.err ≠ opendsSuccess

/-- A constructor has a new object, and the kernel hands it a descriptor that is not open.
`_cleanup` is not called. -/
structure Ordinary (t : OpenSession) (a : Env × Call) : Prop where
  object : ∀ f path flags useDirectIo mode, a.2 = .fileInit f path flags useDirectIo mode →
    (t.session.module.files f).fh = none
  fd : ∀ f path flags useDirectIo mode, a.2 = .fileInit f path flags useDirectIo mode →
    ∀ fd, a.1.osOpen = .ok fd → fd ∉ t.fds
  cleanup : a.2 ≠ .cleanup

/-- The call is no constructor that fails to register its handle. -/
def KeepsNoHandle (t : OpenSession) (a : Env × Call) : Prop :=
  ∀ f path flags useDirectIo mode, a.2 = .fileInit f path flags useDirectIo mode →
    ¬ HandleFails a.1 t.session.module flags

/-! ## Functions that use no descriptors -/

variable {α : Type} {env : Env} {s s' : ModuleState} {fds : Finset Int} {p p' : Descriptors}

/-- A descriptor is opened or closed. -/
def Opening : Op → Prop
  | .osOpen _ _ _ => True
  | .osClose _ => True
  | _ => False

theorem fdsAfter_eq {op : Op} (none : ¬ Opening op) (r : Except PyError op.Ans) :
    op.fdsAfter r fds = fds := by
  cases op
  case osOpen => exact absurd trivial none
  case osClose => exact absurd trivial none
  all_goals rfl

/-- A function that opens and closes no descriptor runs as in the module alone. -/
theorem runFds_of_uses {f : Py α} (uses : f.Uses fun op => ¬ Opening op) :
    runFds env f ⟨s, fds⟩ = (runPy env f s).map fun r => (r.1, ⟨r.2, fds⟩) := by
  apply uses.run_embed fun s => (⟨s, fds⟩ : Descriptors)
  intro op s none
  unfold execFds
  simp only [fdsAfter_eq none]

theorem runFds_module (env : Env) (f : Py α) (p : Descriptors) :
    (runFds env f p).map (fun r => (r.1, r.2.module)) = runPy env f p.module := by
  apply (Prog.uses_any f).run_project Descriptors.module
  intro op p _
  rw [execFds, Option.map_map]
  exact Option.map_id'

theorem runFds_call_bind {op : Op} {f : op.Ans → Py α} {a : op.Ans}
    (step : execFds env op p = some (.ok a, p')) :
    runFds env (call op >>= f) p = runFds env (f a) p' :=
  Prog.run_bind_ok ((Prog.run_call op p).trans step)

theorem runFds_ensureDriver (fds : Finset Int) {r : Except PyError Unit} (ran : runPy env ensureDriver s = some (r, s')) :
    runFds env ensureDriver ⟨s, fds⟩ = some (r, ⟨s', fds⟩) := by
  rw [runFds_of_uses, ran]
  · rfl
  · apply uses_ensureDriver.mono
    intro op used
    cases op <;> first | exact used.elim | exact not_false

/-! ## The constructor -/

variable {f : Nat} {fd : Int} {flags : String}

/-- What a constructor leaves that has added that much to the count. -/
structure Left (f : Nat) (s s' : ModuleState) (added : Int) : Prop where
  sound : Sound s'
  refs : s'.driverRefs = s.driverRefs + added
  pinned : s'.pinned = s.pinned
  regs : s'.regs = s.regs
  others : ∀ g, g ≠ f → s'.files g = s.files g

theorem Left.trans {n m : Int} {s₁ : ModuleState} (first : Left f s s₁ n) (rest : Left f s₁ s' m) :
    Left f s s' (n + m) := by
  refine ⟨rest.sound, ?_, rest.pinned.trans first.pinned, rest.regs.trans first.regs,
    fun g other => (rest.others g other).trans (first.others g other)⟩
  rw [rest.refs, first.refs, add_assoc]

/-- A change of the attributes of the file. -/
theorem Left.setFile (sound : Sound s) (f : Nat) (file : FileObject) :
    Left f s { s with files := Function.update s.files f file } 0 :=
  ⟨sound.congr rfl rfl rfl rfl, (add_zero _).symm, rfl, rfl,
    fun _ other => Function.update_of_ne other _ _⟩

/-- The end of a constructor. -/
inductive InitEnds (f : Nat) (s : ModuleState) (fds : Finset Int) (bad : Prop) :
    Except PyError Unit → Descriptors → Prop where
  | opened (s' : ModuleState) (fds' : Finset Int) : Left f s s' 1 → (s'.files f).fh.isSome →
      InitEnds f s fds bad (.ok ()) ⟨s', fds'⟩
  | refused (e : PyError) (s' : ModuleState) : ¬ bad → Left f s s' 0 → (s'.files f).fh = none →
      InitEnds f s fds bad (.error e) ⟨s', fds⟩
  | kept (e : PyError) (s' : ModuleState) : bad → Left f s s' 1 → (s'.files f).fh = none →
      InitEnds f s fds bad (.error e) ⟨s', fds⟩

/-- The `except` clause closes the descriptor and raises. -/
theorem closeFailed_spec (env : Env) (sound : Sound s) (f : Nat) (fresh : fd ∉ fds) (e : PyError) :
    ∃ e' s', runFds env (do
        call (.osClose fd)
        call (.setFd f (-1))
        raise e : Py Unit) ⟨s, insert fd fds⟩ = some (.error e', ⟨s', fds⟩) ∧
      Left f s s' 0 ∧ (s'.files f).fh = (s.files f).fh := by
  have closed : (insert fd fds).erase fd = fds := Finset.erase_insert fresh
  cases answer : env.osClose with
  | none =>
      have closes : execFds env (.osClose fd) ⟨s, insert fd fds⟩ = some (.ok (), ⟨s, fds⟩) := by
        simp [execFds, exec, answer, ModuleState.effect, Op.fdsAfter, closed]
      refine ⟨e, _, (runFds_call_bind closes).trans (runFds_call_bind rfl),
        Left.setFile sound f ⟨(s.files f).fh, -1⟩, ?_⟩
      simp
  | some errno =>
      have fails : execFds env (.osClose fd) ⟨s, insert fd fds⟩ =
          some (.error (.os errno), ⟨s, fds⟩) := by
        simp [execFds, exec, answer, Op.fdsAfter, closed]
      exact ⟨.os errno, s, Prog.run_bind_error ((Prog.run_call _ _).trans fails),
        ⟨sound, (add_zero _).symm, rfl, rfl, fun _ _ => rfl⟩, rfl⟩

/-- The `try` block ends with a handle, or with an `Exception` and without one. -/
theorem initDriver_ends (env : Env) (fds : Finset Int) (sound : Sound s) (f : Nat) (fd : Int)
    (new : (s.files f).fh = none) :
    ∃ r s', runFds env (initDriver f fd) ⟨s, fds⟩ = some (r, ⟨s', fds⟩) ∧
      ((r = .ok () ∧ Left f s s' 1 ∧ (s'.files f).fh.isSome) ∨
        ∃ e, r = .error e ∧ e.isException = true ∧ (s'.files f).fh = none ∧
          ((s.driverRefs = 0 ∧ env.driverOpen.err ≠ opendsSuccess ∧ Left f s s' 0) ∨
            ((s.driverRefs = 0 → env.driverOpen.err = opendsSuccess) ∧
              env.handleRegister.1.err ≠ opendsSuccess ∧ Left f s s' 1))) := by
  unfold initDriver
  by_cases closed : s.driverRefs = 0 ∧ env.driverOpen.err ≠ opendsSuccess
  · have raised := runFds_ensureDriver fds
      (runPy_ensureDriver_error sound.counted closed.1 closed.2)
    exact ⟨_, s, Prog.run_bind_error raised, .inr ⟨_, rfl, rfl, new, .inl ⟨closed.1, closed.2,
      ⟨sound, (add_zero _).symm, rfl, rfl, fun _ _ => rfl⟩⟩⟩⟩
  · have opens : s.driverRefs = 0 → env.driverOpen.err = opendsSuccess :=
      fun first => not_not.mp fun bad => closed ⟨first, bad⟩
    obtain ⟨s₁, ensured, taken⟩ := ensureDriver_ok env sound opens
    have left : Left f s s₁ 1 :=
      ⟨taken.sound, taken.refs, taken.pinned, taken.regs, fun g _ => congrFun taken.files g⟩
    have ran : runFds env (initDriver f fd) ⟨s, fds⟩ = runFds env (check env.handleRegister.1 >>= fun _ =>
        call (.setFh f (some env.handleRegister.2))) ⟨s₁, fds⟩ :=
      (Prog.run_bind_ok (runFds_ensureDriver fds ensured)).trans (runFds_call_bind rfl)
    by_cases fails : env.handleRegister.1.err ≠ opendsSuccess
    · refine ⟨.error (.openDS env.handleRegister.1.err env.handleRegister.1.devErr), s₁,
        ran.trans (Prog.run_bind_error ?_), .inr ⟨_, rfl, rfl, ?_, .inr ⟨opens, fails, left⟩⟩⟩
      · rw [check, if_pos fails]
        rfl
      · rw [taken.files]
        exact new
    · let file : FileObject := ⟨some env.handleRegister.2, (s₁.files f).fd⟩
      refine ⟨.ok (), { s₁ with files := Function.update s₁.files f file }, ran.trans ?_,
        .inl ⟨rfl, left.trans (Left.setFile taken.sound f file), by simp [file]⟩⟩
      rw [check, if_neg fails]
      rfl

/-- The `try` statement closes the descriptor where its block has raised. -/
theorem initOrClose_ends (env : Env) (sound : Sound s) (f : Nat) (fresh : fd ∉ fds)
    (new : (s.files f).fh = none) :
    ∃ r p', runFds env (initOrClose f fd) ⟨s, insert fd fds⟩ = some (r, p') ∧
      InitEnds f s fds ((s.driverRefs = 0 → env.driverOpen.err = opendsSuccess) ∧
        env.handleRegister.1.err ≠ opendsSuccess) r p' := by
  obtain ⟨r, s₁, ran, ends⟩ := initDriver_ends env (insert fd fds) sound f fd new
  have tried : runFds env (initOrClose f fd) ⟨s, insert fd fds⟩ =
      (runFds env (initDriver f fd) ⟨s, insert fd fds⟩).bind _ := Prog.run_tryExcept _ _ _ _
  rw [ran, Option.bind_some] at tried
  rcases ends with ⟨rfl, left, handle⟩ | ⟨e, rfl, caught, none, cause⟩
  · exact ⟨_, _, tried, .opened s₁ _ left handle⟩
  · simp only [caught, if_true] at tried
    have sound₁ : Sound s₁ := by
      rcases cause with ⟨-, -, left⟩ | ⟨-, -, left⟩ <;> exact left.sound
    obtain ⟨e', s₂, closed, after, same⟩ := closeFailed_spec env sound₁ f fresh e
    refine ⟨.error e', ⟨s₂, fds⟩, tried.trans closed, ?_⟩
    rcases cause with ⟨first, refuses, left⟩ | ⟨opens, fails, left⟩
    · exact .refused e' s₂ (fun bad => refuses (bad.1 first)) (left.trans after) (same.trans none)
    · exact .kept e' s₂ ⟨opens, fails⟩ (left.trans after) (same.trans none)

/-- **How a constructor ends.** It keeps a reference without a handle exactly if the handle
cannot be registered. -/
theorem fileInit_ends (env : Env) (sound : Sound s) (path flags : String)
    (useDirectIo : Option Bool) (mode : Nat) (fresh : ∀ fd, env.osOpen = .ok fd → fd ∉ fds)
    (new : (s.files f).fh = none) :
    ∃ r p', runFds env (fileInit f path flags useDirectIo mode) ⟨s, fds⟩ = some (r, p') ∧
      InitEnds f s fds (HandleFails env s flags) r p' := by
  unfold fileInit
  cases known : openFlags flags with
  | none =>
      exact ⟨_, _, rfl, .refused _ s (fun bad => bad.flags known)
        ⟨sound, (add_zero _).symm, rfl, rfl, fun _ _ => rfl⟩ new⟩
  | some oflags =>
      dsimp only
      have made := Left.setFile sound f ⟨none, (s.files f).fd⟩
      cases answer : env.osOpen with
      | error errno =>
          refine ⟨.error (.os errno), _, (runFds_call_bind rfl).trans
            (Prog.run_bind_error ((Prog.run_call _ _).trans ?_)),
            .refused _ _ (fun bad => ?_) made (by simp)⟩
          · simp [execFds, exec, answer, Op.fdsAfter]
          · obtain ⟨fd, opened⟩ := bad.osOpen
            cases answer.symm.trans opened
      | ok fd =>
          let s₁ : ModuleState :=
            { s with files := Function.update s.files f ⟨none, (s.files f).fd⟩ }
          have opens : execFds env (.osOpen path
              (if useDirectIo.getD true then oflags ||| oDirect else oflags) mode) ⟨s₁, fds⟩ =
              some (.ok fd, ⟨s₁, insert fd fds⟩) := by
            simp [execFds, exec, answer, Op.fdsAfter]
          have given := made.trans (Left.setFile made.sound f ⟨(s₁.files f).fh, fd⟩)
          obtain ⟨r, p', ran, ends⟩ :=
            initOrClose_ends env given.sound f (fresh fd answer) (by simp [s₁])
          refine ⟨r, p', (runFds_call_bind rfl).trans ((runFds_call_bind opens).trans
            ((runFds_call_bind rfl).trans ran)), ?_⟩
          cases ends with
          | opened s' fds' left handle => exact .opened s' fds' (given.trans left) handle
          | refused e s' good left none =>
              exact .refused e s' (fun bad => good ⟨bad.driverOpen, bad.handleRegister⟩)
                (given.trans left) none
          | kept e s' bad left none =>
              refine .kept e s' ⟨?_, ⟨fd, answer⟩, bad.1, bad.2⟩ (given.trans left) none
              rw [known]
              exact Option.some_ne_none oflags

/-! ## The handles of the files -/

/-- A section touches no file. -/
theorem section_files {c : Section} {r : Except PyError c.Ans} (sound : Sound s)
    (ran : execSection env c s = some (r, s')) : Sound s' ∧ s'.files = s.files := by
  cases c with
  | testPinned ptr =>
      cases (execSection_testPinned ptr).symm.trans ran
      exact ⟨sound, rfl⟩
  | ensureDriver =>
      have ran : runPy env ensureDriver s = some (r, s') := ran
      rcases ensureDriver_spec env sound with ⟨s₁, ensured, taken⟩ | ⟨e, raised⟩
      · cases ensured.symm.trans ran
        exact ⟨taken.sound, taken.files⟩
      · cases raised.symm.trans ran
        exact ⟨sound, rfl⟩
  | registryEnsure ptr size =>
      obtain ⟨r₁, regs, ensured, -⟩ := runPy_registryEnsure env ptr size sound.free
      cases ensured.symm.trans ran
      exact ⟨sound.congr rfl rfl rfl rfl, rfl⟩
  | addPinned ptr first =>
      cases (execSection_addPinned ptr first).symm.trans ran
      exact ⟨sound.congr rfl rfl rfl rfl, rfl⟩
  | discardPinned ptr =>
      cases (execSection_discardPinned ptr).symm.trans ran
      exact ⟨sound.congr rfl rfl rfl rfl, rfl⟩
  | registryDrop ptr =>
      cases (runPy_registryDrop env ptr sound.free).symm.trans ran
      exact ⟨sound.congr rfl rfl rfl rfl, rfl⟩
  | releaseDriver =>
      have ran : runPy env releaseDriver s = some (r, s') := ran
      by_cases held : 0 < s.driverRefs
      · obtain ⟨s₁, released, given⟩ := releaseDriver_spec env sound held
        cases released.symm.trans ran
        exact ⟨given.sound, given.files⟩
      · have zero : s.driverRefs = 0 := le_antisymm (not_lt.mp held) sound.counted.refs
        cases (runPy_releaseDriver_zero zero).symm.trans ran
        exact ⟨sound, rfl⟩

/-- A function over sections touches no file. -/
theorem sections_files (p : Sections α) {r : Except PyError α} (sound : Sound s)
    (ran : p.run (execSection env) s = some (r, s')) : s'.files = s.files := by
  have keeps : ∀ (c : Section) (s₁ : ModuleState) (r : Except PyError c.Ans × ModuleState), True →
      Sound s₁ ∧ s₁.files = s.files → execSection env c s₁ = some r →
      Sound r.2 ∧ r.2.files = s.files := by
    intro c s₁ r _ before step
    obtain ⟨sound', same⟩ := section_files before.1 step
    exact ⟨sound', same.trans before.2⟩
  exact ((Prog.uses_any p).run_keeps keeps ⟨sound, rfl⟩ ran).2

/-- The end of `close` touches no handle. -/
theorem closeFd_handles {r : Except PyError Unit} (ran : runPy env (closeFd f) s = some (r, s'))
    (g : Nat) : (s'.files g).fh = (s.files g).fh := by
  have keeps : ∀ (op : Op) (s₁ : ModuleState) (r : Except PyError op.Ans × ModuleState),
      (∃ fd, op = .osClose fd ∨ op = .setFd f fd ∨ op = .getFd f) →
      (s₁.files g).fh = (s.files g).fh → exec env op s₁ = some r →
      (r.2.files g).fh = (s.files g).fh := by
    rintro op s₁ r ⟨fd, rfl | rfl | rfl⟩ before step
    · simp only [exec, ModuleState.effect] at step
      split at step <;>
        · cases step
          exact before
    · cases step
      by_cases same : g = f
      · subst same
        simpa using before
      · simpa [same] using before
    · cases step
      exact before
  have uses : (closeFd f).Uses fun op => ∃ fd, op = .osClose fd ∨ op = .setFd f fd ∨ op = .getFd f := by
    apply uses_call_bind ⟨0, .inr (.inr rfl)⟩
    intro fd
    split
    · apply uses_call_bind ⟨fd, .inl rfl⟩
      intro _
      exact Prog.uses_call ⟨_, .inr (.inl rfl)⟩
    · trivial
  exact uses.run_keeps keeps rfl ran

/-- `close` takes the handle of its own file. -/
theorem fileClose_handles {r : Except PyError Unit} (sound : Sound s)
    (ran : runPy env (fileClose f) s = some (r, s')) (g : Nat) :
    (s'.files g).fh = if g = f then none else (s.files g).fh := by
  rw [fileClose_eq, runPy_call_bind rfl] at ran
  cases registered : (s.files f).fh with
  | none =>
      simp only [registered] at ran
      rw [closeFd_handles ran g]
      split_ifs with same
      · rw [same, registered]
      · rfl
  | some handle =>
      simp only [registered] at ran
      rw [runPy_call_bind rfl, runPy_call_bind rfl] at ran
      have sound₁ : Sound { s with files := Function.update s.files f ⟨none, (s.files f).fd⟩ } :=
        sound.congr rfl rfl rfl rfl
      obtain ⟨⟨r₁, s₂⟩, released, later⟩ := Option.bind_eq_some_iff.mp ((Prog.run_bind _ _ _).symm.trans ran)
      have files : s₂.files = Function.update s.files f ⟨none, (s.files f).fd⟩ :=
        (section_files (c := .releaseDriver) sound₁ released).2
      have handles : (s'.files g).fh = (s₂.files g).fh := by
        cases r₁ with
        | ok a => exact closeFd_handles later g
        | error e =>
            cases later
            rfl
      rw [handles, files]
      split_ifs with same
      · rw [same, Function.update_self]
      · rw [Function.update_of_ne same]

/-! ## Runs -/

/-- The count is that of the files and pointers that the session holds. -/
structure Exact (t : Session) : Prop where
  sound : Sound t.module
  pins : t.pins = t.module.pinned
  refs : t.module.driverRefs = t.files.card + t.pins.card
  handles : ∀ f, (t.module.files f).fh.isSome ↔ f ∈ t.files

variable {t t' : OpenSession} {a : Env × Call}

/-- The module does in a session what it does alone. -/
theorem openSession_project (step : openSession.step t a = some t') :
    session.step t.session a = some t'.session := by
  obtain ⟨r, ran, same⟩ := Option.map_eq_some_iff.mp step
  subst same
  have alone := runFds_module a.1 a.2.program t.descriptors
  rw [ran] at alone
  simp only [session]
  exact congrArg (Option.map fun r => t.session.after a.2 r.1 r.2) alone.symm

theorem exact_of_same {s : Session} {m : ModuleState} (exactly : Exact s) (sound : Sound m)
    (refs : m.driverRefs = s.module.driverRefs)
    (pinned : m.pinned = s.module.pinned ∨ m.driverRefs = 0 ∧ m.pinned = ∅)
    (handles : ∀ f, (m.files f).fh.isSome ↔ f ∈ s.files) : Exact ⟨m, s.files, s.pins⟩ := by
  have count : m.driverRefs = s.files.card + s.pins.card := refs.trans exactly.refs
  refine ⟨sound, ?_, count, handles⟩
  rcases pinned with same | ⟨zero, empty⟩
  · exact exactly.pins.trans same.symm
  · exact (pins_empty count.ge zero).trans empty.symm

/-- A constructor that ends. -/
theorem exact_fileInit (exactly : Exact t.session) (ordinary : Ordinary t a)
    (keeps : KeepsNoHandle t a) {path flags : String} {useDirectIo : Option Bool} {mode : Nat}
    (call : a.2 = .fileInit f path flags useDirectIo mode)
    (step : openSession.step t a = some t') : Exact t'.session := by
  obtain ⟨⟨r, p'⟩, ran, same⟩ := Option.map_eq_some_iff.mp step
  have new := ordinary.object f path flags useDirectIo mode call
  obtain ⟨r₁, p₁, ran₁, ends⟩ :=
    fileInit_ends a.1 exactly.sound path flags useDirectIo mode
      (ordinary.fd f path flags useDirectIo mode call) new
  have good := keeps f path flags useDirectIo mode call
  rw [call] at ran
  cases ran₁.symm.trans ran
  subst same
  rw [call]
  have unheld : f ∉ t.session.files := by
    rw [← exactly.handles, new]
    exact Bool.false_ne_true
  cases ends with
  | opened s' fds' left handle =>
      refine ⟨left.sound, exactly.pins.trans left.pinned.symm, ?_, fun g => ?_⟩
      · have count := left.refs
        have before := exactly.refs
        change s'.driverRefs = ((insert f t.session.files).card : Int) + t.session.pins.card
        rw [Finset.card_insert_of_notMem unheld]
        omega
      · change (s'.files g).fh.isSome ↔ g ∈ insert f t.session.files
        by_cases own : g = f
        · subst own
          simp [handle]
        · rw [left.others g own, Finset.mem_insert, exactly.handles g]
          simp [own]
  | refused e s' _ left none =>
      refine exact_of_same exactly left.sound (left.refs.trans (add_zero _)) (.inl left.pinned)
        fun g => ?_
      by_cases own : g = f
      · subst own
        simp [none, unheld]
      · rw [left.others g own, exactly.handles g]
  | kept e s' bad left none => exact absurd bad good

/-- **A call that keeps no reference without a handle keeps the count exact.** -/
theorem exact_step (exactly : Exact t.session) (ordinary : Ordinary t a) (keeps : KeepsNoHandle t a)
    (step : openSession.step t a = some t') : Exact t'.session := by
  obtain ⟨⟨r, s'⟩, ran, same⟩ := Option.map_eq_some_iff.mp (openSession_project step)
  obtain ⟨r₁, s₁, ran₁, sound', account⟩ := call_spec a.1 exactly.sound a.2
  cases ran₁.symm.trans ran
  obtain ⟨env, c⟩ := a
  have refs := exactly.refs
  have pins := exactly.pins
  rw [← same]
  cases c with
  | fileInit f path flags useDirectIo mode =>
      rw [same]
      exact exact_fileInit exactly ordinary keeps rfl step
  | fileSubmit f isWrite buf size fileOffset devOffset =>
      obtain ⟨r₂, regs, submitted⟩ :=
        fileSubmit_spec env exactly.sound f isWrite buf size fileOffset devOffset
      have files : s'.files = t.session.module.files := by
        cases r₂ with
        | ok n =>
            cases (runPy_bind_ok submitted).symm.trans ran
            rfl
        | error e =>
            cases (runPy_bind_error submitted).symm.trans ran
            rfl
      exact exact_of_same exactly sound' account.1 (.inl account.2) fun g => by
        rw [files]
        exact exactly.handles g
  | fileClose f =>
      have closed : ClosedFile f t.session.module s' := account
      have count : s'.driverRefs = (t.session.files.erase f).card + t.session.pins.card := by
        rw [closed.refs]
        by_cases held : f ∈ t.session.files
        · have card := Finset.card_erase_add_one held
          rw [if_pos ⟨(exactly.handles f).mpr held, by omega⟩]
          omega
        · rw [if_neg fun released => held ((exactly.handles f).mp released.1),
            Finset.erase_eq_of_notMem held]
          omega
      refine ⟨sound', ?_, count, fun g => ?_⟩
      · rcases closed.pinned with same | ⟨zero, empty⟩
        · exact pins.trans same.symm
        · exact (pins_empty count.ge zero).trans empty.symm
      · change (s'.files g).fh.isSome ↔ g ∈ t.session.files.erase f
        rw [fileClose_handles exactly.sound ran g, Finset.mem_erase, ← exactly.handles g]
        split_ifs with own <;> simp [own]
  | registerBuffer buf size =>
      have registered : Registered buf.ptr t.session.module r s' := account
      have files := sections_files _ exactly.sound ((runPy_expand _).symm.trans ran)
      have handles : ∀ g, (s'.files g).fh.isSome ↔ g ∈ t.session.files := by
        rw [files]
        exact exactly.handles
      cases r with
      | error e =>
          obtain ⟨same, pinned⟩ := registered.error nofun
          exact exact_of_same exactly sound' same pinned handles
      | ok a =>
          obtain ⟨pinned, more⟩ := registered.ok rfl
          refine ⟨sound', ?_, ?_, handles⟩
          · change insert buf.ptr t.session.pins = s'.pinned
            rw [pinned, pins]
          · change s'.driverRefs =
              (t.session.files.card : Int) + (insert buf.ptr t.session.pins).card
            rw [more, ← pins]
            split_ifs with member
            · rw [Finset.insert_eq_of_mem member]
              omega
            · rw [Finset.card_insert_of_notMem member]
              omega
  | deregisterBuffer buf =>
      have deregistered : Deregistered buf.ptr t.session.module s' := account
      have files := sections_files _ exactly.sound ((runPy_expand _).symm.trans ran)
      have count : s'.driverRefs =
          t.session.files.card + (t.session.pins.erase buf.ptr).card := by
        rw [deregistered.refs, ← pins]
        by_cases member : buf.ptr ∈ t.session.pins
        · have card := Finset.card_erase_add_one member
          rw [if_pos ⟨member, by omega⟩]
          omega
        · rw [if_neg fun released => member released.1, Finset.erase_eq_of_notMem member]
          omega
      refine ⟨sound', ?_, count, ?_⟩
      · change t.session.pins.erase buf.ptr = s'.pinned
        rcases deregistered.pinned with same | ⟨zero, empty⟩
        · rw [same, pins]
        · exact (pins_empty count.ge zero).trans empty.symm
      · change ∀ g, (s'.files g).fh.isSome ↔ g ∈ t.session.files
        rw [files]
        exact exactly.handles
  | cleanup => exact absurd rfl ordinary.cleanup

theorem initial_exact (handlers : Signal → Disposition) : Exact (.initial handlers) :=
  ⟨initial_sound handlers, rfl, rfl, fun _ => iff_of_false Bool.false_ne_true (Finset.notMem_empty _)⟩

theorem noTrace_iff {fds : Finset Int} {r : Except PyError Unit} {p' : Descriptors} {bad : Prop}
    (sound : Sound s) (failed : r ≠ .ok ()) (ends : InitEnds f s fds bad r p') :
    NoTrace ⟨s, fds⟩ p' ↔ ¬ bad := by
  cases ends with
  | opened => exact absurd rfl failed
  | refused e s' good left none =>
      refine iff_of_true ⟨left.refs.trans (add_zero _), left.pinned, left.regs, rfl, ?_⟩ good
      have refs := left.refs
      rw [Bool.eq_iff_iff, left.sound.counted.open_iff, sound.counted.open_iff, refs, add_zero]
  | kept e s' bad left none =>
      refine iff_of_false (fun same => ?_) (not_not.mpr bad)
      have before : s'.driverRefs = s.driverRefs := same.refs
      have after := left.refs
      omega

/-- **A failed constructor leaves no trace unless its handle could not be registered**, after
every run of opens, closes, reads, writes and registrations. After a run without such a
failure, a session that holds nothing has closed the driver. -/
theorem failedInit_runs {handlers : Signal → Disposition} {fds : Finset Int}
    {calls : List (Env × Call)} {t : OpenSession}
    (ordinary : openSession.Meets Ordinary calls (.initial handlers fds))
    (ran : openSession.run calls (.initial handlers fds) = some t) :
    (∀ a f path flags useDirectIo mode r, a.2 = .fileInit f path flags useDirectIo mode →
        Ordinary t a → runFds a.1 a.2.program t.descriptors = some r → r.1 ≠ .ok () →
        (NoTrace t.descriptors r.2 ↔ ¬ HandleFails a.1 t.session.module flags)) ∧
      (openSession.Meets KeepsNoHandle calls (.initial handlers fds) → t.session.files = ∅ →
        t.session.pins = ∅ → t.session.module.driverOpen = false) := by
  constructor
  · intro a f path flags useDirectIo mode r call now ran' failed
    have keeps : ∀ t a t', Sound t.session.module → openSession.step t a = some t' →
        Sound t'.session.module :=
      fun t a t' sound step => session_sound sound (openSession_project step)
    have sound := Machine.run_invariant_of_step keeps (initial_sound handlers) ran
    obtain ⟨r₁, p₁, ran₁, ends⟩ := fileInit_ends a.1 sound path flags useDirectIo mode
      (now.fd f path flags useDirectIo mode call) (now.object f path flags useDirectIo mode call)
    rw [call] at ran'
    cases ran₁.symm.trans ran'
    exact noTrace_iff sound failed ends
  · intro kept files pins
    have keeps : ∀ t a t', Exact t.session → Ordinary t a ∧ KeepsNoHandle t a →
        openSession.step t a = some t' → Exact t'.session :=
      fun t a t' exactly both step => exact_step exactly both.1 both.2 step
    have exactly := Machine.run_invariant keeps (initial_exact handlers)
      (ordinary.and kept) ran
    have refs := exactly.refs
    rw [files, pins] at refs
    have closed := exactly.sound.counted.open_iff.not.mpr (by simp [refs])
    simpa using closed

/-- The test that a step is ordinary. -/
def ordinary (t : OpenSession) (a : Env × Call) : Bool :=
  match a.2 with
  | .fileInit f _ _ _ _ =>
    (t.session.module.files f).fh.isNone &&
      match a.1.osOpen with
      | .ok fd => decide (fd ∉ t.fds)
      | .error _ => true
  | .cleanup => false
  | _ => true

theorem ordinary_sound (t : OpenSession) (a : Env × Call) (passes : ordinary t a = true) :
    Ordinary t a := by
  refine ⟨fun f path flags useDirectIo mode same => ?_, fun f path flags useDirectIo mode same fd opened => ?_,
    fun same => ?_⟩
  · simp only [ordinary, same, Bool.and_eq_true] at passes
    exact Option.isNone_iff_eq_none.mp passes.1
  · simp only [ordinary, same, opened, Bool.and_eq_true] at passes
    exact of_decide_eq_true passes.2
  · simp only [ordinary, same] at passes
    cases passes

/-- The native library registers no handle. -/
def refusing : Env := { granted with handleRegister := (⟨5022, 0⟩, 0) }

/-- The file does not exist. -/
def absent : Env := { granted with osOpen := .error 2 }

/-- A file is opened next to one that does not exist, and closed. -/
theorem failedInit_runs_closed :
    ((openSession.run [openFile 0, (absent, .fileInit 1 "none" "r" none 0o644),
      (granted, .fileClose 0)] (.initial (fun _ => .sigDfl) ∅)).get
        (by decide)).session.module.driverOpen = false :=
  (failedInit_runs (Machine.meets_of_check ordinary_sound (by decide))
    (Option.some_get _).symm).2
      (Machine.meets_of_labels (fun a member t f path flags useDirectIo mode call bad => by
        simp only [List.mem_cons, List.not_mem_nil, or_false] at member
        rcases member with rfl | rfl | rfl
        · exact bad.handleRegister rfl
        · obtain ⟨fd, opened⟩ := bad.osOpen
          cases opened
        · cases call) _) (by decide) (by decide)

/-- **A handle that cannot be registered keeps the driver open**: the constructor of the only
file fails, and nothing is left to close. -/
theorem failed_handle_keeps_driver :
    ∃ r, runFds refusing (Call.fileInit 0 "data" "r" (some false) 0o644).program
        (OpenSession.initial (fun _ => .sigDfl) ∅).descriptors = some r ∧ r.1 ≠ .ok () ∧
      ¬ NoTrace (OpenSession.initial (fun _ => .sigDfl) ∅).descriptors r.2 ∧
      r.2.module.driverOpen = true := by
  refine ⟨_, rfl, nofun, fun same => ?_, rfl⟩
  exact absurd same.refs (by decide)

end OpenDS.Python
