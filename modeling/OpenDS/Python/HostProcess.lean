import OpenDS.Driver.BufferTable
import OpenDS.Python.CallOrder
import OpenDS.Status

/-!
# A process over the buffer table

A process runs the functions of `opends._file` over the buffer table of `opends_aisio.c`:
`execHost` carries out each operation of the module in both. What a call does in the module
is what it does in a module of its own (`run_project`), and the table keeps its buffers in a
call that does not give the last reference to the driver back (`call_ran`).
-/

set_option autoImplicit false

namespace OpenDS.Python

open OpenDS.Library OpenDS.Driver

/-- The attributes of a `HostBuffer`. -/
structure HostBuffer where
  ptr : Nat
  size : Int
  deriving DecidableEq, Repr

/-- The module, the native library and the `HostBuffer`s made so far. -/
structure HostProcess where
  module : ModuleState
  native : Native
  hostBuffers : List HostBuffer

/-- The answers of the code outside, with that of `xnvme_mem_map`. -/
structure Answers where
  env : Env
  memMap : Int

/-- Every call of the native library succeeds. -/
def succeeding : Answers := ⟨granted, 0⟩

/-- The `opends_error_t` of a function of the table. -/
def status : Except BufError Unit → DsError
  | .ok _ => .ok
  | .error e => ⟨e.code, 0⟩

/-- The environment of an operation. The table answers `opends_buf_register`. -/
def Answers.envOf (a : Answers) (n : Native) : Op → Env
  | .bufRegister ptr size _ =>
    { a.env with bufRegister := status (opendsBufRegister n ptr (u64 size) a.memMap).2 }
  | _ => a.env

/-- What an operation of the module does to the table. -/
def Answers.onNative (a : Answers) (driverOpen : Bool) (n : Native) : Op → Native
  | .driverOpen =>
    if driverOpen then n
    else if a.env.driverOpen.err = opendsSuccess then { n with drv := some .opened }
    else n
  | .driverClose => (opendsDriverClose n).1
  | .bufRegister ptr size _ => (opendsBufRegister n ptr (u64 size) a.memMap).1
  | .bufDeregister ptr => (opendsBufDeregister n ptr).1
  | _ => n

/-- One operation of the module, in the module and in the table. -/
def execHost (a : Answers) (op : Op) (p : HostProcess) : Option (Except PyError op.Ans × HostProcess) :=
  (exec (a.envOf p.native op) op p.module).map fun r =>
    (r.1, { p with module := r.2, native := a.onNative p.module.driverOpen p.native op })

/-- `HostBuffer.__init__`, with the answer of `xnvme_buf_alloc`. A `MemoryError` leaves no
object. -/
def hostBufferInit (p : HostProcess) (size : Int) (answer : Nat) : HostProcess × Except String Unit :=
  let out := opendsAlloc p.native (u64 size) answer
  if out.2 = 0 then
    ({ p with native := out.1 }, .error ("opends_alloc(" ++ toString size ++ ") failed"))
  else ({ p with native := out.1, hostBuffers := p.hostBuffers ++ [⟨out.2, size⟩] }, .ok ())

/-- `HostBuffer.free` -/
def hostBufferFree (a : Answers) (h : Nat) (b : HostBuffer) (p : HostProcess) :
    Option (Except PyError Unit × HostProcess) :=
  if b.ptr = 0 then some (.ok (), p)
  else
    (((deregisterBuffer ⟨b.ptr, none⟩).expand Section.body).run (execHost a) p).map fun r =>
      match r.1 with
      | .error e => (.error e, r.2)
      | .ok _ =>
        (.ok (), { r.2 with
          native := opendsFree r.2.native b.ptr
          hostBuffers := r.2.hostBuffers.set h ⟨0, b.size⟩ })

/-- `HostBuffer.__del__` -/
def hostBufferDel (a : Answers) (h : Nat) (b : HostBuffer) (p : HostProcess) :
    Option (Except PyError Unit × HostProcess) :=
  (hostBufferFree a h b p).map fun r =>
    match r.1 with
    | .error e => if e.isException then (.ok (), r.2) else r
    | .ok _ => r

/-- What the host of the module does: it calls the module, or makes, frees or drops a
`HostBuffer`. -/
inductive HostCall where
  | call (c : Call)
  | alloc (size : Int) (answer : Nat)
  | free (h : Nat)
  | del (h : Nat)
  deriving DecidableEq, Repr

/-- Calls of the host, each run to its end. -/
def hosting : Machine HostProcess (Answers × HostCall) where
  step p a :=
    match a.2 with
    | .call c => (c.program.run (execHost a.1) p).map Prod.snd
    | .alloc size answer => some (hostBufferInit p size answer).1
    | .free h => p.hostBuffers[h]?.bind fun b => (hostBufferFree a.1 h b p).map Prod.snd
    | .del h => p.hostBuffers[h]?.bind fun b => (hostBufferDel a.1 h b p).map Prod.snd

/-- The process after the import of the module. -/
def HostProcess.initial (handlers : Signal → Disposition) : HostProcess :=
  ⟨.initial handlers, ⟨none, ⟨[], []⟩⟩, []⟩

/-- The addresses that are allocated. -/
def HostProcess.allocated (p : HostProcess) : Finset Nat := Usage.outstanding p.native.xnvme.buffers

/-! ## Operations of the module -/

variable {a : Answers} {p p' : HostProcess} {n : Native}

/-- Only closing the driver releases buffers. -/
theorem onNative_buffers (opened : Bool) {op : Op} (other : op ≠ .driverClose) :
    (a.onNative opened n op).xnvme.buffers = n.xnvme.buffers := by
  unfold Answers.onNative
  split
  · split_ifs <;> rfl
  · exact absurd rfl other
  · exact buffers_register ..
  · exact buffers_deregister ..
  · rfl

/-- No operation of the module acquires a buffer. -/
theorem onNative_acquires (a : Answers) (opened : Bool) (n : Native) (op : Op) (q : Nat) :
    (a.onNative opened n op).xnvme.buffers.count (.acquire q) =
      n.xnvme.buffers.count (.acquire q) := by
  by_cases close : op = .driverClose
  · subst close
    exact acquires_close n q
  · rw [onNative_buffers opened close]

theorem onNative_agrees {opened : Bool} (linked : opened = n.drv.isSome) (agrees : Agrees n)
    (op : Op) : Agrees (a.onNative opened n op) := by
  unfold Answers.onNative
  split
  · split_ifs with already succeeds
    · exact agrees
    · refine agrees.open (Option.isNone_iff_eq_none.mp ?_)
      simpa [linked] using already
    · exact agrees
  · exact agrees.close
  · exact agrees.register ..
  · exact agrees.deregister ..
  · exact agrees

/-- The driver is open in the module and in the native library, or in neither. -/
def Linked (p : HostProcess) : Prop := p.module.driverOpen = p.native.drv.isSome

/-- The operations that open or close the driver. -/
def Switches : Op → Prop
  | .driverOpen => True
  | .driverClose => True
  | _ => False

theorem exec_driverOpen_same {env : Env} {op : Op} {s : ModuleState}
    {r : Except PyError op.Ans × ModuleState} (other : ¬ Switches op)
    (step : exec env op s = some r) : r.2.driverOpen = s.driverOpen := by
  cases op
  case driverOpen => exact absurd trivial other
  case driverClose => exact absurd trivial other
  case acquire l =>
    cases l
    · cases step
      rfl
    · simp only [exec] at step
      split_ifs at step
      cases step
      rfl
  case release l =>
    cases l <;> cases step <;> rfl
  all_goals
    simp only [exec, ModuleState.effect] at step
    repeat' split at step
    all_goals
      cases step
      rfl

theorem onNative_isSome {opened : Bool} {op : Op} (other : ¬ Switches op) :
    (a.onNative opened n op).drv.isSome = n.drv.isSome := by
  unfold Answers.onNative
  split
  · exact absurd trivial other
  · exact absurd trivial other
  · exact isSome_register ..
  · exact isSome_deregister ..
  · rfl

theorem closeDriver_driverOpen (s : ModuleState) : s.closeDriver.2.driverOpen = false := by
  unfold ModuleState.closeDriver
  split_ifs with opened
  · rfl
  · simpa using opened

theorem execHost_linked {op : Op} {r : Except PyError op.Ans × HostProcess} (linked : Linked p)
    (step : execHost a op p = some r) : Linked r.2 := by
  obtain ⟨r', taken, same⟩ := Option.map_eq_some_iff.mp step
  subst same
  by_cases switches : Switches op
  · cases op
    case driverOpen =>
      cases taken
      change (p.module.openDriver a.env.driverOpen).2.driverOpen =
        (a.onNative p.module.driverOpen p.native .driverOpen).drv.isSome
      unfold ModuleState.openDriver Answers.onNative
      dsimp only
      split_ifs
      · exact linked
      · rfl
      · exact linked
    case driverClose =>
      cases taken
      change p.module.closeDriver.2.driverOpen = (opendsDriverClose p.native).1.drv.isSome
      rw [drv_close]
      exact closeDriver_driverOpen p.module
    all_goals exact absurd switches not_false
  · change r'.2.driverOpen = _
    rw [exec_driverOpen_same switches taken, onNative_isSome switches]
    exact linked

/-! ## Functions of the module -/

/-- What a function of the module does to a process, whichever it is. -/
structure Ran (p p' : HostProcess) : Prop where
  linked : Linked p'
  agrees : Agrees p'.native
  hostBuffers : p'.hostBuffers = p.hostBuffers
  acquires : ∀ q, p'.native.xnvme.buffers.count (.acquire q) =
    p.native.xnvme.buffers.count (.acquire q)

/-- **A function of the module keeps the module and the table linked**, makes no
`HostBuffer` and acquires no buffer. -/
theorem run_ran {α : Type} (f : Py α) {r : Except PyError α × HostProcess} (linked : Linked p)
    (agrees : Agrees p.native) (ran : f.run (execHost a) p = some r) : Ran p r.2 := by
  apply (Prog.uses_any f).run_keeps ?_ (⟨linked, agrees, rfl, fun _ => rfl⟩ : Ran p p) ran
  intro op p₁ r₁ _ before step
  have linked₁ := execHost_linked before.linked step
  obtain ⟨r', taken, same⟩ := Option.map_eq_some_iff.mp step
  subst same
  exact ⟨linked₁, onNative_agrees before.linked before.agrees op, before.hostBuffers,
    fun q => (onNative_acquires ..).trans (before.acquires q)⟩

/-- A function that does not open the driver leaves it closed. -/
theorem run_closed {α : Type} {f : Py α} {r : Except PyError α × HostProcess}
    (uses : f.Uses fun op => op ≠ .driverOpen) (closed : p.module.driverOpen = false)
    (ran : f.run (execHost a) p = some r) : r.2.module.driverOpen = false := by
  have keeps : ∀ (op : Op) (q : HostProcess) (r : Except PyError op.Ans × HostProcess),
      op ≠ .driverOpen → q.module.driverOpen = false → execHost a op q = some r →
      r.2.module.driverOpen = false := by
    intro op q r other before step
    obtain ⟨r', taken, same⟩ := Option.map_eq_some_iff.mp step
    subst same
    by_cases close : op = .driverClose
    · subst close
      cases taken
      exact closeDriver_driverOpen q.module
    · have stays : ¬ Switches op := by
        intro switches
        cases op <;> first | exact switches | exact other rfl | exact close rfl
      exact (exec_driverOpen_same stays taken).trans before
  exact uses.run_keeps keeps closed ran

/-- A function that does not open the driver again keeps the buffers, or the driver is closed
at its end. -/
theorem run_keeps_buffers {α : Type} {f : Py α} {r : Except PyError α × HostProcess}
    (uses : f.UsesAfter (fun op => op = .driverClose) fun op => op ≠ .driverOpen)
    (ran : f.run (execHost a) p = some r) :
    r.2.native.xnvme.buffers = p.native.xnvme.buffers ∨ r.2.module.driverOpen = false := by
  induction f generalizing p with
  | done result =>
      cases ran
      exact .inl rfl
  | act closing op next ih =>
      obtain ⟨answer, step, later⟩ := Option.bind_eq_some_iff.mp ran
      obtain ⟨r', taken, same⟩ := Option.map_eq_some_iff.mp step
      subst same
      by_cases close : op = .driverClose
      · refine .inr (run_closed ((uses _).1 close) ?_ later)
        subst close
        cases taken
        exact closeDriver_driverOpen p.module
      · refine (ih _ (uses _).2 later).imp_left fun same => ?_
        exact same.trans (onNative_buffers _ close)

/-! ## Calls of the module -/

/-- A call of a process does in the module what it does in a module of its own, with the
answer that the table gave. -/
theorem run_project {α : Type} {f : Py α} (ordered : f.UsesAfter Turning Late) (a : Answers)
    (p : HostProcess) : ∃ err : DsError,
      (f.run (execHost a) p).map (fun r => (r.1, r.2.module)) =
        runPy { a.env with bufRegister := err } f p.module := by
  have project : ∀ (op : Op) (p : HostProcess),
      (execHost a op p).map (fun r => (r.1, r.2.module)) = exec (a.envOf p.native op) op p.module := by
    intro op p
    rw [execHost, Option.map_map]
    exact Option.map_id'
  have once : f.UsesAfter (fun op => ∃ ptr size flags, op = .bufRegister ptr size flags)
      fun op => ¬ ∃ ptr size flags, op = .bufRegister ptr size flags := by
    apply ordered.mono
    · rintro op ⟨ptr, size, flags, rfl⟩
      trivial
    · rintro op late ⟨ptr, size, flags, rfl⟩
      exact late
  have : Inhabited DsError := ⟨.ok⟩
  apply once.run_project HostProcess.module
  · intro err op p other
    refine (project op p).trans ?_
    cases op
    case bufRegister ptr size flags => exact absurd ⟨ptr, size, flags, rfl⟩ other
    case acquire l => cases l <;> rfl
    case release l => cases l <;> rfl
    all_goals rfl
  · intro op p
    cases op
    case bufRegister ptr size flags => exact ⟨_, project _ p⟩
    all_goals exact ⟨a.env.bufRegister, project _ p⟩

/-- The call gives the last reference to the driver back. -/
def ModuleState.Closes (s : ModuleState) : Call → Prop
  | .fileClose f => (s.files f).fh.isSome ∧ s.driverRefs = 1
  | .deregisterBuffer buf => buf.ptr ∈ s.pinned ∧ s.driverRefs = 1
  | .cleanup => 0 < s.driverRefs
  | _ => False

/-- The process between two calls of its host. -/
structure Idle (p : HostProcess) : Prop where
  sound : Sound p.module
  linked : Linked p
  agrees : Agrees p.native

/-- Nothing is allocated while the driver is closed. -/
theorem Idle.nothing (idle : Idle p) (closed : p.module.driverOpen = false) : p.allocated = ∅ := by
  have none : p.native.drv = none := by
    have linked : p.module.driverOpen = p.native.drv.isSome := idle.linked
    rw [closed] at linked
    exact Option.isNone_iff_eq_none.mp (by simpa using linked.symm)
  have records := idle.agrees.records true
  rw [Native.bases, none] at records
  exact records.nothing

/-- What a call of the module does to the buffers. -/
structure CallRan (p p' : HostProcess) (c : Call) : Prop where
  idle : Idle p'
  hostBuffers : p'.hostBuffers = p.hostBuffers
  acquires : ∀ q, p'.native.xnvme.buffers.count (.acquire q) =
    p.native.xnvme.buffers.count (.acquire q)
  kept : ¬ p.module.Closes c → ∀ q,
    ¬ Usage.Released p.native.xnvme.buffers p'.native.xnvme.buffers q

/-- The driver stays open in a call that does not give the last reference back. -/
theorem closes_of_account {s s' : ModuleState} {c : Call} {r : Except PyError Unit}
    (account : Account s c r s') (held : 0 < s.driverRefs) (gone : s'.driverRefs = 0) :
    s.Closes c := by
  cases c with
  | fileInit f path flags useDirectIo mode =>
      have opened : Opened s r s' := account
      have more := opened.refs
      omega
  | fileSubmit f isWrite buf size fileOffset devOffset =>
      have same : s'.driverRefs = s.driverRefs := account.1
      omega
  | fileClose f =>
      have closed : ClosedFile f s s' := account
      have refs := closed.refs
      split_ifs at refs with released
      · exact ⟨released.1, by omega⟩
      · omega
  | registerBuffer buf size =>
      have registered : Registered buf.ptr s r s' := account
      by_cases ok : r = .ok ()
      · have refs := (registered.ok ok).2
        split_ifs at refs <;> omega
      · have refs := (registered.error ok).1
        omega
  | deregisterBuffer buf =>
      have deregistered : Deregistered buf.ptr s s' := account
      have refs := deregistered.refs
      split_ifs at refs with released
      · exact ⟨released.1, by omega⟩
      · omega
  | cleanup => exact held

theorem call_ran (a : Answers) (idle : Idle p) (c : Call) :
    ∃ r, c.program.run (execHost a) p = some r ∧ CallRan p r.2 c := by
  obtain ⟨err, projected⟩ := run_project (ordered_call c) a p
  obtain ⟨r, s', ran, sound, account⟩ := call_spec { a.env with bufRegister := err } idle.sound c
  rw [ran] at projected
  obtain ⟨out, hostRan, same⟩ := Option.map_eq_some_iff.mp projected
  cases same
  have below := run_ran c.program idle.linked idle.agrees hostRan
  have idle' : Idle out.2 := ⟨sound, below.linked, below.agrees⟩
  refine ⟨out, hostRan, idle', below.hostBuffers, below.acquires, fun stays q released => ?_⟩
  have closing : c.program.UsesAfter (fun op => op = .driverClose) fun op => op ≠ .driverOpen := by
    apply (ordered_call c).mono
    · rintro op rfl
      trivial
    · rintro op late rfl
      exact late
  rcases run_keeps_buffers closing hostRan with same | closed
  · rw [same] at released
    exact Usage.not_released_self _ released
  · have before := ((Usage.released_iff (idle.agrees.records true).disciplined
      (below.agrees.records true).disciplined (below.acquires q)).mp released).1
    have opened : p.module.driverOpen = true := by
      by_contra shut
      have none := idle.nothing (by simpa using shut)
      rw [HostProcess.allocated] at none
      exact Finset.notMem_empty q (none ▸ before)
    have held := idle.sound.counted.open_iff.mp opened
    have gone : ¬ 0 < out.2.module.driverRefs := by
      rw [← sound.counted.open_iff, closed]
      exact Bool.false_ne_true
    exact stays (closes_of_account account held (le_antisymm (not_lt.mp gone) sound.counted.refs))

end OpenDS.Python
