import OpenDS.Library.Program

/-!
# The Python module `opends._file`

The functions of the module that share its globals: the driver reference count, the
pinned pointers, the registration cache, the signal handlers and `OpenDSFile`. Each is a
program over the single reads, writes and calls that it makes (`Op`), so a signal can be
placed between any two of them.

`register_buffer` and `deregister_buffer` are written over the sections of the module
that are protected by a lock (`Section`), and `Section.body` is the program of a section.
Saving and restoring the CUDA context around a native call touches no global of the
module and is left out.
-/

set_option autoImplicit false

namespace OpenDS.Python

open OpenDS.Library

/-! ## Values -/

/-- The members of `_CLEANUP_SIGNALS`. -/
inductive Signal where
  | sigterm
  | sigint
  deriving DecidableEq, Repr

/-- What `signal.getsignal` may answer. `outside` is `None`, a handler that was not
installed from Python. -/
inductive Disposition where
  | sigDfl
  | sigIgn
  | outside
  | signalCleanup
  | function (n : Nat)
  deriving DecidableEq, Repr

/-- `callable(prev)` -/
def Disposition.callable : Disposition → Bool
  | .signalCleanup => true
  | .function _ => true
  | _ => false

/-- `opends_error_t` -/
structure DsError where
  err : Int
  devErr : Int
  deriving DecidableEq, Repr

def opendsSuccess : Int := 0

def opendsDriverNotInitialized : Int := 5001

def opendsMemoryAlreadyRegistered : Int := 5023

def opendsDriverAlreadyOpen : Int := 5026

/-- `opends_ok()` -/
def DsError.ok : DsError := ⟨opendsSuccess, 0⟩

/-- The exceptions that the module raises or lets through. A signal handler of someone
else may raise anything, and what it raises need not be an `Exception`. -/
inductive PyError where
  | openDS (code devErr : Int)
  | value (message : String)
  | os (errno : Int)
  | raised (exception : Bool) (n : Nat)
  deriving DecidableEq, Repr

/-- `except Exception` -/
def PyError.isException : PyError → Bool
  | .raised exception _ => exception
  | _ => true

/-- `except (ValueError, OSError)` -/
def PyError.isValueOrOS : PyError → Bool
  | .value _ => true
  | .os _ => true
  | _ => false

/-- The attributes of an `OpenDSFile`. -/
structure FileObject where
  fh : Option Nat
  fd : Int
  deriving DecidableEq, Repr

/-! ## Operations -/

/-- The reentrant `_lock` and the plain `_registry._lock`. -/
inductive Lock where
  | module
  | registry
  deriving DecidableEq, Repr

/-- The globals of the module, the locks as the running thread sees them, the signal
dispositions of the process, and whether the native driver is open. -/
structure ModuleState where
  driverOpen : Bool
  driverRefs : Int
  cleaning : Bool
  pinned : Finset Nat
  regs : List (Nat × Int)
  lockDepth : Nat
  registryLocked : Bool
  handlers : Signal → Disposition
  prevHandlers : Signal → Option Disposition
  files : Nat → FileObject
  terminated : Bool

/-- The answers of the code outside the module while one operation runs. -/
structure Env where
  driverOpen : DsError
  bufRegister : DsError
  handleRegister : DsError × Nat
  osOpen : Except Int Int
  osClose : Option Int
  transfer : Int
  invoked : Option PyError
  mainThread : Bool

/-- An environment in which every native call succeeds and every handler returns. -/
def granted : Env where
  driverOpen := .ok
  bufRegister := .ok
  handleRegister := (.ok, 0)
  osOpen := .ok 3
  osClose := none
  transfer := 0
  invoked := none
  mainThread := true

/-- The reads, writes and calls of the module. -/
inductive Op where
  | acquire (l : Lock)
  | release (l : Lock)
  | getDriverRefs
  | setDriverRefs (n : Int)
  | getCleaning
  | setCleaning (b : Bool)
  | pinnedContains (ptr : Nat)
  | pinnedAdd (ptr : Nat)
  | pinnedDiscard (ptr : Nat)
  | pinnedClear
  | regsContains (ptr : Nat)
  | regsSet (ptr : Nat) (size : Int)
  | regsPop (ptr : Nat)
  | regsKeys
  | regsClear
  | driverOpen
  | driverClose
  | bufRegister (ptr : Nat) (size : Int) (flags : Nat)
  | bufDeregister (ptr : Nat)
  | handleRegister (fd : Int)
  | handleDeregister (fh : Nat)
  | osOpen (path : String) (oflags mode : Nat)
  | osClose (fd : Int)
  | transfer (isWrite : Bool) (fh : Option Nat) (ptr : Nat) (size fileOffset devOffset : Int)
  | getFh (f : Nat)
  | setFh (f : Nat) (fh : Option Nat)
  | getFd (f : Nat)
  | setFd (f : Nat) (fd : Int)
  | getsignal (sig : Signal)
  | setsignal (sig : Signal) (d : Disposition)
  | getPrev (sig : Signal)
  | setPrev (sig : Signal) (d : Disposition)
  | invoke (d : Disposition) (sig : Signal)
  | kill (sig : Signal)
  deriving DecidableEq

/-- What an operation answers with. -/
@[reducible] def Op.Ans : Op → Type
  | .getDriverRefs => Int
  | .getCleaning => Bool
  | .pinnedContains _ => Bool
  | .regsContains _ => Bool
  | .regsPop _ => Option Int
  | .regsKeys => List Nat
  | .driverOpen => DsError
  | .driverClose => DsError
  | .bufRegister .. => DsError
  | .handleRegister _ => DsError × Nat
  | .osOpen .. => Int
  | .transfer .. => Int
  | .getFh _ => Option Nat
  | .getFd _ => Int
  | .getsignal _ => Disposition
  | .getPrev _ => Option Disposition
  | _ => Unit

/-- `opends_driver_open` -/
def ModuleState.openDriver (s : ModuleState) (answer : DsError) : DsError × ModuleState :=
  if s.driverOpen then (⟨opendsDriverAlreadyOpen, 0⟩, s)
  else if answer.err = opendsSuccess then (answer, { s with driverOpen := true })
  else (answer, s)

/-- `opends_driver_close` -/
def ModuleState.closeDriver (s : ModuleState) : DsError × ModuleState :=
  if s.driverOpen then (.ok, { s with driverOpen := false })
  else (⟨opendsDriverNotInitialized, 0⟩, s)

/-- An operation that changes the state and answers nothing. -/
def ModuleState.effect (s : ModuleState) : Option (Except PyError Unit × ModuleState) :=
  some (.ok (), s)

/-- One operation. `none` is a wait for a lock that the running thread holds itself. -/
def exec (env : Env) (op : Op) (s : ModuleState) : Option (Except PyError op.Ans × ModuleState) :=
  match op with
  | .acquire .module => { s with lockDepth := s.lockDepth + 1 }.effect
  | .acquire .registry =>
    if s.registryLocked then none else { s with registryLocked := true }.effect
  | .release .module => { s with lockDepth := s.lockDepth - 1 }.effect
  | .release .registry => { s with registryLocked := false }.effect
  | .getDriverRefs => some (.ok s.driverRefs, s)
  | .setDriverRefs n => { s with driverRefs := n }.effect
  | .getCleaning => some (.ok s.cleaning, s)
  | .setCleaning b => { s with cleaning := b }.effect
  | .pinnedContains ptr => some (.ok (decide (ptr ∈ s.pinned)), s)
  | .pinnedAdd ptr => { s with pinned := insert ptr s.pinned }.effect
  | .pinnedDiscard ptr => { s with pinned := s.pinned.erase ptr }.effect
  | .pinnedClear => { s with pinned := ∅ }.effect
  | .regsContains ptr => some (.ok (s.regs.any fun r : Nat × Int => r.1 == ptr), s)
  | .regsSet ptr size =>
    { s with regs := s.regs.filter (fun r : Nat × Int => r.1 != ptr) ++ [(ptr, size)] }.effect
  | .regsPop ptr =>
    some (.ok ((s.regs.find? fun r : Nat × Int => r.1 == ptr).map Prod.snd),
      { s with regs := s.regs.filter (fun r : Nat × Int => r.1 != ptr) })
  | .regsKeys => some (.ok (s.regs.map Prod.fst), s)
  | .regsClear => { s with regs := [] }.effect
  | .driverOpen => some (.ok (s.openDriver env.driverOpen).1, (s.openDriver env.driverOpen).2)
  | .driverClose => some (.ok s.closeDriver.1, s.closeDriver.2)
  | .bufRegister _ _ _ =>
    some (.ok (if s.driverOpen then env.bufRegister else ⟨opendsDriverNotInitialized, 0⟩), s)
  | .bufDeregister _ => s.effect
  | .handleRegister _ => some (.ok env.handleRegister, s)
  | .handleDeregister _ => s.effect
  | .osOpen _ _ _ =>
    match env.osOpen with
    | .ok fd => some (.ok fd, s)
    | .error errno => some (.error (.os errno), s)
  | .osClose _ =>
    match env.osClose with
    | none => s.effect
    | some errno => some (.error (.os errno), s)
  | .transfer _ _ _ _ _ _ => some (.ok env.transfer, s)
  | .getFh f => some (.ok (s.files f).fh, s)
  | .setFh f fh => { s with files := Function.update s.files f ⟨fh, (s.files f).fd⟩ }.effect
  | .getFd f => some (.ok (s.files f).fd, s)
  | .setFd f fd => { s with files := Function.update s.files f ⟨(s.files f).fh, fd⟩ }.effect
  | .getsignal sig => some (.ok (s.handlers sig), s)
  | .setsignal sig d =>
    if env.mainThread then { s with handlers := Function.update s.handlers sig d }.effect
    else some (.error (.value "signal only works in main thread of the main interpreter"), s)
  | .getPrev sig => some (.ok (s.prevHandlers sig), s)
  | .setPrev sig d => { s with prevHandlers := Function.update s.prevHandlers sig (some d) }.effect
  | .invoke _ _ =>
    match env.invoked with
    | none => s.effect
    | some e => some (.error e, s)
  | .kill sig => { s with terminated := s.terminated || s.handlers sig == Disposition.sigDfl }.effect

/-- A function of the module. -/
abbrev Py (α : Type) : Type := Prog Op Op.Ans PyError α

abbrev call (op : Op) : Py op.Ans := Prog.call op

abbrev raise {α : Type} (e : PyError) : Py α := Prog.raise e

/-- `with lock:` -/
def withLock {α : Type} (l : Lock) (body : Py α) : Py α :=
  Prog.within (.acquire l) (.release l) body

/-- `_check` -/
def check (e : DsError) : Py Unit :=
  if e.err ≠ opendsSuccess then raise (.openDS e.err e.devErr) else pure ()

/-- `_io_result` -/
def ioResult (ret : Int) : Py Int :=
  if ret < 0 then raise (.openDS (-ret) 0) else pure ret

/-! ## The registration cache -/

/-- `"0x%x" % ptr` -/
def hex (ptr : Nat) : String := "0x" ++ String.ofList (Nat.toDigits 16 ptr)

/-- The `ValueError` of `_Registry.ensure`. -/
def bareUnregistered (ptr : Nat) : PyError :=
  .value ("bare pointer " ++ hex ptr ++ " is not registered; call " ++
    "opends.register_buffer(ptr, size) on the base buffer before using it for I/O")

/-- `_Registry.ensure` -/
def registryEnsure (ptr : Nat) (size : Option Int) : Py Unit :=
  withLock .registry do
    if ← call (.regsContains ptr) then pure ()
    else
      match size with
      | none => raise (bareUnregistered ptr)
      | some size =>
        let err ← call (.bufRegister ptr size 0)
        if err.err ≠ opendsSuccess ∧ err.err ≠ opendsMemoryAlreadyRegistered then
          raise (.openDS err.err err.devErr)
        else call (.regsSet ptr size)

/-- `_Registry.drop` -/
def registryDrop (ptr : Nat) : Py Unit :=
  withLock .registry do
    let size ← call (.regsPop ptr)
    if size.isSome then call (.bufDeregister ptr) else pure ()

/-- `_Registry.clear` -/
def registryClear : Py Unit :=
  withLock .registry do
    let ptrs ← call .regsKeys
    Prog.forEach (fun ptr => call (.bufDeregister ptr)) ptrs
    call .regsClear

/-! ## Driver lifecycle and signals -/

/-- The body of the loop of `_install_signal_handlers`. -/
def installSignalHandler (sig : Signal) : Py Unit :=
  Prog.tryExcept
    (do
      let cur ← call (.getsignal sig)
      if cur = .signalCleanup then pure ()
      else
        call (.setsignal sig .signalCleanup)
        call (.setPrev sig cur))
    PyError.isValueOrOS fun _ => pure ()

/-- `_install_signal_handlers` -/
def installSignalHandlers : Py Unit :=
  Prog.forEach installSignalHandler [.sigterm, .sigint]

/-- `_ensure_driver` -/
def ensureDriver : Py Unit := do
  withLock .module do
    let refs ← call .getDriverRefs
    if refs = 0 then
      let err ← call .driverOpen
      check err
    let refs ← call .getDriverRefs
    call (.setDriverRefs (refs + 1))
  installSignalHandlers

/-- `_release_driver` -/
def releaseDriver : Py Unit :=
  withLock .module do
    let refs ← call .getDriverRefs
    if refs = 0 then pure ()
    else
      let refs ← call .getDriverRefs
      call (.setDriverRefs (refs - 1))
      let refs ← call .getDriverRefs
      if refs = 0 then
        call .pinnedClear
        registryClear
        let err ← call .driverClose
        check err

/-- The part of `_cleanup` inside `with _lock`. -/
def cleanupDriver : Py Unit :=
  withLock .module do
    let refs ← call .getDriverRefs
    if refs > 0 then
      call .pinnedClear
      registryClear
      let _ ← call .driverClose
      call (.setDriverRefs 0)

/-- `_cleanup` -/
def cleanup : Py Unit := do
  if ← call .getCleaning then pure ()
  else
    call (.setCleaning true)
    Prog.tryFinally cleanupDriver (call (.setCleaning false))

/-- The disposition that `_signal_cleanup` hands a signal on to. -/
def priorDisposition : Option Disposition → Disposition
  | none => .sigDfl
  | some .outside => .sigDfl
  | some d => d

/-- The end of `_signal_cleanup`. -/
def giveAway (sig : Signal) : Py Unit := do
  let prev ← call (.getPrev sig)
  if (priorDisposition prev).callable then call (.invoke (priorDisposition prev) sig)
  else
    call (.setsignal sig (priorDisposition prev))
    call (.kill sig)

/-- `_signal_cleanup` -/
def signalCleanup (sig : Signal) : Py Unit := do
  cleanup
  giveAway sig

/-! ## Registered buffers -/

/-- The sections of the module that a lock protects, as `register_buffer` and
`deregister_buffer` use them. The insertion carries the local `first` of its caller. -/
inductive Section where
  | testPinned (ptr : Nat)
  | ensureDriver
  | registryEnsure (ptr : Nat) (size : Option Int)
  | addPinned (ptr : Nat) (first : Bool)
  | discardPinned (ptr : Nat)
  | registryDrop (ptr : Nat)
  | releaseDriver
  deriving DecidableEq, Repr

@[reducible] def Section.Ans : Section → Type
  | .testPinned _ => Bool
  | .discardPinned _ => Bool
  | _ => Unit

/-- The program of a section. -/
def Section.body : (c : Section) → Py c.Ans
  | .testPinned ptr => withLock .module (call (.pinnedContains ptr))
  | .ensureDriver => Python.ensureDriver
  | .registryEnsure ptr size => Python.registryEnsure ptr size
  | .addPinned ptr _ => withLock .module (call (.pinnedAdd ptr))
  | .discardPinned ptr => withLock .module do
      let pinned ← call (.pinnedContains ptr)
      call (.pinnedDiscard ptr)
      pure pinned
  | .registryDrop ptr => Python.registryDrop ptr
  | .releaseDriver => Python.releaseDriver

/-- A function of the module over the protected sections. -/
abbrev Sections (α : Type) : Type := Prog Section Section.Ans PyError α

abbrev perform (c : Section) : Sections c.Ans := Prog.call c

/-- The base pointer of a buffer and its extent, as `_buffer_view` returns them. -/
structure BufferView where
  ptr : Nat
  nbytes : Option Int
  deriving DecidableEq, Repr

/-- `register_buffer` from its `_pinned` test on. -/
def registerSections (ptr : Nat) (size : Int) : Sections Unit := do
  let pinned ← perform (.testPinned ptr)
  let first := !pinned
  if first then perform .ensureDriver
  Prog.tryExcept (perform (.registryEnsure ptr (some size))) PyError.isException fun e => do
    if first then perform .releaseDriver
    Prog.raise e
  perform (.addPinned ptr first)

/-- `register_buffer` -/
def registerBuffer (buf : BufferView) (size : Option Int) : Sections Unit :=
  match size, buf.nbytes with
  | some size, _ => registerSections buf.ptr size
  | none, some nbytes => registerSections buf.ptr nbytes
  | none, none => Prog.raise (.value "size is required to register a bare pointer")

/-- `deregister_buffer` -/
def deregisterBuffer (buf : BufferView) : Sections Unit := do
  let pinned ← perform (.discardPinned buf.ptr)
  perform (.registryDrop buf.ptr)
  if pinned then perform .releaseDriver

/-! ## Files -/

def oRdonly : Nat := 0

def oWronly : Nat := 1

def oRdwr : Nat := 2

def oCreat : Nat := 0o100

def oTrunc : Nat := 0o1000

def oAppend : Nat := 0o2000

def oDirect : Nat := 0o40000

/-- `_FLAGS` -/
def openFlags : String → Option Nat
  | "r" => some oRdonly
  | "w" => some (oWronly ||| oCreat ||| oTrunc)
  | "rw" => some (oRdwr ||| oCreat)
  | "r+" => some oRdwr
  | "a" => some (oWronly ||| oCreat ||| oAppend)
  | _ => none

/-- `OpenDSFile.__init__` -/
def fileInit (f : Nat) (path flags : String) (useDirectIo : Option Bool) (mode : Nat) :
    Py Unit :=
  match openFlags flags with
  | none => raise (.value ("unsupported flags " ++ flags.quote))
  | some oflags => do
    call (.setFh f none)
    let fd ← call (.osOpen path (if useDirectIo.getD true then oflags ||| oDirect else oflags) mode)
    call (.setFd f fd)
    Prog.tryExcept
      (do
        ensureDriver
        let answer ← call (.handleRegister fd)
        check answer.1
        call (.setFh f (some answer.2)))
      PyError.isException fun e => do
        call (.osClose fd)
        call (.setFd f (-1))
        raise e

/-- `OpenDSFile._submit` -/
def fileSubmit (f : Nat) (isWrite : Bool) (buf : BufferView) (size : Option Int)
    (fileOffset devOffset : Int) : Py Int := do
  let size ← match size, buf.nbytes with
    | some size, _ => pure size
    | none, some nbytes => pure (nbytes - devOffset)
    | none, none => raise (.value "size is required for a bare pointer")
  registryEnsure buf.ptr buf.nbytes
  let fh ← call (.getFh f)
  let ret ← call (.transfer isWrite fh buf.ptr size fileOffset devOffset)
  ioResult ret

/-- `OpenDSFile.close` -/
def fileClose (f : Nat) : Py Unit := do
  let fh ← call (.getFh f)
  match fh with
  | some handle =>
    call (.handleDeregister handle)
    call (.setFh f none)
    releaseDriver
  | none => pure ()
  let fd ← call (.getFd f)
  if fd ≥ 0 then
    call (.osClose fd)
    call (.setFd f (-1))

/-- The calls that a host makes into the module. -/
inductive Call where
  | fileInit (f : Nat) (path flags : String) (useDirectIo : Option Bool) (mode : Nat)
  | fileSubmit (f : Nat) (isWrite : Bool) (buf : BufferView) (size : Option Int)
      (fileOffset devOffset : Int)
  | fileClose (f : Nat)
  | registerBuffer (buf : BufferView) (size : Option Int)
  | deregisterBuffer (buf : BufferView)
  | cleanup
  deriving DecidableEq, Repr

/-- The program of a call. The result of a read or a write is dropped. -/
def Call.program : Call → Py Unit
  | .fileInit f path flags useDirectIo mode => Python.fileInit f path flags useDirectIo mode
  | .fileSubmit f isWrite buf size fileOffset devOffset => do
      let _ ← Python.fileSubmit f isWrite buf size fileOffset devOffset
      pure ()
  | .fileClose f => Python.fileClose f
  | .registerBuffer buf size => (Python.registerBuffer buf size).expand Section.body
  | .deregisterBuffer buf => (Python.deregisterBuffer buf).expand Section.body
  | .cleanup => Python.cleanup

/-- The module after its import, with no driver open. The environment has installed the
dispositions of the signals. -/
def ModuleState.initial (handlers : Signal → Disposition) : ModuleState where
  driverOpen := false
  driverRefs := 0
  cleaning := false
  pinned := ∅
  regs := []
  lockDepth := 0
  registryLocked := false
  handlers := handlers
  prevHandlers := fun _ => none
  files := fun _ => ⟨none, -1⟩
  terminated := false

end OpenDS.Python
