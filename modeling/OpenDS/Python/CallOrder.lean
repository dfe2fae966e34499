import OpenDS.Python.DriverRefs

/-!
# The order of the operations of a call

A call of `opends._file` registers at most one buffer with the native library. After it has
done so, or has closed the driver, it opens no driver (`ordered_call`). So the answer to the
registration can be fixed before the call, and a driver that is open before and after a call
has not been closed in between.
-/

set_option autoImplicit false

namespace OpenDS.Python

open OpenDS.Library

/-- A buffer is registered or the driver is closed. -/
def Turning : Op → Prop
  | .bufRegister _ _ _ => True
  | .driverClose => True
  | _ => False

/-- What may follow: no buffer is registered and the driver is not opened. -/
def Late : Op → Prop
  | .bufRegister _ _ _ => False
  | .driverOpen => False
  | _ => True

/-- The operations before it: the driver may be opened. -/
def Early : Op → Prop
  | .bufRegister _ _ _ => False
  | .driverClose => False
  | _ => True

/-- The operations that do none of it. -/
def Quiet : Op → Prop
  | .bufRegister _ _ _ => False
  | .driverClose => False
  | .driverOpen => False
  | _ => True

theorem Quiet.late (op : Op) (quiet : Quiet op) : Late op := by
  cases op <;> trivial

theorem Quiet.early (op : Op) (quiet : Quiet op) : Early op := by
  cases op <;> trivial

theorem Early.not_turning (op : Op) (early : Early op) : ¬ Turning op := by
  cases op <;> first | exact not_false | exact absurd early not_false

section Order

variable {α β : Type} {f : Py α} {op : Op} {g : op.Ans → Py α} {permitted : Op → Prop}

theorem late_of_quiet (uses : f.Uses Quiet) : f.Uses Late := uses.mono Quiet.late

theorem early_of_quiet (uses : f.Uses Quiet) : f.Uses Early := uses.mono Quiet.early

theorem ordered_of_early (uses : f.Uses Early) : f.UsesAfter Turning Late :=
  (uses.mono Early.not_turning).usesAfter

theorem ordered_of_quiet (uses : f.Uses Quiet) : f.UsesAfter Turning Late :=
  ordered_of_early (early_of_quiet uses)

theorem uses_call_bind (now : permitted op) (later : ∀ answer, (g answer).Uses permitted) :
    (call op >>= g).Uses permitted :=
  Prog.uses_bind (Prog.uses_call now) later

/-- What comes before the turn is followed by what keeps to the order. -/
theorem ordered_bind {h : α → Py β} (early : f.Uses Early)
    (later : ∀ a, (h a).UsesAfter Turning Late) : (f >>= h).UsesAfter Turning Late :=
  (early.mono Early.not_turning).usesAfter_bind later

theorem ordered_call_bind (early : Early op)
    (later : ∀ answer, (g answer).UsesAfter Turning Late) :
    (call op >>= g).UsesAfter Turning Late :=
  ordered_bind (Prog.uses_call early) later

/-- The turn itself. -/
theorem ordered_turn_bind (rest : ∀ answer, (g answer).Uses Quiet) :
    (call op >>= g).UsesAfter Turning Late := by
  apply Prog.usesAfter_bind (Prog.usesAfter_call op)
  · exact fun answer => late_of_quiet (rest answer)
  · exact fun answer => ordered_of_quiet (rest answer)

theorem ordered_withLock (l : Lock) (inner : f.UsesAfter Turning Late) :
    (withLock l f).UsesAfter Turning Late :=
  Prog.usesAfter_within not_false trivial inner

end Order

theorem quiet_check (e : DsError) : (check e).Uses Quiet := by
  unfold check
  split <;> trivial

theorem quiet_registryClear : registryClear.Uses Quiet := by
  apply Prog.uses_within trivial trivial
  apply uses_call_bind trivial
  intro ptrs
  apply Prog.uses_bind
  · exact Prog.uses_forEach (fun ptr => Prog.uses_call trivial) ptrs
  · intro _
    exact Prog.uses_call trivial

theorem quiet_registryDrop (ptr : Nat) : (registryDrop ptr).Uses Quiet := by
  apply Prog.uses_within trivial trivial
  apply uses_call_bind trivial
  intro size
  split
  · exact Prog.uses_call trivial
  · trivial

/-- The operations of `_ensure_driver`. -/
def EnsureOp : Op → Prop
  | .acquire .module => True
  | .release .module => True
  | .getDriverRefs => True
  | .setDriverRefs _ => True
  | .driverOpen => True
  | .getsignal _ => True
  | .setsignal _ _ => True
  | .setPrev _ _ => True
  | _ => False

theorem uses_installSignalHandlers : installSignalHandlers.Uses EnsureOp := by
  apply Prog.uses_forEach
  intro sig
  apply Prog.uses_tryExcept
  · apply uses_call_bind trivial
    intro cur
    split
    · trivial
    · apply uses_call_bind trivial
      intro _
      exact Prog.uses_call trivial
  · intro _
    trivial

theorem uses_ensureDriver : ensureDriver.Uses EnsureOp := by
  have count : (do
      let refs ← call .getDriverRefs
      call (.setDriverRefs (refs + 1)) : Py Unit).Uses EnsureOp := by
    apply uses_call_bind trivial
    intro _
    exact Prog.uses_call trivial
  apply Prog.uses_bind
  · apply Prog.uses_within trivial trivial
    apply uses_call_bind trivial
    intro refs
    split
    · apply uses_call_bind trivial
      intro err
      apply Prog.uses_bind
      · unfold check
        split <;> trivial
      · intro _
        exact count
    · exact count
  · intro _
    exact uses_installSignalHandlers

/-- `_ensure_driver` neither registers a buffer nor closes the driver. -/
theorem early_ensureDriver : ensureDriver.Uses Early := by
  apply uses_ensureDriver.mono
  intro op used
  cases op <;> trivial

/-- The end of `_release_driver`, where the driver is closed. -/
def closeLast : Py Unit := do
  call .pinnedClear
  registryClear
  let err ← call .driverClose
  check err

theorem late_closeLast : closeLast.Uses Late := by
  apply uses_call_bind trivial
  intro _
  apply Prog.uses_bind (late_of_quiet quiet_registryClear)
  intro _
  apply uses_call_bind trivial
  intro err
  exact late_of_quiet (quiet_check err)

theorem ordered_closeLast : closeLast.UsesAfter Turning Late := by
  apply ordered_call_bind (by trivial)
  intro _
  apply ordered_bind (early_of_quiet quiet_registryClear)
  intro _
  exact ordered_turn_bind quiet_check

/-- The part of `_release_driver` inside `with _lock`. -/
def releaseBody : Py Unit := do
  let refs ← call .getDriverRefs
  if refs = 0 then pure ()
  else
    let refs ← call .getDriverRefs
    call (.setDriverRefs (refs - 1))
    let refs ← call .getDriverRefs
    if refs = 0 then closeLast

theorem releaseDriver_eq : releaseDriver = withLock .module releaseBody := rfl

theorem late_releaseDriver : releaseDriver.Uses Late := by
  rw [releaseDriver_eq]
  apply Prog.uses_within trivial trivial
  apply uses_call_bind trivial
  intro refs
  split
  · trivial
  · apply uses_call_bind trivial
    intro _
    apply uses_call_bind trivial
    intro _
    apply uses_call_bind trivial
    intro left
    split
    · exact late_closeLast
    · trivial

theorem ordered_releaseDriver : releaseDriver.UsesAfter Turning Late := by
  rw [releaseDriver_eq]
  apply ordered_withLock
  apply ordered_call_bind (by trivial)
  intro refs
  split
  · trivial
  · apply ordered_call_bind (by trivial)
    intro _
    apply ordered_call_bind (by trivial)
    intro _
    apply ordered_call_bind (by trivial)
    intro left
    split
    · exact ordered_closeLast
    · trivial

theorem ordered_registryEnsure (ptr : Nat) (size : Option Int) :
    (registryEnsure ptr size).UsesAfter Turning Late := by
  apply ordered_withLock
  apply ordered_call_bind (by trivial)
  intro known
  split
  · trivial
  · cases size with
    | none => trivial
    | some size =>
        apply ordered_turn_bind
        intro err
        split
        · trivial
        · exact Prog.uses_call trivial

theorem quiet_closeFd (f : Nat) : (closeFd f).Uses Quiet := by
  apply uses_call_bind trivial
  intro fd
  split
  · apply uses_call_bind trivial
    intro _
    exact Prog.uses_call trivial
  · trivial

theorem ordered_fileClose (f : Nat) : (fileClose f).UsesAfter Turning Late := by
  rw [fileClose_eq]
  apply ordered_call_bind (by trivial)
  intro fh
  cases fh with
  | none => exact ordered_of_quiet (quiet_closeFd f)
  | some handle =>
      apply ordered_call_bind (by trivial)
      intro _
      apply ordered_call_bind (by trivial)
      intro _
      apply Prog.usesAfter_bind ordered_releaseDriver
      · exact fun _ => late_of_quiet (quiet_closeFd f)
      · exact fun _ => ordered_of_quiet (quiet_closeFd f)

theorem early_initOrClose (f : Nat) (fd : Int) : (initOrClose f fd).Uses Early := by
  apply Prog.uses_tryExcept
  · apply Prog.uses_bind early_ensureDriver
    intro _
    apply uses_call_bind trivial
    intro answer
    apply Prog.uses_bind (early_of_quiet (quiet_check answer.1))
    intro _
    exact Prog.uses_call trivial
  · intro e
    apply uses_call_bind trivial
    intro _
    apply uses_call_bind trivial
    intro _
    trivial

theorem ordered_fileInit (f : Nat) (path flags : String) (useDirectIo : Option Bool)
    (mode : Nat) : (fileInit f path flags useDirectIo mode).UsesAfter Turning Late := by
  apply ordered_of_early
  unfold fileInit
  split
  · trivial
  · apply uses_call_bind trivial
    intro _
    apply uses_call_bind trivial
    intro fd
    apply uses_call_bind trivial
    intro _
    exact early_initOrClose f fd

/-- Nothing turns once the buffer of a read or a write is registered. -/
theorem ordered_submitNative (f : Nat) (isWrite : Bool) (buf : BufferView)
    (fileOffset devOffset size : Int) :
    (submitNative f isWrite buf fileOffset devOffset size).UsesAfter Turning Late := by
  have transfers : (do
      let fh ← call (.getFh f)
      let ret ← call (.transfer isWrite fh buf.ptr size fileOffset devOffset)
      ioResult ret : Py Int).Uses Quiet := by
    apply uses_call_bind trivial
    intro fh
    apply uses_call_bind trivial
    intro ret
    unfold ioResult
    split <;> trivial
  apply Prog.usesAfter_bind (ordered_registryEnsure buf.ptr buf.nbytes)
  · exact fun _ => late_of_quiet transfers
  · exact fun _ => ordered_of_quiet transfers

theorem ordered_fileSubmit (f : Nat) (isWrite : Bool) (buf : BufferView) (size : Option Int)
    (fileOffset devOffset : Int) :
    (fileSubmit f isWrite buf size fileOffset devOffset).UsesAfter Turning Late := by
  have native := ordered_submitNative f isWrite buf fileOffset devOffset
  cases size with
  | some size => exact native size
  | none =>
      cases extent : buf.nbytes with
      | some nbytes =>
          have ordered := native (nbytes - devOffset)
          simp only [submitNative, extent] at ordered
          simp only [fileSubmit, extent]
          exact ordered
      | none =>
          simp only [fileSubmit, extent]
          trivial

theorem ordered_cleanup : cleanup.UsesAfter Turning Late := by
  have closes : cleanupDriver.UsesAfter Turning Late := by
    apply ordered_withLock
    apply ordered_call_bind (by trivial)
    intro refs
    split
    · apply ordered_call_bind (by trivial)
      intro _
      apply ordered_bind (early_of_quiet quiet_registryClear)
      intro _
      apply ordered_turn_bind
      intro _
      exact Prog.uses_call trivial
    · trivial
  have ends : (call (.setCleaning false)).Uses Quiet := Prog.uses_call trivial
  apply ordered_call_bind (by trivial)
  intro cleaning
  split
  · trivial
  · apply ordered_call_bind (by trivial)
    intro _
    apply Prog.usesAfter_followed closes
    · intro _
      exact Prog.uses_bind (late_of_quiet ends) fun _ => trivial
    · intro _
      exact ordered_bind (early_of_quiet ends) fun _ => trivial

/-- The sections that turn. -/
def Section.Turning : Section → Prop
  | .registryEnsure _ _ => True
  | .releaseDriver => True
  | _ => False

/-- The sections that may follow. -/
def Section.Late : Section → Prop
  | .registryEnsure _ _ => False
  | .ensureDriver => False
  | _ => True

theorem quiet_section {c : Section} (straight : ¬ c.Turning) (late : c.Late) :
    c.body.Uses Quiet := by
  cases c with
  | testPinned ptr => exact Prog.uses_within trivial trivial (Prog.uses_call trivial)
  | ensureDriver => exact late.elim
  | registryEnsure ptr size => exact late.elim
  | addPinned ptr first => exact Prog.uses_within trivial trivial (Prog.uses_call trivial)
  | discardPinned ptr =>
      apply Prog.uses_within trivial trivial
      apply uses_call_bind trivial
      intro _
      apply uses_call_bind trivial
      intro _
      trivial
  | registryDrop ptr => exact quiet_registryDrop ptr
  | releaseDriver => exact absurd trivial straight

theorem early_section {c : Section} (straight : ¬ c.Turning) : c.body.Uses Early := by
  cases c with
  | ensureDriver => exact early_ensureDriver
  | registryEnsure ptr size => exact absurd trivial straight
  | _ => exact early_of_quiet (quiet_section straight trivial)

theorem late_section {c : Section} (late : c.Late) : c.body.Uses Late := by
  cases c with
  | releaseDriver => exact late_releaseDriver
  | registryEnsure ptr size => exact late.elim
  | _ => exact late_of_quiet (quiet_section not_false late)

theorem ordered_section (c : Section) : c.body.UsesAfter Turning Late := by
  cases c with
  | registryEnsure ptr size => exact ordered_registryEnsure ptr size
  | releaseDriver => exact ordered_releaseDriver
  | _ => exact ordered_of_early (early_section not_false)

/-- A function over sections keeps to the order if its sections do. -/
theorem ordered_expand {α : Type} {f : Sections α}
    (uses : f.UsesAfter Section.Turning Section.Late) :
    (f.expand Section.body).UsesAfter Turning Late := by
  apply uses.expand ordered_section
  · intro c straight
    exact (early_section straight).mono Early.not_turning
  · intro c late
    exact late_section late

/-- A section that does not turn, and what follows. -/
theorem ordered_perform_bind {α : Type} {c : Section} {f : c.Ans → Sections α}
    (straight : ¬ c.Turning) (later : ∀ answer, (f answer).UsesAfter Section.Turning Section.Late) :
    (perform c >>= f).UsesAfter Section.Turning Section.Late := by
  have before : (perform c).Uses fun c => ¬ c.Turning := Prog.uses_call straight
  exact before.usesAfter_bind later

/-- The handler of `register_buffer` may release the driver, and opens nothing. -/
theorem ordered_registerFrom (ptr : Nat) (size : Int) (first : Bool) :
    (registerFrom ptr size first).UsesAfter Section.Turning Section.Late := by
  have ends : (perform (.addPinned ptr first)).Uses Section.Late := Prog.uses_call trivial
  apply Prog.usesAfter_bind
  · apply Prog.usesAfter_tryExcept (Prog.usesAfter_call _)
    · intro e
      cases first with
      | false => trivial
      | true => exact ⟨trivial, fun answer => by cases answer <;> trivial⟩
    · intro e
      cases first with
      | false => trivial
      | true => exact fun answer => ⟨fun _ => by cases answer <;> trivial, by cases answer <;> trivial⟩
  · exact fun _ => ends
  · exact fun _ => Prog.usesAfter_call _

theorem ordered_registerBuffer (buf : BufferView) (size : Option Int) :
    ((registerBuffer buf size).expand Section.body).UsesAfter Turning Late := by
  have sections : ∀ size,
      (registerSections buf.ptr size).UsesAfter Section.Turning Section.Late := by
    intro size
    rw [registerSections_eq]
    apply ordered_perform_bind (by exact not_false)
    intro pinned
    cases pinned with
    | false => exact ordered_perform_bind (by exact not_false) fun _ => ordered_registerFrom buf.ptr size true
    | true => exact ordered_registerFrom buf.ptr size false
  apply ordered_expand
  unfold registerBuffer
  split
  · exact sections _
  · exact sections _
  · trivial

theorem ordered_deregisterBuffer (buf : BufferView) :
    ((deregisterBuffer buf).expand Section.body).UsesAfter Turning Late := by
  apply ordered_expand
  apply ordered_perform_bind (by exact not_false)
  intro pinned
  apply ordered_perform_bind (by exact not_false)
  intro _
  split
  · exact Prog.usesAfter_call _
  · trivial

/-- **No call opens the driver or registers a second buffer after it has registered a buffer
or closed the driver.** -/
theorem ordered_call (c : Call) : c.program.UsesAfter Turning Late := by
  cases c with
  | fileInit f path flags useDirectIo mode => exact ordered_fileInit f path flags useDirectIo mode
  | fileSubmit f isWrite buf size fileOffset devOffset =>
      apply Prog.usesAfter_bind (ordered_fileSubmit f isWrite buf size fileOffset devOffset)
      · exact fun _ => trivial
      · exact fun _ => trivial
  | fileClose f => exact ordered_fileClose f
  | registerBuffer buf size => exact ordered_registerBuffer buf size
  | deregisterBuffer buf => exact ordered_deregisterBuffer buf
  | cleanup => exact ordered_cleanup

end OpenDS.Python
