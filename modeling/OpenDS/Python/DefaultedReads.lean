import OpenDS.Aisio.ReadTargets
import OpenDS.Python.File
import OpenDS.Ref.AsyncSubmit

/-!
# Reads without a size

Without a size `OpenDSFile.read` asks for the part of the buffer past `dev_offset`, and
computes its length as a Python integer. `ctypes` hands the length on as a `size_t` and the
offsets as a `long`, each modulo `2 ^ 64`, so an offset past the end of the buffer becomes a
size near `2 ^ 64`, and nothing below compares the two with the extent of the buffer.

A backend writes inside the range that it is given (`Backend.outside`). The range lies in
the buffer if and only if the offset does (`defaultedRead_inside_iff`).
-/

set_option autoImplicit false

namespace OpenDS.Python

open OpenDS.Library OpenDS.Ref
open OpenDS.Aisio hiding ReadState Answer Submission

/-! ## The synchronous read of a backend -/

/-- The conversion of a Python integer to a `c_long`. -/
def cLong (x : Int) : Int := Int.bmod x (2 ^ 64)

/-- The arguments of `opends_sync_read`. `none` and 0 are null pointers. -/
structure SyncRequest where
  fh : Option Nat
  bufBase : Nat
  size : Nat
  fileOffset : Int
  bufOffset : Int

/-- `opends_sync_read`, with the driver open or not, on the bytes of the process by their
addresses. `none` is a read that is not finished. -/
abbrev SyncRead : Type :=
  Bool → SyncRequest → (Int → UInt8) → Option (Int × (Int → UInt8))

/-- `opends_sync_read` of the reference backend: `ref_async_submit` has run the request when
it returns. The kernel refuses a negative file offset, which is one of its answers. -/
def refSyncRead (h : RefHandle) (file : Common.File) (garbage : Nat → UInt8)
    (answers : List Common.Answer) : SyncRead :=
  fun driverOpen r mem =>
    let c : Submission :=
      ⟨false, r.fh.map fun _ => h, r.bufBase, r.size, u64 r.fileOffset, r.bufOffset, true⟩
    match refAsyncSubmit driverOpen c garbage answers ⟨file, fun k => mem k⟩ with
    | .error .driverNotInitialized => some (-opendsDriverNotInitialized, mem)
    | .error .invalidValue => some (-OpError.invalidValue.code, mem)
    | .ok result => result.map fun out =>
        (out.2, fun a => if 0 ≤ a then out.1.mem a.toNat else mem a)

/-- The operation that `submit_async_op` publishes. Its slot may have a bounce buffer from
an earlier operation. -/
def SyncRequest.published (r : SyncRequest) (bounceBuf : Option Nat) (staging : Nat → Int → UInt8)
    (mem : Int → UInt8) : Aisio.ReadState where
  op :=
    { mode := .async, state := .pending, bufBase := r.bufBase, size := r.size
      fileOffset := r.fileOffset, bufOffset := r.bufOffset, chunksRemaining := 0
      bouncesOutstanding := 0, bytesAcc := 0, err := none, bounces := [], bounceBuf := bounceBuf
      result := none }
  issued := []
  inflight := []
  mem
    | .user => mem
    | .bounce b => staging b
  desc := ⟨⟨.user, 0⟩, ⟨.user, 0⟩, 0⟩

/-- `opends_sync_read` of the aisio backend: the request is published, and awaited while a
worker serves it. -/
def aisioSyncRead (d : Driver) (workersReady : Bool) (disk : Nat → Nat → UInt8)
    (bounceBuf : Option Nat) (staging : Nat → Int → UInt8) (answers : List Aisio.Answer) : SyncRead :=
  fun driverOpen r mem =>
    if driverOpen = false then some (-opendsDriverNotInitialized, mem)
    else if r.fh = none ∨ r.bufBase = 0 then some (-OpError.invalidValue.code, mem)
    else if workersReady = false then some (-OpError.deviceDriverError.code, mem)
    else
      ((readAlone d disk).run answers ⟨r.published bounceBuf staging mem, none⟩).bind fun t =>
        t.st.op.result.map fun n => (n, t.st.mem .user)

/-- The two backends, on any file and with any answers of the kernel and the device. -/
inductive Backend : SyncRead → Prop where
  | ref (h : RefHandle) (file : Common.File) (garbage : Nat → UInt8)
      (answers : List Common.Answer) : Backend (refSyncRead h file garbage answers)
  | aisio (d : Driver) (power : d.lbaSize = 2 ^ d.lbaShift) (workersReady : Bool)
      (disk : Nat → Nat → UInt8) (bounceBuf : Option Nat) (staging : Nat → Int → UInt8)
      (answers : List Aisio.Answer) :
      Backend (aisioSyncRead d workersReady disk bounceBuf staging answers)

/-- One operation of the module over a backend. `ctypes` converts the arguments of a read. -/
def execRead (env : Env) (read : SyncRead) (op : Op) (p : ModuleState × (Int → UInt8)) :
    Option (Except PyError op.Ans × ModuleState × (Int → UInt8)) :=
  match op with
  | .transfer false fh ptr size fileOffset devOffset =>
    (read p.1.driverOpen ⟨fh, ptr, u64 size, cLong fileOffset, cLong devOffset⟩ p.2).map fun r =>
      (.ok r.1, p.1, r.2)
  | op => (exec env op p.1).map fun r => (r.1, r.2, p.2)

/-- **A read without a size raises or writes inside the buffer**, whatever the file and the
state of the module. -/
def StaysInside (base : Nat) (nbytes devOffset : Int) : Prop :=
  ∀ (env : Env) (read : SyncRead), Backend read → ∀ (f : Nat) (fileOffset : Int), 0 ≤ fileOffset →
    ∀ (s : ModuleState) (mem : Int → UInt8) r,
      (fileSubmit f false ⟨base, some nbytes⟩ none fileOffset devOffset).run (execRead env read)
          (s, mem) = some r →
        (∃ e, r.1 = .error e) ∨ ∀ a : Int, ¬ (base ≤ a ∧ a < base + nbytes) → r.2.2 a = mem a

/-! ## What a backend writes -/

section Backend

variable {read : SyncRead} {driverOpen : Bool} {r : SyncRequest} {mem : Int → UInt8}
  {out : Int × (Int → UInt8)}

theorem refSyncRead_outside {h : RefHandle} {file : Common.File} {garbage : Nat → UInt8}
    {answers : List Common.Answer} (ran : refSyncRead h file garbage answers driverOpen r mem = some out)
    (address : 0 ≤ r.bufBase + r.bufOffset) {a : Int}
    (outside : ¬ (r.bufBase + r.bufOffset ≤ a ∧ a < r.bufBase + r.bufOffset + r.size)) :
    out.2 a = mem a := by
  unfold refSyncRead at ran
  dsimp only at ran
  split at ran
  · cases ran
    rfl
  · cases ran
    rfl
  · rename_i result submitted
    obtain ⟨out', finished, same⟩ := Option.map_eq_some_iff.mp ran
    subst same finished
    dsimp only
    by_cases low : 0 ≤ a
    · rw [if_pos low]
      refine (refAsyncSubmit_outside rfl submitted fun inside => outside ?_).trans ?_
      · simp only [Submission.pointer] at inside
        omega
      · exact congrArg mem (Int.toNat_of_nonneg low)
    · exact if_neg low

/-- What holds of the read of a worker, as far as an address outside its range goes. -/
structure Sparing (d : Driver) (r : SyncRequest) (mem : Int → UInt8) (a : Int) (t : ReadTask) :
    Prop where
  inv : TaskInv d t
  async : t.st.op.mode = .async
  span : t.st.op.span = ⟨u64 r.fileOffset, u64 r.fileOffset + r.size, ⟨.user, r.bufBase + r.bufOffset⟩⟩
  same : t.st.mem .user a = mem a

theorem Sparing.start (d : Driver) (r : SyncRequest) (bounceBuf : Option Nat)
    (staging : Nat → Int → UInt8) (mem : Int → UInt8) (a : Int) :
    Sparing d r mem a ⟨r.published bounceBuf staging mem, none⟩ := by
  refine ⟨⟨fun _ => ⟨rfl, rfl⟩, fun active => absurd rfl active, ?_, ?_, ?_, ?_, ?_⟩, rfl, rfl, rfl⟩
  · exact fun place member => absurd member List.not_mem_nil
  · exact List.nodup_nil
  · exact fun c member => absurd member List.not_mem_nil
  · exact fun busy => absurd rfl busy
  · exact fun sub goesOn => by cases goesOn

theorem Sparing.step {d : Driver} {disk : Nat → Nat → UInt8} {a : Int} {t t' : ReadTask}
    {answer : Aisio.Answer} (power : d.lbaSize = 2 ^ d.lbaShift) (sparing : Sparing d r mem a t)
    (outside : ¬ (r.bufBase + r.bufOffset ≤ a ∧ a < r.bufBase + r.bufOffset + r.size))
    (step : (readAlone d disk).step t answer = some t') : Sparing d r mem a t' := by
  obtain ⟨inv, async, span, same⟩ := sparing
  have effect := ReadTask.step_effect step
  refine ⟨inv.step power effect, effect.mode_eq.trans async,
    (effect.span_of_async async).trans span, ?_⟩
  refine (effect.spares inv (fun _ p n holds covers => outside ?_) fun b _ => by simp).trans same
  obtain ⟨-, low, high⟩ := holds
  obtain ⟨-, above, below⟩ := covers
  rw [span] at low high
  simp only at low high
  omega

theorem aisioSyncRead_outside {d : Driver} {workersReady : Bool} {disk : Nat → Nat → UInt8}
    {bounceBuf : Option Nat} {staging : Nat → Int → UInt8} {answers : List Aisio.Answer}
    (power : d.lbaSize = 2 ^ d.lbaShift)
    (ran : aisioSyncRead d workersReady disk bounceBuf staging answers driverOpen r mem = some out)
    {a : Int} (outside : ¬ (r.bufBase + r.bufOffset ≤ a ∧ a < r.bufBase + r.bufOffset + r.size)) :
    out.2 a = mem a := by
  unfold aisioSyncRead at ran
  split at ran
  · cases ran
    rfl
  split at ran
  · cases ran
    rfl
  split at ran
  · cases ran
    rfl
  obtain ⟨t, served, result⟩ := Option.bind_eq_some_iff.mp ran
  obtain ⟨n, -, same⟩ := Option.map_eq_some_iff.mp result
  subst same
  have sparing : Sparing d r mem a t :=
    (readAlone d disk).run_invariant_of_step
      (fun _ _ _ sparing step => sparing.step power outside step)
      (.start d r bounceBuf staging mem a) served
  exact sparing.same

/-- **A backend writes inside the range that it is given.** -/
theorem Backend.outside (backend : Backend read) (ran : read driverOpen r mem = some out)
    (address : 0 ≤ r.bufBase + r.bufOffset) {a : Int}
    (outside : ¬ (r.bufBase + r.bufOffset ≤ a ∧ a < r.bufBase + r.bufOffset + r.size)) :
    out.2 a = mem a := by
  cases backend with
  | ref h file garbage answers => exact refSyncRead_outside ran address outside
  | aisio d power workersReady disk bounceBuf staging answers =>
      exact aisioSyncRead_outside power ran outside

/-- A backend writes nothing through a null pointer. -/
theorem Backend.null (backend : Backend read) (ran : read driverOpen r mem = some out)
    (null : r.bufBase = 0) : out.2 = mem := by
  cases backend with
  | ref h file garbage answers =>
      have refused : ∀ c : Submission, c.bufBase = 0 → ∀ s,
          (∃ e, refAsyncSubmit driverOpen c garbage answers s = .error e) := by
        intro c none s
        unfold refAsyncSubmit
        split
        · exact ⟨_, rfl⟩
        split
        · exact ⟨_, rfl⟩
        · exact ⟨_, if_pos (.inl none)⟩
      unfold refSyncRead at ran
      dsimp only at ran
      split at ran
      · cases ran
        rfl
      · cases ran
        rfl
      · rename_i result submitted
        obtain ⟨e, error⟩ := refused
          ⟨false, r.fh.map fun _ => h, r.bufBase, r.size, u64 r.fileOffset, r.bufOffset, true⟩ null _
        rw [error] at submitted
        cases submitted
  | aisio d power workersReady disk bounceBuf staging answers =>
      unfold aisioSyncRead at ran
      split at ran
      · cases ran
        rfl
      · rw [if_pos (.inr null)] at ran
        cases ran
        rfl

end Backend

/-! ## The read of the module -/

/-- The operations of a read: its transfer, and others. -/
def Reading (base : Nat) (size devOffset : Int) : Op → Prop
  | .transfer isWrite _ ptr n _ offset =>
    isWrite = false ∧ ptr = base ∧ n = size ∧ offset = devOffset
  | _ => True

theorem uses_registry {base : Nat} {size devOffset : Int} (ptr : Nat) (extent : Option Int) :
    (registryEnsure ptr extent).Uses (Reading base size devOffset) := by
  refine Prog.uses_within trivial trivial (Prog.uses_bind (Prog.uses_call trivial) fun cached => ?_)
  cases cached with
  | true => trivial
  | false =>
      cases extent with
      | none => trivial
      | some extent =>
          refine Prog.uses_bind (Prog.uses_call trivial) fun err => ?_
          split
          · trivial
          · exact Prog.uses_call trivial

/-- A read without a size of a buffer with an extent. -/
theorem fileSubmit_defaulted (f base : Nat) (nbytes fileOffset devOffset : Int) :
    fileSubmit f false ⟨base, some nbytes⟩ none fileOffset devOffset = (do
      registryEnsure base (some nbytes)
      let fh ← call (.getFh f)
      let ret ← call (.transfer false fh base (nbytes - devOffset) fileOffset devOffset)
      ioResult ret) := rfl

theorem uses_defaulted (f base : Nat) (nbytes fileOffset devOffset : Int) :
    (fileSubmit f false ⟨base, some nbytes⟩ none fileOffset devOffset).Uses
      (Reading base (nbytes - devOffset) devOffset) := by
  rw [fileSubmit_defaulted]
  refine Prog.uses_bind (uses_registry base _) fun _ => ?_
  refine Prog.uses_bind (Prog.uses_call trivial) fun fh => ?_
  refine Prog.uses_bind (Prog.uses_call ⟨rfl, rfl, rfl, rfl⟩) fun ret => ?_
  unfold ioResult
  split <;> trivial

/-- A step of the module moves bytes if it is a read of the backend. -/
theorem execRead_mem {env : Env} {read : SyncRead} {op : Op} {p : ModuleState × (Int → UInt8)}
    {r : Except PyError op.Ans × ModuleState × (Int → UInt8)} (step : execRead env read op p = some r) :
    r.2.2 = p.2 ∨ ∃ fh ptr size fileOffset devOffset n,
      op = .transfer false fh ptr size fileOffset devOffset ∧
        read p.1.driverOpen ⟨fh, ptr, u64 size, cLong fileOffset, cLong devOffset⟩ p.2 =
          some (n, r.2.2) := by
  unfold execRead at step
  split at step
  · rename_i fh ptr size fileOffset devOffset
    obtain ⟨out, ran, same⟩ := Option.map_eq_some_iff.mp step
    subst same
    exact .inr ⟨fh, ptr, size, fileOffset, devOffset, out.1, rfl, ran⟩
  · obtain ⟨out, -, same⟩ := Option.map_eq_some_iff.mp step
    subst same
    exact .inl rfl

/-! ## Inside the buffer -/

variable {base : Nat} {nbytes devOffset : Int}

/-- **An offset in the buffer keeps the read in it.** -/
theorem staysInside_of_le (extent : 0 ≤ nbytes ∧ nbytes < 2 ^ 63)
    (within : base = 0 ∨ u64 devOffset ≤ nbytes) : StaysInside base nbytes devOffset := by
  intro env read backend f fileOffset _ s mem r ran
  refine .inr fun a outside => ?_
  have keeps : ∀ (op : Op) (p : ModuleState × (Int → UInt8))
      (r : Except PyError op.Ans × ModuleState × (Int → UInt8)),
      Reading base (nbytes - devOffset) devOffset op → p.2 a = mem a →
        execRead env read op p = some r → r.2.2 a = mem a := by
    intro op p r reading same step
    rcases execRead_mem step with still | ⟨fh, ptr, size, fileOffset, offset, n, rfl, ran⟩
    · rw [still]
      exact same
    · obtain ⟨-, rfl, rfl, rfl⟩ := reading
      refine Eq.trans ?_ same
      rcases within with null | within
      · exact congrFun (backend.null ran null) a
      · -- The size and the offset are what they were in Python, up to a multiple of `2 ^ 64`.
        have offsetEq : cLong offset = u64 offset := by
          unfold cLong
          rw [Int.bmod_def]
          unfold u64 at within ⊢
          omega
        have sizeEq : (u64 (nbytes - offset) : Int) = nbytes - u64 offset := by
          unfold u64 at within ⊢
          omega
        refine backend.outside ran ?_ ?_ <;> dsimp only <;> omega
  exact (uses_defaulted f base nbytes fileOffset devOffset).run_keeps keeps rfl ran

/-! ## Past the buffer -/

section OneByte

variable {r : SyncRequest}

/-- The answers to the read of a file of one byte: it is read into a bounce buffer and
copied from there. -/
def oneByteRead : List Aisio.Answer :=
  [.resolved ⟨0, 0, 0⟩ fun _ => .ok [⟨0, 8, 1⟩], .enter (some 0), .attempt true, .submitted,
    .arrived 0 true, .copies fun _ => true]

/-- The aisio backend on that file. -/
def oneByteBackend : SyncRead :=
  aisioSyncRead sectorDriver true sectorDisk none (fun _ _ => 0) oneByteRead

/-- The read of the file as it stands before the copy. -/
def stagedByte (r : SyncRequest) (mem : Int → UInt8) : Aisio.ReadState :=
  let st := dispatched (r.published none (fun _ _ => 0) mem)
  let c : Command := ⟨.bounce, 8, 0, ⟨.bounce 0, 0⟩⟩
  { st with
    op := { st.op with
      bytesAcc := 1
      bounces := [⟨⟨.user, r.bufBase + r.bufOffset⟩, ⟨.bounce 0, 0⟩, 1⟩]
      bounceBuf := some 0 }
    issued := [c]
    mem := st.mem.blit c.dst (ReadState.commandBytes sectorDriver c)
      (ReadState.commandData sectorDriver (obliging sectorDisk) c) }

/-- A read of any size from the beginning of the file is a read of its byte. -/
theorem oneByte_planned (size : 0 < r.size ∧ r.size < 2 ^ 64) (start : r.fileOffset = 0)
    (mem : Int → UInt8) :
    planRead sectorDriver { obliging sectorDisk with getExtents := fun _ => .ok [⟨0, 8, 1⟩] }
        (dispatched (r.published none (fun _ _ => 0) mem)).op =
      .ok [.partialLba ⟨.user, r.bufBase + r.bufOffset⟩ 8 0 1] := by
  have least : min r.size 1 = 1 := by omega
  have fits : ¬ 18446744073709551615 < r.size := by omega
  have some : r.size ≠ 0 := by omega
  simp [planRead, dispatched, SyncRequest.published, sectorDriver, resolveExtents,
    resolveExtentsLoop, estaleRetries, planExtents, FileOp.span, u64, Extent.fileEnd, planSpan,
    planHead, planBody, start, least, fits, some]

theorem oneByte_staged (size : 0 < r.size ∧ r.size < 2 ^ 64) (start : r.fileOffset = 0)
    (mem : Int → UInt8) :
    (readAlone sectorDriver sectorDisk).run
        [.resolved ⟨0, 0, 0⟩ fun _ => .ok [⟨0, 8, 1⟩], .enter (some 0), .attempt true, .submitted,
          .arrived 0 true] ⟨r.published none (fun _ _ => 0) mem, none⟩ =
      some ⟨stagedByte r mem, none⟩ := by
  have begun : (readAlone sectorDriver sectorDisk).step ⟨r.published none (fun _ _ => 0) mem, none⟩
      (.resolved ⟨0, 0, 0⟩ fun _ => .ok [⟨0, 8, 1⟩]) =
        some ⟨dispatched (r.published none (fun _ _ => 0) mem),
          some ⟨[.partialLba ⟨.user, r.bufBase + r.bufOffset⟩ 8 0 1], false⟩⟩ := by
    simp only [readAlone, ReadTask.step]
    rw [if_pos (by exact ⟨trivial, rfl⟩)]
    change some (ReadTask.begin sectorDriver _ (r.published none (fun _ _ => 0) mem)) = _
    rw [ReadTask.begin]
    simp only [oneByte_planned size start mem]
  rw [Machine.run_cons, begun, Option.bind_some]
  set_option maxRecDepth 4000 in rfl

/-- **A read of any size moves the byte of the file**, wherever the destination is. -/
theorem oneByteBackend_read (handle : r.fh ≠ none) (base : r.bufBase ≠ 0)
    (size : 0 < r.size ∧ r.size < 2 ^ 64) (start : r.fileOffset = 0) (mem : Int → UInt8) :
    ∃ mem', oneByteBackend true r mem = some (1, mem') ∧ mem' (r.bufBase + r.bufOffset) = 8 := by
  have staged := oneByte_staged size start mem
  generalize filled : stagedByte r mem = st at staged
  have ready : st.op.state = .inFlight ∧ st.op.chunksRemaining = 0 ∧ st.op.bouncesOutstanding = 0 := by
    subst filled
    exact ⟨rfl, rfl, rfl⟩
  have fields : st.op.mode = .async ∧ st.op.err = none ∧ st.op.bytesAcc = 1 ∧
      st.op.bounces = [⟨⟨.user, r.bufBase + r.bufOffset⟩, ⟨.bounce 0, 0⟩, 1⟩] := by
    subst filled
    exact ⟨rfl, rfl, rfl, rfl⟩
  obtain ⟨state, chunks, outstanding⟩ := ready
  obtain ⟨mode, err, count, slots⟩ := fields
  generalize copying : { obliging sectorDisk with copies := fun _ => true } = dev
  have copies : dev.copies 0 = true := by
    subst copying
    rfl
  have reaped : (readAlone sectorDriver sectorDisk).step ⟨st, none⟩ (.copies fun _ => true) =
      some ⟨completeReadOp dev st, none⟩ := by
    simp only [readAlone, ReadTask.step, state, chunks, outstanding, and_self, if_true, copying]
  have result : (completeReadOp dev st).op.result = some 1 := by
    simp only [completeReadOp, mode, err, count, slots, runBounceCopies, copies, Option.isNone_none,
      if_true]
    exact congrArg some (ssize_of_lt (by decide))
  have byte : (completeReadOp dev st).mem .user (r.bufBase + r.bufOffset) = 8 := by
    rw [completeReadOp_mem, if_pos ⟨mode, err⟩, slots, runBounceCopies, if_pos copies, runBounceCopies,
      Memory.copy]
    subst filled
    simp [stagedByte, Memory.blit, Memory.load, ReadState.commandBytes, ReadState.commandData,
      sectorDriver, obliging, Device.serving, sectorDisk]
  refine ⟨_, ?_, byte⟩
  have served : (readAlone sectorDriver sectorDisk).run oneByteRead
      ⟨r.published none (fun _ _ => 0) mem, none⟩ = some ⟨completeReadOp dev st, none⟩ :=
    Machine.run_snoc staged reaped
  unfold oneByteBackend aisioSyncRead
  rw [if_neg (by simp), if_neg (by simp [handle, base]), if_neg (by simp), served, Option.bind_some,
    result]
  rfl

end OneByte

/-- The module with a file open. -/
def readable : ModuleState :=
  { ModuleState.initial fun _ => .sigDfl with
    driverOpen := true
    driverRefs := 1
    handlers := fun _ => .signalCleanup
    prevHandlers := fun _ => some .sigDfl
    files := Function.update (fun _ => ⟨none, -1⟩) 0 ⟨some 0, 3⟩ }

/-- The read goes through if the backend moves bytes. -/
theorem fileSubmit_readable {read : SyncRead} {mem mem' : Int → UInt8}
    {fileOffset n : Int} (through : 0 ≤ n)
    (moved : read true ⟨some 0, base, u64 (nbytes - devOffset), cLong fileOffset, cLong devOffset⟩ mem =
      some (n, mem')) :
    ∃ s', (fileSubmit 0 false ⟨base, some nbytes⟩ none fileOffset devOffset).run (execRead granted read)
      (readable, mem) = some (.ok n, s', mem') := by
  refine ⟨{ readable with regs := [(base, nbytes)] }, ?_⟩
  have registered : (registryEnsure base (some nbytes)).run (execRead granted read) (readable, mem) =
      some (.ok (), { readable with regs := [(base, nbytes)] }, mem) := rfl
  have transferred : (call (.transfer false (some 0) base (nbytes - devOffset) fileOffset devOffset)).run
      (execRead granted read) ({ readable with regs := [(base, nbytes)] }, mem) =
        some (.ok n, { readable with regs := [(base, nbytes)] }, mem') := by
    rw [Prog.run_call]
    simp only [execRead]
    change Option.map _ (read true _ mem) = _
    rw [moved]
    rfl
  rw [fileSubmit_defaulted, Prog.run_bind_ok registered, Prog.run_bind_ok (a := some 0) rfl,
    Prog.run_bind_ok transferred, ioResult, if_neg (by omega)]
  rfl

/-- **An offset past the end of the buffer takes the read out of it.** -/
theorem not_staysInside_of_lt (extent : 0 ≤ nbytes ∧ nbytes < 2 ^ 63) (address : base ≠ 0)
    (past : nbytes < u64 devOffset) : ¬ StaysInside base nbytes devOffset := by
  intro inside
  have size : 0 < u64 (nbytes - devOffset) := by
    unfold u64 at past ⊢
    omega
  obtain ⟨mem', moved, byte⟩ := oneByteBackend_read
    (r := ⟨some 0, base, u64 (nbytes - devOffset), cLong 0, cLong devOffset⟩) (Option.some_ne_none 0)
    address ⟨size, u64_lt _⟩ rfl fun _ => 0
  obtain ⟨s', ran⟩ := fileSubmit_readable (by decide) moved
  have backend : Backend oneByteBackend := .aisio sectorDriver (by decide) true sectorDisk none _ _
  rcases inside granted oneByteBackend backend 0 0 (Int.le_refl 0) readable (fun _ => 0) _ ran with
    ⟨e, raised⟩ | kept
  · cases raised
  · -- The offset is a `long` past the end of the buffer or below its base.
    have outside : ¬ ((base : Int) ≤ base + cLong devOffset ∧ base + cLong devOffset < base + nbytes) := by
      unfold cLong
      rw [Int.bmod_def]
      unfold u64 at past
      omega
    exact absurd (byte.symm.trans (kept _ outside)) (by decide)

/-- **A read without a size stays inside the buffer if and only if the offset does**, modulo
`2 ^ 64`. A null buffer is refused by both backends. -/
theorem defaultedRead_inside_iff (extent : 0 ≤ nbytes ∧ nbytes < 2 ^ 63) :
    StaysInside base nbytes devOffset ↔ base = 0 ∨ u64 devOffset ≤ nbytes := by
  constructor
  · intro inside
    by_contra! outside
    exact not_staysInside_of_lt extent outside.1 outside.2 inside
  · exact staysInside_of_le extent

/-- The read past the first block of a buffer of two blocks. -/
theorem defaultedRead_inside_second_block : StaysInside 0x10000 8192 4096 :=
  (defaultedRead_inside_iff (by decide)).mpr (.inr (by decide))

/-- An offset one block past the end of a buffer of one block. -/
theorem larger_offset_leaves_buffer : ¬ StaysInside 0x10000 4096 8192 :=
  not_staysInside_of_lt (by decide) (by decide) (by decide)

end OpenDS.Python
