import OpenDS.Common.CallOutcomes
import OpenDS.Library.LastWrites
import OpenDS.Ref.Registry

/-!
# The reference backend as a store

The synchronous calls submit an asynchronous request and await it in place
(`opends_sync_async.c`), and the stream calls of `opends_ref.c` are synchronous calls that
report through pointers.

A program that calls them, in any order and with any answers of the kernel, knows some bytes
of the file: those that its writes have reported. `reads_last_written` says that every read
bears this out, and `written_range_read_back` that a range that was written, and left alone
since, is read back.

The handles are not opened with `O_APPEND`, whose writes go elsewhere.
-/

set_option autoImplicit false

namespace OpenDS.Ref

open OpenDS.Common OpenDS.Library

/-! ## The calls -/

/-- The arguments of a synchronous call. -/
structure Transfer where
  fh : Option RefHandle
  bufBase : Nat
  size : Nat
  fileOffset : Nat
  bufOffset : Int
  deriving DecidableEq, Repr

/-- The request of a call whose future is there or is a null pointer. -/
def Transfer.submission (t : Transfer) (isWrite future : Bool) : Submission :=
  ⟨isWrite, t.fh, t.bufBase, t.size, t.fileOffset, t.bufOffset, future⟩

/-- `(char *)buf_base + buf_offset`. -/
def Transfer.pointer (t : Transfer) : Nat := (t.submission false true).pointer

/-- What the kernel and `posix_memalign` answer to a request. -/
structure Kernel where
  garbage : Nat → UInt8
  answers : List Answer

/-- `opends_async_future_t`. -/
structure Future where
  result : Int
  done : Bool

/-- The value of the enumerator. -/
def SubmitError.code : SubmitError → Int
  | .driverNotInitialized => 5001
  | .invalidValue => 5022

/-- `opends_async_await`. It spins on a request that is not done. -/
def opendsAsyncAwait (future : Option Future) : Option Int :=
  match future with
  | none => some (-OpError.invalidValue.code)
  | some f => if f.done then some f.result else none

/-- `opends_async_read` and `opends_async_write`: the error that they report, or the future,
once the request has been run. -/
def opendsAsync (isWrite driverOpen : Bool) (t : Transfer) (future : Bool) (k : Kernel)
    (s : World) : Except SubmitError (Option (World × Future)) :=
  match refAsyncSubmit driverOpen (t.submission isWrite future) k.garbage k.answers s with
  | .error e => .error e
  | .ok ran => .ok (ran.map fun out => (out.1, ⟨out.2, true⟩))

/-- `opends_sync_read` and `opends_sync_write`, once they have returned. -/
def opendsSync (isWrite driverOpen : Bool) (t : Transfer) (k : Kernel) (s : World) :
    Option (World × Int) :=
  match opendsAsync isWrite driverOpen t true k s with
  | .error e => some (s, -e.code)
  | .ok ran => ran.bind fun out => (opendsAsyncAwait (some out.2)).map fun ret => (out.1, ret)

/-- `opends_stream_read` and `opends_stream_write`: what is left in `*bytes_read_p` or
`*bytes_written_p`, and the status. -/
def opendsStream (isWrite driverOpen : Bool) (t : Transfer) (k : Kernel) (s : World) :
    Option (World × Int × Except RefError Unit) :=
  (opendsSync isWrite driverOpen t k s).map fun out =>
    (out.1, out.2, if out.2 < 0 then .error .internalError else .ok ())

/-! ## Sessions -/

/-- The backend, its file and the memory of the process. -/
structure Session where
  statics : Statics
  world : World

/-- What a program does next: it calls the backend, or it writes to its memory. -/
inductive SessionStep where
  | call (c : RefCall)
  | memory (mem : Nat → UInt8)
  | sync (isWrite : Bool) (t : Transfer) (k : Kernel)
  | stream (isWrite : Bool) (t : Transfer) (k : Kernel)

/-- The transfer of a step, if it is one. -/
def SessionStep.transfer : SessionStep → Option (Bool × Transfer × Kernel)
  | .sync isWrite t k => some (isWrite, t, k)
  | .stream isWrite t k => some (isWrite, t, k)
  | _ => none

/-- A session, one call after the other. A transfer is one step, from its call to its
return. -/
def session : Machine Session SessionStep where
  step s l := match l with
    | .call c => some { s with statics := c.perform s.statics }
    | .memory mem => some { s with world := { s.world with mem := mem } }
    | .sync isWrite t k =>
      (opendsSync isWrite s.statics.driverOpen t k s.world).map fun out => { s with world := out.1 }
    | .stream isWrite t k =>
      (opendsStream isWrite s.statics.driverOpen t k s.world).map fun out =>
        { s with world := out.1 }

/-- What is known of the file after a step. -/
def SessionStep.learn (s : Session) (known : LastWrites UInt8) (l : SessionStep) :
    LastWrites UInt8 :=
  match l.transfer with
  | some (true, t, k) =>
    match opendsSync true s.statics.driverOpen t k s.world with
    | some out => known.reported t.fileOffset t.size out.2 fun i => s.world.mem (t.pointer + i)
    | none => known
  | _ => known

/-- A session, with what its program knows of the file. -/
def observed : Machine (Session × LastWrites UInt8) SessionStep where
  step o l := (session.step o.1 l).map fun s' => (s', l.learn o.1 o.2)

/-! ## One request -/

variable {driverOpen : Bool} {t : Transfer} {k : Kernel} {s s' : World} {ret : Int}

/-- The offsets of a transfer are an `off_t`. -/
def Transfer.Fits (t : Transfer) : Prop := t.fileOffset + t.size + 4095 < 2 ^ 63

instance (t : Transfer) : Decidable t.Fits :=
  inferInstanceAs (Decidable (t.fileOffset + t.size + 4095 < 2 ^ 63))

/-- The write that a transfer through a bounce buffer is. -/
def Transfer.writeRequest (t : Transfer) (h : RefHandle) (mem : Nat → UInt8) : WriteRequest :=
  ⟨h.wronly, fun i => mem (t.pointer + i), t.size, t.fileOffset⟩

/-- The read that a transfer through a bounce buffer is. -/
def Transfer.readRequest (t : Transfer) : ReadRequest := ⟨t.pointer, t.size, t.fileOffset⟩

/-- The pointer, the size and the offset are multiples of a block. -/
def Transfer.aligned (t : Transfer) : Bool := directAligned t.pointer t.size t.fileOffset

/-- The reads of the edge blocks of a write give all there is of them. -/
def EdgesRead (t : Transfer) (k : Kernel) (s : World) : Prop :=
  ∀ h, t.fh = some h → t.aligned = false → 0 < t.size →
    (writers fun _ : Unit => t.writeRequest h s.mem).Meets
      (fun u l => FullRead (u.writes l.1) l.2) (k.answers.map fun a => ((), a))
      (inFlight (fun _ => t.writeRequest h s.mem) s.file fun _ => k.garbage)

/-- How a write ends: it has written the bytes that it reports, or it reports an error and
has changed nothing outside of its range. -/
inductive Wrote (t : Transfer) (s s' : World) : Int → Prop where
  | bytes (n : Nat) : n ≤ t.size →
      s' = { s with file := s.file.pwrite t.fileOffset n fun i => s.mem (t.pointer + i) } →
      Wrote t s s' n
  | fails (ret : Int) : ret < 0 → s'.mem = s.mem →
      (∀ p, ¬ (t.fileOffset ≤ p ∧ p < t.fileOffset + t.size) → s'.file.byte p = s.file.byte p) →
      s.file.length ≤ s'.file.length → Wrote t s s' ret

/-- How a read ends: it has delivered the bytes that it reports, or it reports an error and
has left the memory as it was. -/
inductive ReadBytes (t : Transfer) (s s' : World) : Int → Prop where
  | bytes (n : Nat) : s'.file = s.file → DeliversPrefix t.readRequest s.file s.mem s'.mem n →
      ReadBytes t s s' n
  | fails (ret : Int) : ret < 0 → s' = s → ReadBytes t s s' ret

/-- What a request that the kernel has run reports. -/
def outcome (out : World × Int) : World × Int :=
  (out.1, if out.2 < 0 then -OpError.internalError.code else out.2)

/-- What a synchronous call can be: it is refused, or it is one call of the kernel, or it
goes through a bounce buffer. -/
inductive SyncCall (isWrite : Bool) (t : Transfer) (k : Kernel) (s : World) : World × Int → Prop where
  | refused (e : SubmitError) : SyncCall isWrite t k s (s, -e.code)
  | once (h : RefHandle) (a : Answer) : t.fh = some h → t.aligned = true →
      k.answers.head? = some a →
      SyncCall isWrite t k s (outcome ((t.submission isWrite true).once a s))
  | direct (h : RefHandle) (out : World × Int) : t.fh = some h → t.aligned = false →
      (t.submission isWrite true).direct h k.garbage k.answers s = some out →
      SyncCall isWrite t k s (outcome out)

theorem SubmitError.code_pos (e : SubmitError) : 0 < e.code := by
  cases e <;> decide

/-- A call that is not refused runs its request. -/
theorem opendsSync_of_accepted (isWrite : Bool) {h : RefHandle} (handle : t.fh = some h)
    (buffer : t.bufBase ≠ 0) (k : Kernel) (s : World) :
    opendsSync isWrite true t k s =
      (if t.aligned = true then
          k.answers.head?.map fun a => (t.submission isWrite true).once a s
        else (t.submission isWrite true).direct h k.garbage k.answers s).map outcome := by
  have accepted : ¬ (t.bufBase = 0 ∨ true = false) := by
    rintro (null | absent)
    · exact buffer null
    · cases absent
  have submitted : refAsyncSubmit true (t.submission isWrite true) k.garbage k.answers s =
      .ok ((if t.aligned = true then
          k.answers.head?.map fun a => (t.submission isWrite true).once a s
        else (t.submission isWrite true).direct h k.garbage k.answers s).map outcome) := by
    unfold refAsyncSubmit
    rw [if_neg Bool.true_eq_false_eq_False]
    simp only [Transfer.submission, handle, if_neg accepted]
    rfl
  unfold opendsSync opendsAsync
  rw [submitted]
  generalize (if t.aligned = true then _ else _) = ran
  cases ran with
  | none => rfl
  | some out => rfl

/-- A call that is refused says so. -/
theorem opendsSync_of_refused (isWrite : Bool)
    (refused : driverOpen = false ∨ t.fh = none ∨ t.bufBase = 0) (k : Kernel) (s : World) :
    ∃ e : SubmitError, opendsSync isWrite driverOpen t k s = some (s, -e.code) := by
  unfold opendsSync opendsAsync refAsyncSubmit
  by_cases closed : driverOpen = false
  · exact ⟨.driverNotInitialized, by rw [if_pos closed]⟩
  · rw [if_neg closed]
    refine ⟨.invalidValue, ?_⟩
    cases handle : t.fh with
    | none => simp only [Transfer.submission, handle]
    | some h =>
        have null := (refused.resolve_left closed).resolve_left (by simp [handle])
        simp only [Transfer.submission, handle, null, true_or, if_true]

theorem opendsSync_cases {isWrite : Bool} {out : World × Int}
    (returned : opendsSync isWrite driverOpen t k s = some out) : SyncCall isWrite t k s out := by
  by_cases refused : driverOpen = false ∨ t.fh = none ∨ t.bufBase = 0
  · obtain ⟨e, refusal⟩ := opendsSync_of_refused isWrite refused k s
    rw [refusal] at returned
    cases returned
    exact .refused e
  · simp only [not_or, Bool.not_eq_false] at refused
    obtain ⟨opened, present, buffer⟩ := refused
    obtain ⟨h, handle⟩ := Option.ne_none_iff_exists'.mp present
    rw [opened, opendsSync_of_accepted isWrite handle buffer] at returned
    obtain ⟨ran, result, rfl⟩ := Option.map_eq_some_iff.mp returned
    split at result
    · rename_i aligned
      obtain ⟨a, first, rfl⟩ := Option.map_eq_some_iff.mp result
      exact .once h a handle aligned first
    · rename_i unaligned
      exact .direct h ran handle (Bool.not_eq_true _ ▸ unaligned) result

/-- The result of a request that the kernel has failed. -/
theorem internalError_neg : -OpError.internalError.code < 0 := by decide

theorem failedCall_neg : (-1 : Int) < 0 := by decide

theorem outcome_of_negative {out : World × Int} (negative : out.2 < 0) :
    outcome out = (out.1, -OpError.internalError.code) := by
  rw [outcome, if_pos negative]

theorem outcome_of_nonneg {out : World × Int} (nonneg : 0 ≤ out.2) : outcome out = out := by
  rw [outcome, if_neg (by omega)]

/-! ## Writes -/

theorem Wrote.refused (e : SubmitError) : Wrote t s s (-e.code) := by
  have positive := e.code_pos
  exact .fails _ (by omega) rfl (fun _ _ => rfl) (Nat.le_refl _)

/-- A request that reports an error reports an internal one. -/
theorem Wrote.outcome {out : World × Int} (wrote : Wrote t s out.1 out.2) :
    Wrote t s (outcome out).1 (outcome out).2 := by
  by_cases negative : out.2 < 0
  · rw [outcome_of_negative negative]
    generalize out.2 = ret at wrote negative
    cases wrote with
    | bytes n within file => omega
    | fails ret negative mem kept longer => exact .fails _ internalError_neg mem kept longer
  · rw [outcome_of_nonneg (by omega)]
    exact wrote

/-- One call of the kernel writes the bytes that it reports. -/
theorem pwriteOnce_wrote (fits : t.Fits) (a : Answer) (s : World) :
    Wrote t s (pwriteOnce t.pointer t.size t.fileOffset a s).1
      (pwriteOnce t.pointer t.size t.fileOffset a s).2 := by
  have small : t.fileOffset + t.size + 4095 < 2 ^ 63 := fits
  cases a with
  | ok n =>
      simp only [pwriteOnce]
      rw [ssize_of_lt (by omega)]
      exact .bytes _ (Nat.min_le_right _ _) rfl
  | interrupted | fails =>
      exact .fails _ failedCall_neg rfl (fun _ _ => rfl) (Nat.le_refl _)

/-- A write through a bounce buffer writes all of its range, or reports an error. -/
theorem directPwrite_wrote (fits : t.Fits) {h : RefHandle} {out : World × Int}
    (full : 0 < t.size →
      (writers fun _ : Unit => t.writeRequest h s.mem).Meets
        (fun u l => FullRead (u.writes l.1) l.2) (k.answers.map fun a => ((), a))
        (inFlight (fun _ => t.writeRequest h s.mem) s.file fun _ => k.garbage))
    (ran : directPwrite h.wronly t.pointer t.size t.fileOffset k.garbage k.answers s = some out) :
    Wrote t s out.1 out.2 := by
  obtain ⟨u, calls, returned⟩ := Option.bind_eq_some_iff.mp ran
  cases pc : (u.writes ()).pc with
  | out ret =>
      simp only [pc, Option.some.injEq] at returned
      subst returned
      by_cases none : t.size = 0
      · -- A write of nothing returns before its first call.
        have called : ((inFlight (fun _ : Unit => t.writeRequest h s.mem) s.file
            fun _ => k.garbage).writes ()).pc = .out 0 := by
          change (if t.size = 0 then WritePc.out 0 else .memalign) = .out 0
          rw [if_pos none]
        have still : u = _ := (Option.some.inj ((run_of_out called _).symm.trans calls)).symm
        rw [still, called] at pc
        cases pc
        rw [still]
        refine .bytes 0 (Nat.zero_le _) ?_
        rw [ByteFile.pwrite_zero]
        rfl
      · have requestFits : (t.writeRequest h s.mem).Fits := ⟨Nat.pos_of_ne_zero none, fits⟩
        rcases directWrite_outcome requestFits s.file k.garbage (full (Nat.pos_of_ne_zero none)) calls
          pc with ⟨count, file⟩ | ⟨negative, kept, longer⟩
        · rw [count]
          exact .bytes t.size (Nat.le_refl _) (World.ext file rfl)
        · exact .fails _ negative rfl kept longer
  | memalign | fstat | openRead | readHead | readTail | copy | pwrite | ftruncate =>
      simp only [pc] at returned
      cases returned

/-- **A synchronous write** has written what it reports, or changed nothing outside of its
range. -/
theorem opendsSync_wrote (fits : t.Fits) (edges : EdgesRead t k s)
    (returned : opendsSync true driverOpen t k s = some (s', ret)) : Wrote t s s' ret := by
  cases opendsSync_cases returned with
  | refused e => exact .refused e
  | once h a handle aligned first => exact (pwriteOnce_wrote fits a s).outcome
  | direct h out handle unaligned ran =>
      exact (directPwrite_wrote fits (edges h handle unaligned) ran).outcome

/-! ## Reads -/

theorem ReadBytes.outcome {out : World × Int} (read : ReadBytes t s out.1 out.2) :
    ReadBytes t s (outcome out).1 (outcome out).2 := by
  by_cases negative : out.2 < 0
  · rw [outcome_of_negative negative]
    generalize out.2 = ret at read negative
    cases read with
    | bytes n file delivers => omega
    | fails ret negative same => exact .fails _ internalError_neg same
  · rw [outcome_of_nonneg (by omega)]
    exact read

theorem preadOnce_read (fits : t.Fits) (a : Answer) (s : World) :
    ReadBytes t s (preadOnce t.pointer t.size t.fileOffset a s).1
      (preadOnce t.pointer t.size t.fileOffset a s).2 := by
  have small : t.fileOffset + t.size + 4095 < 2 ^ 63 := fits
  cases a with
  | ok n =>
      have bound : s.file.available t.fileOffset (min n t.size) ≤
          s.file.available t.fileOffset t.size := by
        simp only [ByteFile.available]
        omega
      have moved : s.file.available t.fileOffset (min n t.size) ≤ t.size := by
        simp only [ByteFile.available]
        omega
      simp only [preadOnce]
      rw [ssize_of_lt (by omega)]
      refine .bytes _ rfl ⟨bound, fun i low => ?_, fun p outside => if_neg outside⟩
      have inRange : t.pointer ≤ t.pointer + i ∧
          t.pointer + i < t.pointer + s.file.available t.fileOffset (min n t.size) := by omega
      refine (if_pos inRange).trans ?_
      change s.file.byte (t.fileOffset + (t.pointer + i - t.pointer)) =
        s.file.byte (t.fileOffset + i)
      rw [Nat.add_sub_cancel_left]
  | interrupted | fails => exact .fails _ failedCall_neg rfl

theorem directPread_read (fits : t.Fits) {out : World × Int}
    (ran : directPread t.pointer t.size t.fileOffset k.garbage k.answers s = some out) :
    ReadBytes t s out.1 out.2 := by
  obtain ⟨w, calls, returned⟩ := Option.bind_eq_some_iff.mp ran
  have small : t.readRequest.off + t.readRequest.size + 4095 < 2 ^ 63 := fits
  cases pc : w.pc with
  | out ret =>
      simp only [pc, Option.some.injEq] at returned
      subst returned
      rcases directRead_outcome small calls pc with ⟨n, rfl, delivers⟩ | ⟨negative, same⟩
      · exact .bytes n rfl delivers
      · exact .fails _ negative (World.ext rfl same)
  | memalign | pread =>
      simp only [pc] at returned
      cases returned

/-- **A synchronous read** has delivered what it reports, or changed nothing. -/
theorem opendsSync_read (fits : t.Fits)
    (returned : opendsSync false driverOpen t k s = some (s', ret)) : ReadBytes t s s' ret := by
  cases opendsSync_cases returned with
  | refused e =>
      have positive := e.code_pos
      exact .fails _ (by omega) rfl
  | once h a handle aligned first => exact (preadOnce_read fits a s).outcome
  | direct h out handle unaligned ran => exact (directPread_read fits ran).outcome

/-! ## Whole sessions -/

/-- The offsets of a transfer are `off_t`, and a write reads its edge blocks in full. -/
def Careful (s : Session) (l : SessionStep) : Prop :=
  ∀ isWrite t k, l.transfer = some (isWrite, t, k) →
    t.Fits ∧ (isWrite = true → EdgesRead t k s.world)

/-- A step that is a transfer does to the session what the synchronous call does. -/
theorem session_step_transfer {s : Session} {l : SessionStep} {isWrite : Bool} {t : Transfer}
    {k : Kernel} (moves : l.transfer = some (isWrite, t, k)) :
    session.step s l =
      (opendsSync isWrite s.statics.driverOpen t k s.world).map fun out =>
        { s with world := out.1 } := by
  cases l with
  | call c => cases moves
  | memory mem => cases moves
  | sync isWrite' t' k' =>
      cases moves
      rfl
  | stream isWrite' t' k' =>
      cases moves
      simp only [session, opendsStream, Option.map_map]
      rfl

/-- A step that is no transfer leaves the file alone. -/
theorem session_step_file {s s' : Session} {l : SessionStep} (stays : l.transfer = none)
    (step : session.step s l = some s') : s'.world.file = s.world.file := by
  cases l with
  | call c =>
      cases step
      rfl
  | memory mem =>
      cases step
      rfl
  | sync isWrite t k => cases stays
  | stream isWrite t k => cases stays

theorem ReadBytes.file (read : ReadBytes t s s' ret) : s'.file = s.file := by
  cases read with
  | bytes n file delivers => exact file
  | fails ret negative same => rw [same]

/-- What a write reports is right. -/
theorem Wrote.agrees {known : LastWrites UInt8} (agrees : known.Agrees s.file)
    (wrote : Wrote t s s' ret) :
    (known.reported t.fileOffset t.size ret fun i => s.mem (t.pointer + i)).Agrees s'.file := by
  cases wrote with
  | bytes n within file =>
      rw [file, LastWrites.reported, if_neg (by omega), Int.toNat_natCast]
      exact agrees.wrote _ _ _
  | fails ret negative mem kept longer =>
      rw [LastWrites.reported, if_pos negative]
      exact agrees.lost kept longer

/-- **A step of a session**: what is known stays right. -/
theorem agrees_step {o o' : Session × LastWrites UInt8} {l : SessionStep}
    (agrees : o.2.Agrees o.1.world.file) (careful : Careful o.1 l)
    (step : observed.step o l = some o') : o'.2.Agrees o'.1.world.file := by
  obtain ⟨s', stepped, rfl⟩ := Option.map_eq_some_iff.mp step
  cases moves : l.transfer with
  | none =>
      have same := session_step_file moves stepped
      simp only [SessionStep.learn, moves, same]
      exact agrees
  | some move =>
      obtain ⟨isWrite, t, k⟩ := move
      obtain ⟨fits, edges⟩ := careful isWrite t k moves
      rw [session_step_transfer moves] at stepped
      obtain ⟨⟨w, ret⟩, returned, rfl⟩ := Option.map_eq_some_iff.mp stepped
      cases isWrite with
      | true =>
          simp only [SessionStep.learn, moves, returned]
          exact (opendsSync_wrote fits (edges rfl) returned).agrees agrees
      | false =>
          have same := (opendsSync_read fits returned).file
          simp only [SessionStep.learn, moves, same]
          exact agrees

/-- What a read gives to someone who knows some bytes of the file: it reports an error and
has changed nothing, or it has delivered the bytes that it reports, and where a byte is known
it is that one. -/
inductive ReadsKnown (known : LastWrites UInt8) (t : Transfer) (s s' : World) : Int → Prop where
  | bytes (n : Nat) : n ≤ t.size →
      (∀ i b, i < n → known (t.fileOffset + i) = some b → s'.mem (t.pointer + i) = b) →
      s'.file = s.file → (∀ p, ¬ (t.pointer ≤ p ∧ p < t.pointer + n) → s'.mem p = s.mem p) →
      ReadsKnown known t s s' n
  | fails (ret : Int) : ret < 0 → s' = s → ReadsKnown known t s s' ret

theorem ReadBytes.known {known : LastWrites UInt8} (agrees : known.Agrees s.file)
    (read : ReadBytes t s s' ret) : ReadsKnown known t s s' ret := by
  cases read with
  | bytes n file delivers =>
      have bound : n ≤ s.file.available t.fileOffset t.size := delivers.within
      have small : s.file.available t.fileOffset t.size ≤ t.size := Nat.min_le_left _ _
      refine .bytes n (by omega) (fun i b low here => ?_) file delivers.outside
      rw [← agrees.byte here]
      exact delivers.range i low
  | fails ret negative same => exact .fails ret negative same

/-- **Every read gives what was last written.** In every session, with calls of all kinds in
any order, and whatever the kernel answers to them as long as it does not cut short the read
of an edge block, what the writes have reported stays right: each read that reports a count
has delivered that many bytes, and among them every byte that is known; one that reports an
error has changed nothing. -/
theorem reads_last_written {steps : List SessionStep} {o₀ o : Session × LastWrites UInt8}
    (agrees : o₀.2.Agrees o₀.1.world.file)
    (careful : observed.Meets (fun o l => Careful o.1 l) steps o₀)
    (ran : observed.run steps o₀ = some o) :
    o.2.Agrees o.1.world.file ∧ ∀ (t : Transfer) (k : Kernel) (s' : World) (ret : Int), t.Fits →
      opendsSync false o.1.statics.driverOpen t k o.1.world = some (s', ret) →
      ReadsKnown o.2 t o.1.world s' ret := by
  have kept : o.2.Agrees o.1.world.file :=
    Machine.run_invariant (fun _ _ _ agrees careful step => agrees_step agrees careful step) agrees
      careful ran
  exact ⟨kept, fun t k s' ret fits returned => (opendsSync_read fits returned).known kept⟩

/-- A write of 5 bytes at 100, from the address 4096. -/
def fiveBytes : Transfer := ⟨some ⟨false⟩, 4096, 5, 100, 0⟩

/-- A kernel that moves two blocks at once. -/
def twoBlocksAtOnce (calls : Nat) : Kernel := ⟨fun _ => 0, List.replicate calls (.ok 8192)⟩

/-- The driver is opened, and 5 bytes are written. -/
def writeFive : List SessionStep :=
  [.call (.buf .driverOpen), .stream true fiveBytes (twoBlocksAtOnce 7)]

/-- A process that has made no call, with an empty file. -/
def freshSession : Session := ⟨.initial, blankWorld⟩

theorem edgesRead_twoBlocksAtOnce (t : Transfer) (calls : Nat) (s : World) :
    EdgesRead t (twoBlocksAtOnce calls) s := by
  intro h _ _ _
  refine Machine.meets_of_labels (fun l member u => ?_) _
  obtain ⟨a, inList, rfl⟩ := List.mem_map.mp member
  obtain ⟨-, rfl⟩ := List.mem_replicate.mp inList
  intro n same reading
  cases same
  decide

theorem writeFive_careful (o : Session × LastWrites UInt8) :
    observed.Meets (fun o l => Careful o.1 l) writeFive o := by
  refine Machine.meets_of_labels (fun l member o isWrite t k moves => ?_) o
  rcases List.mem_cons.mp member with rfl | member
  · cases moves
  · cases List.mem_singleton.mp member
    cases moves
    exact ⟨by decide, fun _ => edgesRead_twoBlocksAtOnce _ _ _⟩

/-- The third byte that was written is the third byte that is read. -/
theorem reads_last_written_fiveBytes :
    ∃ o, observed.run writeFive (freshSession, .nothing) = some o ∧
      ∃ s', opendsSync false true ⟨some ⟨false⟩, 64, 5, 100, 0⟩ (twoBlocksAtOnce 3) o.1.world =
          some (s', 5) ∧ s'.mem 66 = UInt8.ofNat 4098 := by
  have computed : ((observed.run writeFive (freshSession, .nothing)).bind fun o =>
      (opendsSync false true ⟨some ⟨false⟩, 64, 5, 100, 0⟩ (twoBlocksAtOnce 3) o.1.world).map
        fun out => (out.2, o.2 102, o.1.statics.driverOpen)) =
      some (5, some (UInt8.ofNat 4098), true) := by
    decide +kernel
  obtain ⟨o, ran, read⟩ := Option.bind_eq_some_iff.mp computed
  obtain ⟨⟨s', ret⟩, returned, same⟩ := Option.map_eq_some_iff.mp read
  simp only [Prod.mk.injEq] at same
  obtain ⟨rfl, known, opened⟩ := same
  refine ⟨o, ran, s', returned, ?_⟩
  have reads := (reads_last_written (.nothing _) (writeFive_careful _) ran).2
    ⟨some ⟨false⟩, 64, 5, 100, 0⟩ (twoBlocksAtOnce 3) s' 5 (by decide)
    (by rw [opened]; exact returned)
  generalize five : (5 : Int) = count at reads
  cases reads with
  | bytes n within delivered file outside => exact delivered 2 _ (by omega) known
  | fails ret negative same => omega

/-! ## Written and read back -/

/-- The step writes nothing into the range of a transfer. -/
def LeavesAlone (t : Transfer) (l : SessionStep) : Prop :=
  ∀ other k, l.transfer = some (true, other, k) →
    other.fileOffset + other.size ≤ t.fileOffset ∨ t.fileOffset + t.size ≤ other.fileOffset

/-- The kernel answers a read so that it arrives: one call moves all of an aligned range, and
the calls for another one go through, as many as are needed. -/
def ReadArrives (t : Transfer) (k : Kernel) (s : World) : Prop :=
  if t.aligned = true then ∃ n, k.answers.head? = some (.ok n) ∧ t.size ≤ n
  else
    (reader t.readRequest s.file).Meets (ReadsThrough t.readRequest s.file) k.answers
        (t.readRequest.call k.garbage s.mem) ∧
      t.readRequest.span + 2 ≤ k.answers.countP fun a => a.isOk

/-- A read of a range that the file has reports its size. -/
theorem opendsSync_read_arrives (fits : t.Fits) {h : RefHandle} (handle : t.fh = some h)
    (buffer : t.bufBase ≠ 0) (arrives : ReadArrives t k s)
    (there : s.file.available t.fileOffset t.size = t.size) :
    ∃ s', opendsSync false true t k s = some (s', (t.size : Int)) := by
  have small : t.fileOffset + t.size + 4095 < 2 ^ 63 := fits
  rw [opendsSync_of_accepted false handle buffer]
  unfold ReadArrives at arrives
  by_cases aligned : t.aligned = true
  · rw [if_pos aligned] at arrives ⊢
    obtain ⟨n, first, enough⟩ := arrives
    have moved : s.file.available t.fileOffset (min n t.size) = t.size := by
      rw [Nat.min_eq_right enough]
      exact there
    refine ⟨(preadOnce t.pointer t.size t.fileOffset (.ok n) s).1, ?_⟩
    have count : (preadOnce t.pointer t.size t.fileOffset (.ok n) s).2 = (t.size : Int) := by
      simp only [preadOnce, moved]
      exact ssize_of_lt (by omega)
    rw [first]
    change some (outcome (preadOnce t.pointer t.size t.fileOffset (.ok n) s)) = _
    rw [outcome_of_nonneg (by omega), ← count]
  · rw [if_neg aligned] at arrives ⊢
    obtain ⟨goes, enough⟩ := arrives
    have representable : t.readRequest.off + t.readRequest.size + 4095 < 2 ^ 63 := fits
    obtain ⟨w, ran, reads, rank⟩ := Reads.run representable k.answers
      (Reads.call s.file k.garbage s.mem) goes
    have first : t.readRequest.rank (t.readRequest.call k.garbage s.mem).pc ≤
        t.readRequest.span + 2 := by
      simp only [ReadRequest.call]
      split
      · exact Nat.zero_le _
      · exact Nat.le_refl _
    have out := reads.rank_eq_zero (by omega)
    have count : t.readRequest.available s.file = t.size := there
    rw [count] at out
    refine ⟨{ s with mem := w.mem }, ?_⟩
    have direct : (t.submission false true).direct h k.garbage k.answers s =
        some ({ s with mem := w.mem }, (t.size : Int)) := by
      change directPread t.pointer t.size t.fileOffset k.garbage k.answers s = _
      unfold directPread
      refine Option.bind_eq_some_iff.mpr ⟨w, ran, ?_⟩
      rw [out]
    rw [direct, Option.map_some, outcome_of_nonneg (Int.natCast_nonneg _)]

/-- A write that leaves a range alone keeps what is known of it. -/
theorem Wrote.agrees_apart {known : LastWrites UInt8} (agrees : known.Agrees s.file)
    (wrote : Wrote t s s' ret)
    (apart : ∀ p b, known p = some b → ¬ (t.fileOffset ≤ p ∧ p < t.fileOffset + t.size)) :
    known.Agrees s'.file := by
  refine (wrote.agrees agrees).mono fun {p b} here => ?_
  have outside := apart p b here
  unfold LastWrites.reported
  split
  · exact LastWrites.lost_eq_some_iff.mpr ⟨outside, here⟩
  · rename_i counted
    cases wrote with
    | bytes n within file =>
        rw [LastWrites.wrote_of_not_mem (by omega)]
        exact here
    | fails ret negative mem kept longer => exact absurd negative counted

/-- A step that leaves a range alone keeps what is known of it. -/
theorem agrees_of_leavesAlone {known : LastWrites UInt8} {s s' : Session} {l : SessionStep}
    {range : Transfer}
    (inRange : ∀ p b, known p = some b →
      range.fileOffset ≤ p ∧ p < range.fileOffset + range.size)
    (agrees : known.Agrees s.world.file) (careful : Careful s l) (alone : LeavesAlone range l)
    (step : session.step s l = some s') : known.Agrees s'.world.file := by
  cases moves : l.transfer with
  | none =>
      rw [session_step_file moves step]
      exact agrees
  | some move =>
      obtain ⟨isWrite, t, k⟩ := move
      obtain ⟨fits, edges⟩ := careful isWrite t k moves
      rw [session_step_transfer moves] at step
      obtain ⟨⟨w, ret⟩, returned, rfl⟩ := Option.map_eq_some_iff.mp step
      cases isWrite with
      | true =>
          refine (opendsSync_wrote fits (edges rfl) returned).agrees_apart agrees fun p b here => ?_
          have within := inRange p b here
          have apart := alone t k moves
          omega
      | false =>
          rw [(opendsSync_read fits returned).file]
          exact agrees

/-- **What was written is read back.** A write reports its size. Then come any calls, of which
none writes into its range. A read of any part of the range, from any handle and into any
buffer, reports its size, and it has delivered the bytes that were in memory at the write. -/
theorem written_range_read_back {w : Transfer} {kw : Kernel} {s₁ s₃ : Session} {w₂ : World}
    (fits : w.Fits) (edges : EdgesRead w kw s₁.world)
    (written : opendsSync true s₁.statics.driverOpen w kw s₁.world = some (w₂, (w.size : Int)))
    {steps : List SessionStep}
    (careful : session.Meets (fun s l => Careful s l ∧ LeavesAlone w l) steps ⟨s₁.statics, w₂⟩)
    (ran : session.run steps ⟨s₁.statics, w₂⟩ = some s₃) {r : Transfer} {kr : Kernel} {h : RefHandle}
    (opened : s₃.statics.driverOpen = true) (handle : r.fh = some h) (buffer : r.bufBase ≠ 0)
    (low : w.fileOffset ≤ r.fileOffset)
    (high : r.fileOffset + r.size ≤ w.fileOffset + w.size)
    (arrives : ReadArrives r kr s₃.world) :
    ∃ s₄, opendsSync false s₃.statics.driverOpen r kr s₃.world = some (s₄, (r.size : Int)) ∧
      (∀ i, i < r.size →
        s₄.mem (r.pointer + i) = s₁.world.mem (w.pointer + (r.fileOffset - w.fileOffset) + i)) ∧
      ∀ p, ¬ (r.pointer ≤ p ∧ p < r.pointer + r.size) → s₄.mem p = s₃.world.mem p := by
  have small : w.fileOffset + w.size + 4095 < 2 ^ 63 := fits
  have readFits : r.Fits := by
    unfold Transfer.Fits
    omega
  generalize image : (LastWrites.nothing.wrote w.fileOffset w.size
    fun i => s₁.world.mem (w.pointer + i)) = known
  have inRange : ∀ p b, known p = some b → w.fileOffset ≤ p ∧ p < w.fileOffset + w.size := by
    intro p b here
    by_contra outside
    rw [← image, LastWrites.wrote_of_not_mem outside] at here
    cases here
  have content : ∀ p, w.fileOffset ≤ p → p < w.fileOffset + w.size →
      known p = some (s₁.world.mem (w.pointer + (p - w.fileOffset))) := by
    intro p first last
    rw [← image, LastWrites.wrote_of_mem first last]
  have start : known.Agrees w₂.file := by
    have wrote := opendsSync_wrote fits edges written
    have agrees := wrote.agrees (.nothing _)
    rwa [LastWrites.reported, if_neg (by omega), Int.toNat_natCast, image] at agrees
  have kept : known.Agrees s₃.world.file :=
    Machine.run_invariant (fun _ _ _ agrees both step =>
      agrees_of_leavesAlone inRange agrees both.1 both.2 step) start careful ran
  have there : s₃.world.file.available r.fileOffset r.size = r.size := by
    refine kept.available fun p first last => ?_
    rw [content p (by omega) (by omega)]
    rfl
  obtain ⟨s₄, returned⟩ := opendsSync_read_arrives readFits handle buffer arrives there
  rw [opened]
  refine ⟨s₄, returned, ?_⟩
  have reads := (opendsSync_read readFits returned).known kept
  generalize size : (r.size : Int) = count at reads
  cases reads with
  | bytes n within delivered file outside =>
      obtain rfl : r.size = n := by omega
      refine ⟨fun i low' => ?_, outside⟩
      refine delivered i _ low' ?_
      rw [content _ (by omega) (by omega)]
      congr 2
      omega
  | fails ret negative same => omega

/-- The driver is open. -/
def openedSession : Session := ⟨(opendsDriverOpen .initial).1, blankWorld⟩

/-- A write of the 3 bytes behind the 5, in the same block. -/
def nextBytes : List SessionStep := [.sync true ⟨some ⟨false⟩, 64, 3, 105, 0⟩ (twoBlocksAtOnce 7)]

/-- A read of 3 of the 5 bytes. -/
def threeBytes : Transfer := ⟨some ⟨true⟩, 32768, 3, 101, 0⟩

theorem readArrives_threeBytes (s : World) : ReadArrives threeBytes (twoBlocksAtOnce 4098) s := by
  refine (if_neg (by decide)).mpr ⟨Machine.meets_of_labels (fun a member u => ?_) _, ?_⟩
  · obtain ⟨-, rfl⟩ := List.mem_replicate.mp member
    intro got _ _
    decide
  · simp only [twoBlocksAtOnce, List.countP_replicate, Answer.isOk, if_true]
    decide

/-- The bytes that were written are read back, past a write to their block. -/
theorem written_range_read_back_threeBytes :
    ∃ s₃ s₄, opendsSync false true threeBytes (twoBlocksAtOnce 4098) s₃ = some (s₄, 3) ∧
      ∀ i, i < 3 → s₄.mem (threeBytes.pointer + i) = UInt8.ofNat (4097 + i) := by
  have write : (opendsSync true openedSession.statics.driverOpen fiveBytes (twoBlocksAtOnce 7)
      openedSession.world).map Prod.snd = some 5 := by
    decide +kernel
  obtain ⟨⟨w₂, ret⟩, written, rfl⟩ := Option.map_eq_some_iff.mp write
  have goesOn : ((opendsSync true openedSession.statics.driverOpen fiveBytes (twoBlocksAtOnce 7)
      openedSession.world).bind fun out =>
        (session.run nextBytes ⟨openedSession.statics, out.1⟩).map
          fun s => s.statics.driverOpen) = some true := by
    decide +kernel
  rw [written, Option.bind_some] at goesOn
  obtain ⟨s₃, ran, opened⟩ := Option.map_eq_some_iff.mp goesOn
  have careful : session.Meets (fun s l => Careful s l ∧ LeavesAlone fiveBytes l) nextBytes
      ⟨openedSession.statics, w₂⟩ := by
    refine Machine.meets_of_labels (fun l member s => ?_) _
    cases List.mem_singleton.mp member
    refine ⟨fun isWrite t k moves => ?_, fun other k moves => ?_⟩
    · cases moves
      exact ⟨by decide, fun _ => edgesRead_twoBlocksAtOnce _ _ _⟩
    · cases moves
      exact .inr (by decide)
  obtain ⟨s₄, read, bytes, -⟩ := written_range_read_back (by decide)
    (edgesRead_twoBlocksAtOnce _ _ _) written careful ran opened rfl (by decide) (by decide)
    (by decide) (readArrives_threeBytes s₃.world)
  rw [opened] at read
  refine ⟨s₃.world, s₄, read, fun i low => ?_⟩
  rw [bytes i low]
  change UInt8.ofNat (4096 + 1 + i) = _
  rfl

end OpenDS.Ref
