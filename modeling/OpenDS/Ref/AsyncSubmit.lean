import OpenDS.Common.DirectRead

/-!
# Asynchronous requests of the reference backend

`ref_async_submit` of `opends_ref.c` runs a request before it returns. A request whose
pointer, size and offset are multiples of a block is one `pread` or `pwrite`; the others
go through `opends_direct_pread` and `opends_direct_pwrite`, which call the kernel until
they are through.

For a request of whole blocks the two paths agree exactly if the first call of the kernel
moves all there is to move (`alignedPath_iff`). A transfer that the kernel cuts short, or a
call that it interrupts, is the end of the one path and not of the other.
-/

set_option autoImplicit false

namespace OpenDS.Ref

open OpenDS.Common OpenDS.Library

/-- The file of a handle and the memory of the process. -/
@[ext]
structure World where
  file : File
  mem : Nat → UInt8

/-- `struct ref_handle`: whether the access mode of its flags is `O_WRONLY`. Its
descriptor is the file. -/
structure RefHandle where
  wronly : Bool
  deriving DecidableEq, Repr

/-- The arguments of `ref_async_submit`. `none` and 0 are null pointers; the offset in the
file is not negative. -/
structure Submission where
  isWrite : Bool
  fh : Option RefHandle
  bufBase : Nat
  size : Nat
  fileOffset : Nat
  bufOffset : Int
  future : Bool

/-- What `ref_async_submit` reports without running a request. -/
inductive SubmitError where
  | driverNotInitialized
  | invalidValue
  deriving DecidableEq, Repr

/-- `direct_aligned`. -/
def directAligned (p size off : Nat) : Bool := (p ||| size ||| off) &&& (directAlign - 1) == 0

/-- `pwrite` of the memory at a pointer, with the answer of the kernel. -/
def pwriteOnce (p size off : Nat) (a : Answer) (s : World) : World × Int :=
  match a with
  | .ok n => ({ s with file := s.file.pwrite off (min n size) fun k => s.mem (p + k) },
      ssize (min n size))
  | .interrupted => (s, -1)
  | .fails _ _ => (s, -1)

/-- `pread` into the memory at a pointer, with the answer of the kernel. -/
def preadOnce (p size off : Nat) (a : Answer) (s : World) : World × Int :=
  match a with
  | .ok n =>
    let moved := s.file.available off (min n size)
    ({ s with mem := fun k =>
        if p ≤ k ∧ k < p + moved then s.file.byte (off + (k - p)) else s.mem k },
      ssize moved)
  | .interrupted => (s, -1)
  | .fails _ _ => (s, -1)

/-- `opends_direct_pwrite` of the memory at a pointer, once it has returned. -/
def directPwrite (wronly : Bool) (p size off : Nat) (garbage : Nat → UInt8) (answers : List Answer)
    (s : World) : Option (World × Int) :=
  let r : WriteRequest := ⟨wronly, fun k => s.mem (p + k), size, off⟩
  ((writers fun _ : Unit => r).run (answers.map fun a => ((), a))
    (inFlight (fun _ => r) s.file fun _ => garbage)).bind fun t =>
      match (t.writes ()).pc with
      | .out ret => some ({ s with file := t.file }, ret)
      | _ => none

/-- `opends_direct_pread` into the memory at a pointer, once it has returned. -/
def directPread (p size off : Nat) (garbage : Nat → UInt8) (answers : List Answer) (s : World) :
    Option (World × Int) :=
  let r : ReadRequest := ⟨p, size, off⟩
  ((reader r s.file).run answers (r.call garbage s.mem)).bind fun w =>
    match w.pc with
    | .out ret => some ({ s with mem := w.mem }, ret)
    | _ => none

namespace Submission

variable (c : Submission)

/-- `(char *)buf_base + buf_offset`. -/
def pointer : Nat := (c.bufBase + c.bufOffset).toNat

/-- The request through a bounce buffer. -/
def direct (h : RefHandle) (garbage : Nat → UInt8) (answers : List Answer) (s : World) :
    Option (World × Int) :=
  if c.isWrite then directPwrite h.wronly c.pointer c.size c.fileOffset garbage answers s
  else directPread c.pointer c.size c.fileOffset garbage answers s

/-- The request as one call of the kernel. -/
def once (a : Answer) (s : World) : World × Int :=
  if c.isWrite then pwriteOnce c.pointer c.size c.fileOffset a s
  else preadOnce c.pointer c.size c.fileOffset a s

end Submission

/-- `ref_async_submit`: the error it reports, or what the request does and the result in
its future, as far as the kernel has answered. -/
def refAsyncSubmit (driverOpen : Bool) (c : Submission) (garbage : Nat → UInt8)
    (answers : List Answer) (s : World) : Except SubmitError (Option (World × Int)) :=
  if driverOpen = false then .error .driverNotInitialized
  else
    match c.fh with
    | none => .error .invalidValue
    | some h =>
      if c.bufBase = 0 ∨ c.future = false then .error .invalidValue
      else
        let result :=
          if directAligned c.pointer c.size c.fileOffset then
            answers.head?.map fun a => c.once a s
          else c.direct h garbage answers s
        .ok (result.map fun out =>
          (out.1, if out.2 < 0 then -OpError.internalError.code else out.2))

/-! ## Where a read writes -/

theorem preadOnce_outside {p size off : Nat} (a : Answer) (s : World) {k : Nat}
    (outside : ¬ (p ≤ k ∧ k < p + size)) : (preadOnce p size off a s).1.mem k = s.mem k := by
  cases a with
  | ok n =>
      refine if_neg fun inside => outside ⟨inside.1, ?_⟩
      have moved : s.file.available off (min n size) ≤ size :=
        Nat.le_trans (Nat.min_le_left _ _) (Nat.min_le_right _ _)
      omega
  | interrupted | fails => rfl

theorem directPread_outside {p size off : Nat} {garbage : Nat → UInt8} {answers : List Answer}
    {s : World} {out : World × Int} (ran : directPread p size off garbage answers s = some out)
    {k : Nat} (outside : ¬ (p ≤ k ∧ k < p + size)) : out.1.mem k = s.mem k := by
  obtain ⟨w, ran, returned⟩ := Option.bind_eq_some_iff.mp ran
  have same := reader_outside (r := ⟨p, size, off⟩) outside ran
  cases pc : w.pc with
  | out ret =>
      simp only [pc, Option.some.injEq] at returned
      rw [← returned]
      exact same
  | memalign | pread => simp [pc] at returned

/-- **A read writes inside the range that it was given**, on both of its paths. -/
theorem refAsyncSubmit_outside {driverOpen : Bool} {c : Submission} {garbage : Nat → UInt8}
    {answers : List Answer} {s : World} {out : World × Int} (read : c.isWrite = false)
    (ran : refAsyncSubmit driverOpen c garbage answers s = .ok (some out)) {k : Nat}
    (outside : ¬ (c.pointer ≤ k ∧ k < c.pointer + c.size)) : out.1.mem k = s.mem k := by
  unfold refAsyncSubmit at ran
  split at ran
  · cases ran
  split at ran
  · cases ran
  rename_i h handle
  split at ran
  · cases ran
  obtain ⟨moved, result, same⟩ := Option.map_eq_some_iff.mp (Except.ok.inj ran)
  subst same
  split at result
  · obtain ⟨a, -, same⟩ := Option.map_eq_some_iff.mp result
    subst same
    simp only [Submission.once, read, Bool.false_eq_true, if_false]
    exact preadOnce_outside a s outside
  · simp only [Submission.direct, read, Bool.false_eq_true, if_false] at result
    exact directPread_outside result outside

/-! ## Requests of whole blocks -/

theorem directAligned_iff {p size off : Nat} :
    directAligned p size off = true ↔ p % 4096 = 0 ∧ size % 4096 = 0 ∧ off % 4096 = 0 := by
  rw [directAligned, beq_iff_eq, Nat.and_or_distrib_right, Nat.and_or_distrib_right,
    Nat.or_eq_zero_iff, Nat.or_eq_zero_iff, WriteRequest.and_block_mask,
    WriteRequest.and_block_mask, WriteRequest.and_block_mask, and_assoc]

/-- An answer of a kernel that moves at least a block and at most what Linux moves at
once, or is interrupted. -/
def KernelTransfer (a : Answer) : Prop :=
  a = .interrupted ∨ ∃ n, a = .ok n ∧ 4096 ≤ n ∧ n ≤ 0x7ffff000

theorem KernelTransfer.of_ok {n : Nat} (transfer : KernelTransfer (.ok n)) : 4096 ≤ n := by
  rcases transfer with interrupted | ⟨n', same, block, -⟩
  · cases interrupted
  · cases same
    exact block

theorem KernelTransfer.not_fails {errno : Nat} {set : 0 < errno} :
    ¬ KernelTransfer (.fails errno set) := by
  rintro (interrupted | ⟨n, same, -⟩)
  · cases interrupted
  · cases same

/-! ## A write of whole blocks through the bounce buffer -/

section Write

variable {r : WriteRequest} {f₀ : File} {s s' : WriteSystem Unit}

/-- A write of whole blocks is in its loop, or has returned. -/
structure Looping (r : WriteRequest) (f₀ : File) (s : WriteSystem Unit) : Prop where
  alone : AloneInv (fun _ => r) f₀ s
  pc : (∃ done, (s.writes ()).pc = .pwrite done) ∨ ∃ ret, (s.writes ()).pc = .out ret

theorem tail_of_whole (fits : r.Fits) (size : r.size % 4096 = 0) (off : r.off % 4096 = 0) :
    r.head = 0 ∧ r.tail = 0 := by
  have shape := fits.shape
  have spanMod := shape.spanMod
  have tail := shape.tail
  have tailLt := shape.tailLt
  have head : r.head = 0 := by
    simp only [WriteRequest.head, WriteRequest.start, WriteRequest.and_block_mask]
    omega
  omega

/-- A write of whole blocks has nothing to cut off. -/
theorem truncTo_of_whole (fits : r.Fits) (tail : r.tail = 0) (lengths : Lengths (fun _ => r) f₀ s) :
    (s.writes ()).truncTo = none := by
  have bounds := fits.endOff_bounds
  cases cut : (s.writes ()).truncTo with
  | none => rfl
  | some t =>
      obtain ⟨planned, short⟩ := lengths.cut () t cut
      omega

theorem Looping.enterLoop {done : Nat} (alone : AloneInv (fun _ => r) f₀ s') (pc : (s'.writes ()).pc = r.enterLoop none done) :
    Looping r f₀ s' := by
  refine ⟨alone, ?_⟩
  rw [pc, WriteRequest.enterLoop]
  split
  · exact .inl ⟨done, rfl⟩
  · exact .inr ⟨_, rfl⟩

theorem Looping.step (fits : r.Fits) (tail : r.tail = 0) (looping : Looping r f₀ s)
    {l : Unit × Answer} (transfer : KernelTransfer l.2)
    (step : (writers fun _ => r).step s l = some s') : Looping r f₀ s' := by
  obtain ⟨⟨⟩, a⟩ := l
  rcases looping.pc with ⟨done, pc⟩ | ⟨ret, out⟩
  · have goes : GoesThrough (s.writes ()) a := by
      cases a with
      | ok n =>
          have block := transfer.of_ok
          exact ⟨fun _ => block, fun _ _ => by omega⟩
      | interrupted =>
          change Retried (s.writes ()).pc
          rw [pc]
          trivial
      | fails errno set => exact absurd transfer KernelTransfer.not_fails
    have alone := looping.alone.step (fun _ => fits) goes step
    have more := (looping.alone.inv.lengths.formed ()).loop done pc
    have unplanned := truncTo_of_whole fits tail looping.alone.inv.lengths
    cases a with
    | ok n =>
        have block := transfer.of_ok
        refine .enterLoop alone (?_ : _ = r.enterLoop none (done + min n (r.span - done)))
        cases step
        simp only [Function.update_self, WriteRequest.step, pc]
        rw [if_neg (by omega), unplanned]
    | interrupted =>
        refine ⟨alone, .inl ⟨done, ?_⟩⟩
        cases step
        simp only [Function.update_self, WriteRequest.step, pc]
    | fails errno set => exact absurd transfer KernelTransfer.not_fails
  · rw [writers_step_of_out out] at step
    cases step
    exact looping

/-- The write past its allocation and its copy. -/
theorem Looping.start (fits : r.Fits) (head : r.head = 0) (tail : r.tail = 0) (f₀ : File)
    (garbage : Nat → UInt8) {s : WriteSystem Unit}
    (ran : (writers fun _ => r).run [((), .ok 0), ((), .ok 0)]
      (inFlight (fun _ => r) f₀ fun _ => garbage) = some s) : Looping r f₀ s := by
  obtain ⟨mid, first, second⟩ := Option.bind_eq_some_iff.mp ran
  obtain ⟨last, second, same⟩ := Option.bind_eq_some_iff.mp second
  cases same
  have pc₀ : ((inFlight (fun _ : Unit => r) f₀ fun _ => garbage).writes ()).pc = .memalign :=
    call_pc fits garbage
  have pc₁ : (mid.writes ()).pc = .copy := by
    cases first
    simp only [Function.update_self, WriteRequest.step, pc₀, WriteRequest.enterFill, head, tail]
    rfl
  have start : AloneInv (fun _ => r) f₀ _ := .start (fun _ => fits) f₀ fun _ => garbage
  have alone₁ := start.step (fun _ => fits) (l := ((), .ok 0)) (by simp [GoesThrough, pc₀]) first
  have alone₂ := alone₁.step (fun _ => fits) (l := ((), .ok 0)) (by simp [GoesThrough, pc₁]) second
  have unplanned := truncTo_of_whole fits tail alone₁.inv.lengths
  refine .enterLoop alone₂ (?_ : _ = r.enterLoop none 0)
  cases second
  simp only [Function.update_self, WriteRequest.step, pc₁, unplanned]

end Write

/-- A kernel whose calls go through moves the whole source, on every schedule of
transfers. -/
theorem directPwrite_of_whole {wronly : Bool} {p size off : Nat} {garbage : Nat → UInt8}
    {answers : List Answer} {s : World} {out : World × Int} (whole : size % 4096 = 0)
    (offWhole : off % 4096 = 0) (representable : off + size < 2 ^ 63)
    (transfers : ∀ a ∈ answers, KernelTransfer a)
    (ran : directPwrite wronly p size off garbage (.ok 0 :: .ok 0 :: answers) s = some out) :
    out = ({ s with file := s.file.pwrite off size fun k => s.mem (p + k) }, (size : Int)) := by
  obtain ⟨t, ran, returned⟩ := Option.bind_eq_some_iff.mp ran
  generalize request : WriteRequest.mk wronly (fun k => s.mem (p + k)) size off = r at ran
  have sizeEq : r.size = size := by rw [← request]
  have offEq : r.off = off := by rw [← request]
  have srcEq : r.src = fun k => s.mem (p + k) := by rw [← request]
  rw [List.map_cons, List.map_cons] at ran
  by_cases none : size = 0
  · have out₀ : ((inFlight (fun _ : Unit => r) s.file fun _ => garbage).writes ()).pc = .out 0 := by
      change (if r.size = 0 then WritePc.out 0 else .memalign) = .out 0
      rw [if_pos (sizeEq.trans none)]
    rw [run_of_out out₀] at ran
    cases ran
    simp only [out₀, Option.some.injEq] at returned
    rw [← returned, none, ByteFile.pwrite_zero]
    rfl
  · have fits : r.Fits := ⟨by omega, by omega⟩
    obtain ⟨head, tail⟩ := tail_of_whole fits (by omega) (by omega)
    have split : (writers fun _ => r).run
        ([((), .ok 0), ((), .ok 0)] ++ answers.map fun a => ((), a))
        (inFlight (fun _ => r) s.file fun _ => garbage) = some t := ran
    rw [Machine.run_append] at split
    obtain ⟨mid, begun, rest⟩ := Option.bind_eq_some_iff.mp split
    have looping : Looping r s.file t := by
      have keeps : ∀ u l u', Looping r s.file u → KernelTransfer l.2 →
          (writers fun _ : Unit => r).step u l = some u' → Looping r s.file u' :=
        fun u l u' looping transfer step => looping.step fits tail transfer step
      refine Machine.run_invariant keeps (Looping.start fits head tail s.file garbage begun)
        (Machine.meets_of_labels (fun l member _ => ?_) _) rest
      obtain ⟨a, inList, rfl⟩ := List.mem_map.mp member
      exact transfers a inList
    rcases looping.pc with ⟨done, pc⟩ | ⟨ret, pc⟩
    · simp only [pc] at returned
      cases returned
    · obtain ⟨result, file⟩ := looping.alone.returned fits pc
      simp only [pc, Option.some.injEq] at returned
      rw [← returned, file, result, sizeEq, offEq, srcEq]

/-! ## A read of whole blocks through the bounce buffer -/

/-- A read is past its allocation once that went through. -/
theorem step_ne_memalign {r : ReadRequest} {f : File} {w : ReadState} {a : Answer}
    (past : w.pc = .memalign → ∃ n, a = .ok n) : (r.step a f w).pc ≠ .memalign := by
  have finish : ∀ w got, (r.finish w got).pc ≠ .memalign := by
    intro w got
    unfold ReadRequest.finish
    split <;> exact nofun
  have loop : ∀ w got, (r.enterLoop w got).pc ≠ .memalign := by
    intro w got
    unfold ReadRequest.enterLoop
    split
    · exact nofun
    · exact finish w got
  cases pc : w.pc with
  | memalign =>
      obtain ⟨n, rfl⟩ := past pc
      simp only [ReadRequest.step, pc]
      exact loop w 0
  | pread got =>
      cases a with
      | ok n =>
          simp only [ReadRequest.step, pc]
          split
          · exact finish w got
          · exact loop _ _
      | interrupted | fails => simp [ReadRequest.step, pc]
  | out ret => simp [ReadRequest.step, pc]

/-- The read past its allocation gives what the file has, on every schedule of
transfers. -/
theorem directPread_of_transfers {p size off : Nat} {garbage : Nat → UInt8}
    {answers : List Answer} {s : World} {out : World × Int}
    (representable : off + size + 4095 < 2 ^ 63) (transfers : ∀ a ∈ answers, KernelTransfer a)
    (ran : directPread p size off garbage (.ok 0 :: answers) s = some out) :
    out.2 = (s.file.available off size : Int) ∧ out.1.file = s.file ∧
      Delivered ⟨p, size, off⟩ s.file s.mem out.1.mem := by
  obtain ⟨w, ran, returned⟩ := Option.bind_eq_some_iff.mp ran
  generalize request : ReadRequest.mk p size off = r at ran
  have representable' : r.off + r.size + 4095 < 2 ^ 63 := by
    rw [← request]
    exact representable
  rw [Machine.run_cons] at ran
  obtain ⟨first, step, rest⟩ := Option.bind_eq_some_iff.mp ran
  have notReading : ∀ got, (r.call garbage s.mem).pc ≠ .pread got := by
    intro got same
    simp only [ReadRequest.call] at same
    split at same <;> cases same
  have begun : Reads r s.file s.mem first := by
    cases step
    exact (Reads.call s.file garbage s.mem).step representable'
      fun got pc => absurd pc (notReading got)
  have past : first.pc ≠ .memalign := by
    cases step
    exact step_ne_memalign fun _ => ⟨0, rfl⟩
  have keeps : ∀ w a w', Reads r s.file s.mem w ∧ w.pc ≠ .memalign → KernelTransfer a →
      (reader r s.file).step w a = some w' → Reads r s.file s.mem w' ∧ w'.pc ≠ .memalign := by
    rintro w a w' ⟨reads, past⟩ transfer step
    cases step
    refine ⟨reads.step representable' ?_, step_ne_memalign fun pc => absurd pc past⟩
    cases a with
    | ok n =>
        have block := transfer.of_ok
        exact fun _ _ _ => by omega
    | interrupted => exact past
    | fails errno set => exact absurd transfer KernelTransfer.not_fails
  obtain ⟨reads, -⟩ := Machine.run_invariant keeps ⟨begun, past⟩
    (Machine.meets_of_labels (fun a member _ => transfers a member) _) rest
  cases pc : w.pc with
  | memalign | pread =>
      simp only [pc] at returned
      cases returned
  | out ret =>
      obtain ⟨result, delivered⟩ := reads.of_out pc
      simp only [pc, Option.some.injEq] at returned
      rw [← returned]
      subst request
      exact ⟨result, rfl, delivered⟩

/-! ## The two paths -/

namespace Submission

/-- The calls before the transfers of a request of whole blocks through a bounce buffer:
the buffer is allocated, and the source of a write is copied. -/
def prelude (c : Submission) : List Answer := if c.isWrite then [.ok 0, .ok 0] else [.ok 0]

/-- How many bytes there are to move: what is written, or what the file has of the
range. -/
def asked (c : Submission) (f : File) : Nat :=
  if c.isWrite then c.size else f.available c.fileOffset c.size

end Submission

/-- An accepted request of whole blocks is one call of the kernel. -/
theorem refAsyncSubmit_of_aligned {c : Submission} {h : RefHandle} (handle : c.fh = some h)
    (buffer : c.bufBase ≠ 0) (future : c.future = true)
    (aligned : directAligned c.pointer c.size c.fileOffset = true) (garbage : Nat → UInt8)
    (a : Answer) (rest : List Answer) (s : World) :
    refAsyncSubmit true c garbage (a :: rest) s =
      .ok (some ((c.once a s).1,
        if (c.once a s).2 < 0 then -OpError.internalError.code else (c.once a s).2)) := by
  have accepted : ¬ (c.bufBase = 0 ∨ c.future = false) := by
    rw [future]
    rintro (null | none)
    · exact buffer null
    · cases none
  simp only [refAsyncSubmit, Bool.true_eq_false, if_false, handle, if_neg accepted, aligned,
    if_true, List.head?_cons, Option.map_some]

/-- One transfer of a write gives what the whole write gives exactly if it moves all. -/
theorem pwriteOnce_iff {p size off : Nat} (representable : off + size < 2 ^ 63) {a : Answer}
    (transfer : KernelTransfer a) (s : World) :
    ((pwriteOnce p size off a s).1, if (pwriteOnce p size off a s).2 < 0 then
        -OpError.internalError.code else (pwriteOnce p size off a s).2) =
        ({ s with file := s.file.pwrite off size fun k => s.mem (p + k) }, (size : Int)) ↔
      ∃ n, a = .ok n ∧ size ≤ n := by
  cases a with
  | ok n =>
      have small : ssize (min n size) = (min n size : Nat) := ssize_of_lt (by omega)
      simp only [pwriteOnce, small]
      rw [if_neg (by omega)]
      constructor
      · intro same
        have count : ((min n size : Nat) : Int) = size := congrArg Prod.snd same
        exact ⟨n, rfl, by omega⟩
      · rintro ⟨n', same, all⟩
        cases same
        rw [Nat.min_eq_right all]
  | interrupted =>
      constructor
      · intro same
        have count : -OpError.internalError.code = (size : Int) := congrArg Prod.snd same
        simp only [OpError.code] at count
        omega
      · rintro ⟨n, same, -⟩
        cases same
  | fails errno set => exact absurd transfer KernelTransfer.not_fails

/-- One transfer of a read gives what the whole read gives exactly if it moves all that
the file has. -/
theorem preadOnce_iff {p size off : Nat} (representable : off + size < 2 ^ 63) {a : Answer}
    (transfer : KernelTransfer a) {s : World} {out : World × Int}
    (count : out.2 = (s.file.available off size : Int)) (file : out.1.file = s.file)
    (delivered : Delivered ⟨p, size, off⟩ s.file s.mem out.1.mem) :
    ((preadOnce p size off a s).1, if (preadOnce p size off a s).2 < 0 then
        -OpError.internalError.code else (preadOnce p size off a s).2) = out ↔
      ∃ n, a = .ok n ∧ s.file.available off size ≤ n := by
  have bound : s.file.available off size ≤ size := Nat.min_le_left _ _
  cases a with
  | ok n =>
      have moved : s.file.available off (min n size) = min n (s.file.available off size) :=
        Nat.min_assoc _ _ _
      have small : ssize (min n (s.file.available off size)) =
          (min n (s.file.available off size) : Nat) := ssize_of_lt (by omega)
      simp only [preadOnce, moved, small]
      rw [if_neg (by omega)]
      constructor
      · intro same
        have result := congrArg Prod.snd same
        rw [count] at result
        exact ⟨n, rfl, by omega⟩
      · rintro ⟨n', same, all⟩
        cases same
        rw [Nat.min_eq_right all]
        refine Prod.ext (World.ext file.symm (funext fun k => ?_)) count.symm
        by_cases inRange : p ≤ k ∧ k < p + s.file.available off size
        · have byte := delivered.range (k - p) (by
            change k - p < s.file.available off size
            omega)
          have address : p + (k - p) = k := by omega
          rw [address] at byte
          exact (if_pos inRange).trans byte.symm
        · exact (if_neg inRange).trans (delivered.outside k inRange).symm
  | interrupted =>
      constructor
      · intro same
        have result : -OpError.internalError.code = out.2 := congrArg Prod.snd same
        rw [count] at result
        simp only [OpError.code] at result
        omega
      · rintro ⟨n, same, -⟩
        cases same
  | fails errno set => exact absurd transfer KernelTransfer.not_fails

/-- **The path of whole blocks agrees with the bounce buffer** in its result and in what
it does to the file and the memory, on a schedule of the kernel's transfers, exactly if
the first of them is not interrupted and moves all there is to move. -/
theorem alignedPath_iff {c : Submission} {h : RefHandle} (handle : c.fh = some h)
    (buffer : c.bufBase ≠ 0) (future : c.future = true)
    (aligned : directAligned c.pointer c.size c.fileOffset = true)
    (representable : c.fileOffset + c.size < 2 ^ 63) (garbage : Nat → UInt8) (s : World)
    (a : Answer) (rest : List Answer) (transfers : ∀ b ∈ a :: rest, KernelTransfer b)
    {out : World × Int} (bounce : c.direct h garbage (c.prelude ++ a :: rest) s = some out) :
    refAsyncSubmit true c garbage (a :: rest) s = .ok (some out) ↔
      ∃ n, a = .ok n ∧ c.asked s.file ≤ n := by
  obtain ⟨-, whole, offWhole⟩ := directAligned_iff.mp aligned
  have transfer := transfers a (List.mem_cons_self ..)
  rw [refAsyncSubmit_of_aligned handle buffer future aligned]
  simp only [Except.ok.injEq, Option.some.injEq]
  cases write : c.isWrite with
  | true =>
      simp only [Submission.direct, Submission.prelude, write, if_true] at bounce
      simp only [Submission.once, Submission.asked, write, if_true]
      rw [directPwrite_of_whole whole offWhole representable transfers bounce]
      exact pwriteOnce_iff representable transfer s
  | false =>
      simp only [Submission.direct, Submission.prelude, write, Bool.false_eq_true, if_false]
        at bounce
      simp only [Submission.once, Submission.asked, write, Bool.false_eq_true, if_false]
      obtain ⟨count, file, delivered⟩ := directPread_of_transfers (by omega) transfers bounce
      exact preadOnce_iff representable transfer count file delivered

/-- A write of two blocks. -/
def twoBlocks : Submission := ⟨true, some ⟨false⟩, 4096, 8192, 0, 0, true⟩

/-- An empty file and a memory to write from. -/
def blankWorld : World := ⟨emptyFile, UInt8.ofNat⟩

/-- The two paths agree on two blocks that are moved at once. -/
theorem alignedPath_iff_twoBlocks :
    ∃ out, twoBlocks.direct ⟨false⟩ (fun _ => 0) (twoBlocks.prelude ++ [.ok 8192]) blankWorld =
        some out ∧
      refAsyncSubmit true twoBlocks (fun _ => 0) [.ok 8192] blankWorld = .ok (some out) := by
  have returns : (twoBlocks.direct ⟨false⟩ (fun _ => 0) (twoBlocks.prelude ++ [.ok 8192])
      blankWorld).isSome = true := by decide +kernel
  obtain ⟨out, bounce⟩ := Option.isSome_iff_exists.mp returns
  refine ⟨out, bounce, ?_⟩
  refine (alignedPath_iff rfl (by decide) rfl (by decide +kernel) (by decide) _ blankWorld _ []
    (fun b member => ?_) bounce).mpr ⟨8192, rfl, by decide⟩
  obtain rfl := List.mem_singleton.mp member
  exact .inr ⟨8192, rfl, by decide, by decide⟩

/-- The two paths agree on every request of whole blocks and every schedule on which the
one through the bounce buffer returns. -/
def PathsAgree : Prop :=
  ∀ (c : Submission) (h : RefHandle) (garbage : Nat → UInt8) (s : World) (answers : List Answer)
    (out : World × Int), c.fh = some h → c.bufBase ≠ 0 → c.future = true →
    directAligned c.pointer c.size c.fileOffset = true → c.fileOffset + c.size < 2 ^ 63 →
    (∀ b ∈ answers, KernelTransfer b) →
    c.direct h garbage (c.prelude ++ answers) s = some out →
    refAsyncSubmit true c garbage answers s = .ok (some out)

/-- The number in the future of a request that ran. -/
def futureResult (e : Except SubmitError (Option (World × Int))) : Option Int :=
  match e with
  | .ok (some out) => some out.2
  | _ => none

/-- **A short transfer divides the paths**: of two blocks that the kernel moves one at a
time, one path writes both and the other one reports half. -/
theorem short_transfer_divides_paths : ¬ PathsAgree := by
  intro agree
  have whole : (twoBlocks.direct ⟨false⟩ (fun _ => 0)
      (twoBlocks.prelude ++ [.ok 4096, .ok 4096]) blankWorld).map Prod.snd = some 8192 := by
    decide +kernel
  obtain ⟨out, bounce, written⟩ := Option.map_eq_some_iff.mp whole
  have same := agree twoBlocks ⟨false⟩ (fun _ => 0) blankWorld [.ok 4096, .ok 4096] out rfl
    (by decide) rfl (by decide +kernel) (by decide) (fun b member => ?_) bounce
  · have half : futureResult (refAsyncSubmit true twoBlocks (fun _ => 0) [.ok 4096, .ok 4096]
        blankWorld) = some 4096 := by decide +kernel
    rw [same] at half
    have result : some out.2 = some 4096 := half
    rw [written] at result
    exact absurd result (by decide)
  · simp only [List.mem_cons, List.not_mem_nil, or_false, or_self] at member
    exact .inr ⟨4096, member, by decide, by decide⟩

end OpenDS.Ref
