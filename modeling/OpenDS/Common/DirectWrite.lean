import OpenDS.Status
import OpenDS.Library.ByteFile

/-!
# The direct write of `opends_common.c`

`opends_direct_pwrite` makes an unaligned write out of whole 4096-byte blocks. It
decides from `fstat` whether the last block will have to be cut back, fills the
partial edge blocks of a bounce buffer from the file, copies the source over them,
writes the buffer, and cuts the file back.

The function is a machine whose steps are its system calls and its copy. The file
may change between two steps: other writes may be running. The kernel's answer to
a call is an argument of its step.
-/

set_option autoImplicit false

namespace OpenDS.Common

open OpenDS.Library

/-- `OPENDS_DIRECT_ALIGN`. -/
def directAlign : Nat := 4096

/-- The value of `EINTR`. -/
def eintr : Int := 4

/-- The value of `EIO`. -/
def eio : Int := 5

/-- The value of `ENOMEM`. -/
def enomem : Int := 12

/-- The bytes of the file. -/
abbrev File := ByteFile UInt8

/-- The arguments of `opends_direct_pwrite`: whether the access mode is
`O_WRONLY`, the source, the size and the offset, which is not negative. -/
structure WriteRequest where
  wronly : Bool
  src : Nat → UInt8
  size : Nat
  off : Nat

namespace WriteRequest

variable (r : WriteRequest)

/-- `off & ~(OPENDS_DIRECT_ALIGN - 1)`. -/
def start : Nat := r.off - (r.off &&& (directAlign - 1))

/-- `off + size`. -/
def endOff : Nat := r.off + r.size

/-- `off - start`. -/
def head : Nat := r.off - r.start

/-- `(head + size + OPENDS_DIRECT_ALIGN - 1) & ~(OPENDS_DIRECT_ALIGN - 1)`. -/
def span : Nat :=
  let rounded := (r.head + r.size + (directAlign - 1)) % 2 ^ 64
  rounded - (rounded &&& (directAlign - 1))

/-- `span - head - size`. -/
def tail : Nat := (r.span + (2 ^ 64 - (r.head + r.size) % 2 ^ 64)) % 2 ^ 64

/-- `span - OPENDS_DIRECT_ALIGN`. -/
def last : Nat := (r.span + (2 ^ 64 - directAlign)) % 2 ^ 64

end WriteRequest

/-- `read_block` of the block at `pos`, into the buffer from `at` on: the bytes
that are not there become zero. -/
def readBlock (f : File) (pos at' n : Nat) (bounce : Nat → UInt8) : Nat → UInt8 := fun k =>
  if at' ≤ k ∧ k < at' + directAlign then
    if k - at' < f.available pos (min n directAlign) then f.byte (pos + (k - at')) else 0
  else bounce k

/-- The kernel's answer to a call: it goes through and moves at most `n` bytes, it
is interrupted, or it fails with an `errno` that is set. -/
inductive Answer where
  | ok (n : Nat)
  | interrupted
  | fails (errno : Nat) (set : 0 < errno)
  deriving DecidableEq, Repr

/-- Where `opends_direct_pwrite` stands: the next call it makes, or its result. -/
inductive WritePc where
  | memalign
  | fstat
  | openRead
  | readHead
  | readTail
  | copy
  | pwrite (done : Nat)
  | ftruncate
  | out (ret : Int)
  deriving DecidableEq, Repr

/-- The locals of `opends_direct_pwrite`. `truncTo` is `trunc_to`, `none` for -1. -/
structure WriteState where
  pc : WritePc
  bounce : Nat → UInt8
  truncTo : Option Nat

namespace WriteRequest

variable (r : WriteRequest)

/-- A call of the function. What `posix_memalign` will leave in the buffer is
arbitrary. -/
def call (garbage : Nat → UInt8) : WriteState :=
  ⟨if r.size = 0 then .out 0 else .memalign, garbage, none⟩

/-- `rmw_fill` past the read of the first block. -/
def afterHead : WritePc :=
  if r.tail ≠ 0 ∧ (r.last ≠ 0 ∨ r.head = 0) then .readTail else .copy

/-- `rmw_fill` past the choice of the descriptor. -/
def enterRead : WritePc := if r.head ≠ 0 then .readHead else r.afterHead

/-- The code from `if (head || tail)` on. -/
def enterFill : WritePc :=
  if r.head ≠ 0 ∨ r.tail ≠ 0 then (if r.wronly then .openRead else r.enterRead) else .copy

/-- The code past the write loop. -/
def afterLoop (truncTo : Option Nat) : WritePc :=
  match truncTo with
  | some _ => .ftruncate
  | none => .out (ssize r.size)

/-- The head of the write loop. -/
def enterLoop (truncTo : Option Nat) (done : Nat) : WritePc :=
  if done < r.span then .pwrite done else r.afterLoop truncTo

/-- One step of `opends_direct_pwrite`: its next call, with the kernel's answer. -/
def step (a : Answer) (f : File) (w : WriteState) : File × WriteState :=
  match w.pc, a with
  | .memalign, .ok _ => (f, { w with pc := if r.tail ≠ 0 then .fstat else r.enterFill })
  | .memalign, _ => (f, { w with pc := .out (-enomem) })
  | .fstat, .ok _ =>
    let stSize := max f.length r.endOff
    (f, { w with
      truncTo := if stSize < r.start + r.span then some stSize else none
      pc := r.enterFill })
  | .openRead, .ok _ => (f, { w with pc := r.enterRead })
  | .readHead, .ok n =>
    (f, { w with bounce := readBlock f r.start 0 n w.bounce, pc := r.afterHead })
  | .readTail, .ok n =>
    (f, { w with bounce := readBlock f (r.start + r.last) r.last n w.bounce, pc := .copy })
  | .readHead, .interrupted => (f, w)
  | .readTail, .interrupted => (f, w)
  | .copy, .ok _ =>
    (f, { w with
      bounce := fun k => if r.head ≤ k ∧ k < r.head + r.size then r.src (k - r.head) else w.bounce k
      pc := r.enterLoop w.truncTo 0 })
  | .copy, _ => (f, { w with pc := .out (-eio) })
  | .pwrite done, .ok n =>
    let moved := min n (r.span - done)
    if moved = 0 then (f, { w with pc := .out (-eio) })
    else
      (f.pwrite (r.start + done) moved fun k => w.bounce (done + k),
        { w with pc := r.enterLoop w.truncTo (done + moved) })
  | .pwrite _, .interrupted => (f, w)
  | .ftruncate, .ok _ =>
    (match w.truncTo with
      | some length => f.ftruncate length
      | none => f,
      { w with pc := .out (ssize r.size) })
  | .out _, _ => (f, w)
  | _, .interrupted => (f, { w with pc := .out (-eintr) })
  | _, .fails errno _ => (f, { w with pc := .out (-errno) })

end WriteRequest

/-! ## The geometry of a request -/

/-- The range of the request is not empty and its rounded end is an `off_t`. -/
structure WriteRequest.Fits (r : WriteRequest) : Prop where
  size : 0 < r.size
  representable : r.off + r.size + 4095 < 2 ^ 63

namespace WriteRequest

variable {r : WriteRequest}

theorem and_block_mask (x : Nat) : x &&& (directAlign - 1) = x % 4096 :=
  Nat.and_two_pow_sub_one_eq_mod x 12

theorem start_add_head (r : WriteRequest) : r.start + r.head = r.off := by
  simp only [start, head]
  omega

theorem start_mod (r : WriteRequest) : r.start % 4096 = 0 := by
  simp only [start, and_block_mask]
  omega

theorem head_lt (r : WriteRequest) : r.head < 4096 := by
  simp only [head, start, and_block_mask]
  omega

/-- What the rounding of the range to whole blocks gives. -/
structure Shape (r : WriteRequest) : Prop where
  spanMod : r.span % 4096 = 0
  tail : r.head + r.size + r.tail = r.span
  tailLt : r.tail < 4096
  last : r.last + 4096 = r.span

theorem Fits.shape (fits : r.Fits) : r.Shape := by
  have size := fits.size
  have bound := fits.representable
  have head := r.start_add_head
  have headLt := r.head_lt
  have span : r.span = (r.head + r.size + 4095) - (r.head + r.size + 4095) % 4096 := by
    simp only [WriteRequest.span, and_block_mask]
    simp only [directAlign]
    omega
  refine ⟨by omega, ?_, ?_, ?_⟩
  · simp only [WriteRequest.tail]
    omega
  · simp only [WriteRequest.tail]
    omega
  · simp only [WriteRequest.last, directAlign]
    omega

/-- The range ends inside its last block. -/
theorem Fits.endOff_bounds (fits : r.Fits) :
    r.start < r.endOff ∧ r.endOff + r.tail = r.start + r.span := by
  have size := fits.size
  have head := r.start_add_head
  have tail := fits.shape.tail
  simp only [endOff]
  omega

/-- The file position is in the range of the write. -/
def Range (r : WriteRequest) (p : Nat) : Prop := r.off ≤ p ∧ p < r.endOff

/-- The file position is in a block the write touches. -/
def Touches (r : WriteRequest) (p : Nat) : Prop := r.start ≤ p ∧ p < r.start + r.span

theorem Fits.touches (fits : r.Fits) {p : Nat} (range : r.Range p) : r.Touches p := by
  have head := r.start_add_head
  have bounds := fits.endOff_bounds
  exact ⟨by have := range.1; omega, by have := range.2; omega⟩

end WriteRequest

/-! ## What a step can do -/

/-- The write gave up with an error. -/
def WriteState.Failed (w : WriteState) : Prop := ∃ ret, w.pc = .out ret ∧ ret < 0

/-- The calls that `opends_direct_pwrite` makes again when they are interrupted. -/
def Retried : WritePc → Prop
  | .readHead => True
  | .readTail => True
  | .pwrite _ => True
  | _ => False

/-- The effects of the steps of one write, from a file and its locals. A step that
fails was not answered, or it is a `pwrite` that moved nothing. -/
inductive Effect (r : WriteRequest) (f : File) (w : WriteState) :
    Answer → File → WriteState → Prop where
  | idle (a : Answer) : (a = .interrupted ∨ ∃ ret, w.pc = .out ret) → Effect r f w a f w
  | fails (a : Answer) (ret : Int) : ret < 0 → (a = .interrupted → ¬ Retried w.pc) →
      (∀ n, a = .ok n → ∃ done, w.pc = .pwrite done ∧ min n (r.span - done) = 0) →
      Effect r f w a f { w with pc := .out ret }
  | memalign (n : Nat) : w.pc = .memalign →
      Effect r f w (.ok n) f { w with pc := if r.tail ≠ 0 then .fstat else r.enterFill }
  | fstat (n : Nat) : w.pc = .fstat →
      Effect r f w (.ok n) f { w with
        truncTo := if max f.length r.endOff < r.start + r.span then some (max f.length r.endOff)
          else none
        pc := r.enterFill }
  | openRead (n : Nat) : w.pc = .openRead →
      Effect r f w (.ok n) f { w with pc := r.enterRead }
  | readHead (n : Nat) : w.pc = .readHead →
      Effect r f w (.ok n) f
        { w with bounce := readBlock f r.start 0 n w.bounce, pc := r.afterHead }
  | readTail (n : Nat) : w.pc = .readTail →
      Effect r f w (.ok n) f
        { w with bounce := readBlock f (r.start + r.last) r.last n w.bounce, pc := .copy }
  | copy (n : Nat) : w.pc = .copy →
      Effect r f w (.ok n) f { w with
        bounce := fun k =>
          if r.head ≤ k ∧ k < r.head + r.size then r.src (k - r.head) else w.bounce k
        pc := r.enterLoop w.truncTo 0 }
  | pwrite (done n : Nat) : w.pc = .pwrite done → 0 < min n (r.span - done) →
      Effect r f w (.ok n)
        (f.pwrite (r.start + done) (min n (r.span - done)) fun k => w.bounce (done + k))
        { w with pc := r.enterLoop w.truncTo (done + min n (r.span - done)) }
  | ftruncate (n : Nat) (f' : File) : w.pc = .ftruncate →
      (∀ length, w.truncTo = some length → f' = f.ftruncate length) →
      (w.truncTo = none → f' = f) →
      Effect r f w (.ok n) f' { w with pc := .out (ssize r.size) }

/-- **Every step has one of the effects.** -/
theorem WriteRequest.step_effect (r : WriteRequest) (a : Answer) (f : File) (w : WriteState) :
    Effect r f w a (r.step a f w).1 (r.step a f w).2 := by
  have interrupted : -eintr < 0 := by decide
  have failed : ∀ errno : Nat, 0 < errno → -(errno : Int) < 0 := by
    intro errno set
    omega
  cases pc : w.pc with
  | memalign =>
      cases a with
      | ok n => simpa only [step, pc] using Effect.memalign n pc
      | interrupted => simpa only [step, pc] using Effect.fails _ (-enomem) (by decide) (by simp [pc, Retried]) (by simp)
      | fails errno set => simpa only [step, pc] using Effect.fails _ (-enomem) (by decide) (by simp [pc, Retried]) (by simp)
  | fstat =>
      cases a with
      | ok n => simpa only [step, pc] using Effect.fstat n pc
      | interrupted => simpa only [step, pc] using Effect.fails _ _ interrupted (by simp [pc, Retried]) (by simp)
      | fails errno set => simpa only [step, pc] using Effect.fails _ _ (failed errno set) (by simp) (by simp)
  | openRead =>
      cases a with
      | ok n => simpa only [step, pc] using Effect.openRead n pc
      | interrupted => simpa only [step, pc] using Effect.fails _ _ interrupted (by simp [pc, Retried]) (by simp)
      | fails errno set => simpa only [step, pc] using Effect.fails _ _ (failed errno set) (by simp) (by simp)
  | readHead =>
      cases a with
      | ok n => simpa only [step, pc] using Effect.readHead n pc
      | interrupted => simpa only [step, pc] using Effect.idle _ (.inl rfl)
      | fails errno set => simpa only [step, pc] using Effect.fails _ _ (failed errno set) (by simp) (by simp)
  | readTail =>
      cases a with
      | ok n => simpa only [step, pc] using Effect.readTail n pc
      | interrupted => simpa only [step, pc] using Effect.idle _ (.inl rfl)
      | fails errno set => simpa only [step, pc] using Effect.fails _ _ (failed errno set) (by simp) (by simp)
  | copy =>
      cases a with
      | ok n => simpa only [step, pc] using Effect.copy n pc
      | interrupted => simpa only [step, pc] using Effect.fails _ (-eio) (by decide) (by simp [pc, Retried]) (by simp)
      | fails errno set => simpa only [step, pc] using Effect.fails _ (-eio) (by decide) (by simp [pc, Retried]) (by simp)
  | pwrite done =>
      cases a with
      | ok n =>
          simp only [step, pc]
          split
          · rename_i none
            exact .fails _ (-eio) (by decide) (by simp) fun n' same => ⟨done, pc, by cases same; exact none⟩
          · rename_i some
            exact .pwrite done n pc (Nat.pos_of_ne_zero some)
      | interrupted => simpa only [step, pc] using Effect.idle _ (.inl rfl)
      | fails errno set => simpa only [step, pc] using Effect.fails _ _ (failed errno set) (by simp) (by simp)
  | ftruncate =>
      cases a with
      | ok n =>
          simp only [step, pc]
          refine .ftruncate n _ pc (fun length planned => ?_) fun none => ?_
          · rw [planned]
          · rw [none]
      | interrupted => simpa only [step, pc] using Effect.fails _ _ interrupted (by simp [pc, Retried]) (by simp)
      | fails errno set => simpa only [step, pc] using Effect.fails _ _ (failed errno set) (by simp) (by simp)
  | out ret => simpa only [step, pc] using Effect.idle a (.inr ⟨ret, pc⟩)

end OpenDS.Common
