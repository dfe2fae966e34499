import Mathlib

/-!
# Regular files

A regular file is a length and its bytes. Reading past the end gives nothing, so
the bytes past the end are not part of a file; the model fixes them to zero, which
is what a later extension of the file exposes. The three operations are those of
POSIX: `pwrite` at a position, `pread` of a range, and `ftruncate` to a length.
-/

set_option autoImplicit false

namespace OpenDS.Library

universe u

/-- The contents of a regular file. -/
@[ext]
structure ByteFile (β : Type u) [Zero β] where
  length : Nat
  byte : Nat → β
  pastEnd : ∀ p, length ≤ p → byte p = 0

namespace ByteFile

variable {β : Type u} [Zero β] (f : ByteFile β)

/-- Write `n` bytes at a position. -/
def pwrite (pos n : Nat) (data : Nat → β) : ByteFile β where
  length := if n = 0 then f.length else max f.length (pos + n)
  byte p := if pos ≤ p ∧ p < pos + n then data (p - pos) else f.byte p
  pastEnd p past := by
    by_cases none : n = 0
    · rw [if_pos none] at past
      rw [if_neg (by omega), f.pastEnd p past]
    · rw [if_neg none] at past
      rw [if_neg (by omega), f.pastEnd p (by omega)]

/-- Set the length; a file that grows reads as zero past its old end. -/
def ftruncate (length : Nat) : ByteFile β where
  length := length
  byte p := if p < length then f.byte p else 0
  pastEnd p past := if_neg (Nat.not_lt.mpr past)

/-- The number of bytes a read of at most `n` bytes at a position gives. -/
def available (pos n : Nat) : Nat := min n (f.length - pos)

theorem pwrite_length_pos {n : Nat} (some : 0 < n) (pos : Nat) (data : Nat → β) :
    (f.pwrite pos n data).length = max f.length (pos + n) :=
  if_neg (by omega)

theorem pwrite_byte_of_mem {pos n p : Nat} (data : Nat → β) (low : pos ≤ p) (high : p < pos + n) :
    (f.pwrite pos n data).byte p = data (p - pos) :=
  if_pos ⟨low, high⟩

theorem pwrite_byte_of_not_mem {pos n p : Nat} (data : Nat → β)
    (outside : ¬ (pos ≤ p ∧ p < pos + n)) : (f.pwrite pos n data).byte p = f.byte p :=
  if_neg outside

@[simp] theorem pwrite_zero (pos : Nat) (data : Nat → β) : f.pwrite pos 0 data = f := by
  have length : (f.pwrite pos 0 data).length = f.length := by
    simp only [pwrite, if_true]
  refine ByteFile.ext length (funext fun p => f.pwrite_byte_of_not_mem data ?_)
  omega

@[simp] theorem ftruncate_length (length : Nat) : (f.ftruncate length).length = length := rfl

theorem ftruncate_byte_of_lt {length p : Nat} (low : p < length) :
    (f.ftruncate length).byte p = f.byte p :=
  if_pos low

/-- Cutting off bytes that are zero changes no byte. -/
theorem ftruncate_byte_of_zero {length p : Nat} (zero : length ≤ p → f.byte p = 0) :
    (f.ftruncate length).byte p = f.byte p := by
  by_cases low : p < length
  · exact f.ftruncate_byte_of_lt low
  · rw [zero (Nat.le_of_not_lt low)]
    exact if_neg low

end ByteFile

end OpenDS.Library
