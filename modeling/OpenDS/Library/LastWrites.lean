import OpenDS.Library.ByteFile

/-!
# What the last writes say

Someone who sees the writes to a store, but not the store, knows some of its bytes: at each
position the byte of the last write there, or nothing, once a write there has failed.
`LastWrites` is this knowledge, and `Agrees` says that a store bears it out.

The rules of use are `Agrees.wrote` for a write that has gone through and `Agrees.lost` for
one that has failed: the store may have changed in its range and nowhere else.
-/

set_option autoImplicit false

namespace OpenDS.Library

universe u

/-- The byte that is known at a position, if any is. -/
abbrev LastWrites (β : Type u) := Nat → Option β

namespace LastWrites

variable {β : Type u}

/-- Nothing is known. -/
def nothing : LastWrites β := fun _ => none

/-- `n` bytes have been written at a position. -/
def wrote (known : LastWrites β) (pos n : Nat) (data : Nat → β) : LastWrites β := fun p =>
  if pos ≤ p ∧ p < pos + n then some (data (p - pos)) else known p

/-- A write of `n` bytes at a position has failed. -/
def lost (known : LastWrites β) (pos n : Nat) : LastWrites β := fun p =>
  if pos ≤ p ∧ p < pos + n then none else known p

/-- A write of `size` bytes at a position has reported a count, or an error. -/
def reported (known : LastWrites β) (pos size : Nat) (ret : Int) (data : Nat → β) :
    LastWrites β :=
  if ret < 0 then known.lost pos size else known.wrote pos ret.toNat data

variable {known : LastWrites β} {pos n p : Nat} {data : Nat → β} {b : β}

theorem wrote_of_mem (low : pos ≤ p) (high : p < pos + n) :
    known.wrote pos n data p = some (data (p - pos)) :=
  if_pos ⟨low, high⟩

theorem wrote_of_not_mem (outside : ¬ (pos ≤ p ∧ p < pos + n)) :
    known.wrote pos n data p = known p :=
  if_neg outside

theorem lost_eq_some_iff :
    known.lost pos n p = some b ↔ ¬ (pos ≤ p ∧ p < pos + n) ∧ known p = some b := by
  unfold lost
  split
  · rename_i inside
    exact ⟨nofun, fun both => absurd inside both.1⟩
  · rename_i outside
    exact ⟨fun here => ⟨outside, here⟩, fun both => both.2⟩

variable [Zero β] {f f' : ByteFile β}

/-- The file has every byte that is known. -/
structure Agrees (known : LastWrites β) (f : ByteFile β) : Prop where
  byte : ∀ {p b}, known p = some b → f.byte p = b
  inside : ∀ {p b}, known p = some b → p < f.length

theorem Agrees.nothing (f : ByteFile β) : Agrees nothing f := ⟨nofun, nofun⟩

/-- Less is known. -/
theorem Agrees.mono {less : LastWrites β} (agrees : Agrees known f)
    (fewer : ∀ {p b}, less p = some b → known p = some b) : Agrees less f :=
  ⟨fun here => agrees.byte (fewer here), fun here => agrees.inside (fewer here)⟩

/-- **A write that has failed** may have changed its range and nothing else. -/
theorem Agrees.lost (agrees : Agrees known f)
    (kept : ∀ p, ¬ (pos ≤ p ∧ p < pos + n) → f'.byte p = f.byte p) (longer : f.length ≤ f'.length) :
    Agrees (known.lost pos n) f' := by
  refine ⟨fun {p b} here => ?_, fun {p b} here => ?_⟩
  · obtain ⟨outside, before⟩ := lost_eq_some_iff.mp here
    rw [kept p outside]
    exact agrees.byte before
  · obtain ⟨-, before⟩ := lost_eq_some_iff.mp here
    exact Nat.lt_of_lt_of_le (agrees.inside before) longer

/-- **A write that has gone through** gives its range the bytes that were written. -/
theorem Agrees.wrote (agrees : Agrees known f) (pos n : Nat) (data : Nat → β) :
    Agrees (known.wrote pos n data) (f.pwrite pos n data) := by
  refine ⟨fun {p b} here => ?_, fun {p b} here => ?_⟩
  · by_cases inside : pos ≤ p ∧ p < pos + n
    · rw [wrote_of_mem inside.1 inside.2] at here
      rw [f.pwrite_byte_of_mem data inside.1 inside.2]
      exact Option.some.inj here
    · rw [wrote_of_not_mem inside] at here
      rw [f.pwrite_byte_of_not_mem data inside]
      exact agrees.byte here
  · by_cases inside : pos ≤ p ∧ p < pos + n
    · rw [f.pwrite_length_pos (by omega)]
      omega
    · rw [wrote_of_not_mem inside] at here
      have before := agrees.inside here
      by_cases none : n = 0
      · rw [none, f.pwrite_zero]
        exact before
      · rw [f.pwrite_length_pos (by omega)]
        omega

/-- Where every byte of a range is known, the file has all of it. -/
theorem Agrees.available (agrees : Agrees known f)
    (all : ∀ p, pos ≤ p → p < pos + n → (known p).isSome = true) : f.available pos n = n := by
  by_cases none : n = 0
  · rw [none]
    exact Nat.zero_min _
  · obtain ⟨b, here⟩ := Option.isSome_iff_exists.mp (all (pos + n - 1) (by omega) (by omega))
    have inside := agrees.inside here
    rw [ByteFile.available]
    omega

end LastWrites

end OpenDS.Library
