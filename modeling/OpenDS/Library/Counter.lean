import Mathlib

/-!
# Free-running counters

A free-running counter counts without a bound, and a program sees its low `w` bits.
Two such words tell the distance of their counters as long as the counters lie close
together: less than `2 ^ w` apart when it is known which one is ahead, and less than
`2 ^ (w - 1)` apart when the difference is read as a signed number.
-/

set_option autoImplicit false

namespace OpenDS.Library

/-- What a program sees of a counter. -/
abbrev word (w n : Nat) : BitVec w := BitVec.ofNat w n

variable {w : Nat}

theorem word_add (a b : Nat) : word w a + word w b = word w (a + b) :=
  (BitVec.ofNat_add a b).symm

theorem word_succ (n : Nat) : word w n + 1#w = word w (n + 1) := word_add n 1

/-- The distance of two counters, of which the second one is not ahead. -/
theorem word_sub_toNat {a b : Nat} (order : a ≤ b) (close : b - a < 2 ^ w) :
    (word w b - word w a).toNat = b - a := by
  have split : word w b = word w (b - a) + word w a := by
    rw [word_add, Nat.sub_add_cancel order]
  rw [split, BitVec.add_sub_cancel]
  exact (BitVec.toNat_ofNat _ _).trans (Nat.mod_eq_of_lt close)

/-- Two counters that lie close together are equal if their words are. -/
theorem eq_of_word_eq {a b : Nat} (order : a ≤ b) (close : b - a < 2 ^ w)
    (same : word w a = word w b) : a = b := by
  have distance := word_sub_toNat order close
  rw [same, BitVec.sub_self, BitVec.toNat_zero] at distance
  omega

/-! ## Slots -/

/-- The slots of two counters in a ring of `size` slots differ if the counters lie
less than `size` apart. -/
theorem mod_ne_of_close {size a b : Nat} (order : a < b) (close : b - a < size) :
    a % size ≠ b % size := by
  intro same
  have divides : size ∣ b - a := (Nat.modEq_iff_dvd' order.le).mp same
  exact absurd (Nat.le_of_dvd (by omega) divides) (by omega)

end OpenDS.Library
