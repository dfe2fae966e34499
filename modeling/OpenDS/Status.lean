import Mathlib

/-!
# Status codes and the C integers they travel in

An operation reports either a byte count or a negated `opends_op_error_t`
through one `ssize_t`.
-/

set_option autoImplicit false

namespace OpenDS

/-- The members of `opends_op_error_t` that the modelled paths produce. -/
inductive OpError where
  | deviceDriverError
  | invalidValue
  | internalError
  | fsSetupError
  deriving DecidableEq, Repr

/-- The value of the enumerator in `opends.h`. -/
def OpError.code : OpError → Int
  | .deviceDriverError => 5011
  | .invalidValue => 5022
  | .internalError => 5030
  | .fsSetupError => 5033

theorem OpError.code_pos (e : OpError) : 0 < e.code := by
  cases e <;> decide

theorem OpError.code_injective {e f : OpError} (same : e.code = f.code) : e = f := by
  cases e <;> cases f <;> first | rfl | exact absurd same (by decide)

/-- The conversion `(ssize_t)n` of a `size_t`. -/
def ssize (n : Nat) : Int := Int.bmod n (2 ^ 64)

theorem ssize_of_lt {n : Nat} (small : n < 2 ^ 63) : ssize n = n := by
  unfold ssize
  rw [Int.bmod_def]
  omega

/-- The conversion `(uint64_t)x` of an `off_t`. -/
def u64 (x : Int) : Nat := (x % 2 ^ 64).toNat

theorem u64_lt (x : Int) : u64 x < 2 ^ 64 := by
  unfold u64
  omega

theorem u64_of_nonneg {x : Int} (nonneg : 0 ≤ x) (small : x < 2 ^ 63) : u64 x = x.toNat := by
  unfold u64
  omega

end OpenDS
