import Mathlib

/-!
# Loops that return early

`for (p = 0; p < n; p++)` with a body that may return. The loop is a function of its
body, so it ends; what it returns is what the first body returns that does
(`firstReturn_eq_some_iff`).
-/

set_option autoImplicit false

namespace OpenDS.Library

universe u

variable {β : Type u}

/-- The first of `n` bodies from `p` on that returns. -/
def firstReturn (body : Nat → Option β) : (n p : Nat) → Option β
  | 0, _ => none
  | n + 1, p =>
    match body p with
    | some b => some b
    | none => firstReturn body n (p + 1)

variable {body : Nat → Option β} {n p r : Nat} {b : β}

theorem firstReturn_of_some (here : body p = some b) : firstReturn body (n + 1) p = some b := by
  rw [firstReturn, here]

theorem firstReturn_of_none (here : body p = none) :
    firstReturn body (n + 1) p = firstReturn body n (p + 1) := by
  rw [firstReturn, here]

/-- The loop returns nothing exactly if no body does. -/
theorem firstReturn_eq_none_iff :
    firstReturn body n p = none ↔ ∀ q, p ≤ q → q < p + n → body q = none := by
  induction n generalizing p with
  | zero => exact ⟨fun _ q low high => by omega, fun _ => rfl⟩
  | succ n ih =>
      cases here : body p with
      | some b =>
          rw [firstReturn_of_some here]
          refine ⟨nofun, fun none => ?_⟩
          rw [none p (Nat.le_refl p) (by omega)] at here
          cases here
      | none =>
          rw [firstReturn_of_none here, ih]
          refine ⟨fun later q low high => ?_, fun none q low high => none q (by omega) (by omega)⟩
          by_cases first : q = p
          · rw [first, here]
          · exact later q (by omega) (by omega)

/-- The loop returns what the first body returns that does. -/
theorem firstReturn_eq_some_iff :
    firstReturn body n p = some b ↔
      ∃ r, p ≤ r ∧ r < p + n ∧ body r = some b ∧ ∀ q, p ≤ q → q < r → body q = none := by
  induction n generalizing p with
  | zero =>
      refine ⟨nofun, ?_⟩
      rintro ⟨r, low, high, -⟩
      omega
  | succ n ih =>
      cases here : body p with
      | some b' =>
          rw [firstReturn_of_some here]
          constructor
          · intro same
            exact ⟨p, Nat.le_refl p, by omega, here.trans same, fun q low high => by omega⟩
          · rintro ⟨r, low, -, returns, before⟩
            by_cases first : p = r
            · rw [← here, first, returns]
            · rw [before p (Nat.le_refl p) (by omega)] at here
              cases here
      | none =>
          rw [firstReturn_of_none here, ih]
          constructor
          · rintro ⟨r, low, high, returns, before⟩
            refine ⟨r, by omega, by omega, returns, fun q low' high' => ?_⟩
            by_cases first : q = p
            · rw [first, here]
            · exact before q (by omega) high'
          · rintro ⟨r, low, high, returns, before⟩
            have later : p ≠ r := by
              rintro rfl
              rw [here] at returns
              cases returns
            exact ⟨r, by omega, by omega, returns, fun q low' high' => before q (by omega) high'⟩

end OpenDS.Library
