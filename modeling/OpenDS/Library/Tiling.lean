import Mathlib

/-!
# Tilings

Pieces with a start and a length tile an interval if the first one starts where the
interval does, each other one where the one before it ends, and the last one ends where the
interval does, and none is empty.

What a tiling is good for follows from the two constructors: its pieces are in order and do
not overlap, and they cover the interval and nothing else.
-/

set_option autoImplicit false

namespace OpenDS.Library

universe u

variable {α : Type u}

/-- The pieces tile the interval from `lo` to `hi`. -/
inductive Tiles (start length : α → Nat) : Nat → Nat → List α → Prop where
  | nil (lo : Nat) : Tiles start length lo lo []
  | cons {hi : Nat} {piece : α} {rest : List α} : 0 < length piece →
      Tiles start length (start piece + length piece) hi rest →
      Tiles start length (start piece) hi (piece :: rest)

namespace Tiles

variable {start length : α → Nat} {lo hi : Nat} {pieces : List α}

theorem le (tiles : Tiles start length lo hi pieces) : lo ≤ hi := by
  induction tiles with
  | nil lo => exact Nat.le_refl lo
  | cons _ _ ih => omega

theorem bounds (tiles : Tiles start length lo hi pieces) :
    ∀ piece ∈ pieces, lo ≤ start piece ∧ start piece + length piece ≤ hi := by
  induction tiles with
  | nil => exact fun piece member => by cases member
  | cons some later ih =>
      intro piece member
      rcases List.mem_cons.mp member with rfl | member
      · exact ⟨Nat.le_refl _, later.le⟩
      · obtain ⟨low, high⟩ := ih piece member
        exact ⟨by omega, high⟩

/-- **The pieces are in order and do not overlap.** -/
theorem pairwise (tiles : Tiles start length lo hi pieces) :
    pieces.Pairwise fun piece piece' => start piece + length piece ≤ start piece' := by
  induction tiles with
  | nil => exact List.Pairwise.nil
  | cons some later ih => exact List.Pairwise.cons (fun piece member => (later.bounds piece member).1) ih

/-- **The pieces cover the interval and nothing else.** -/
theorem covers_iff (tiles : Tiles start length lo hi pieces) (p : Nat) :
    (∃ piece ∈ pieces, start piece ≤ p ∧ p < start piece + length piece) ↔ lo ≤ p ∧ p < hi := by
  induction tiles with
  | nil lo =>
      refine iff_of_false ?_ (by omega)
      rintro ⟨piece, member, -⟩
      cases member
  | @cons hi piece rest some later ih =>
      have order := later.le
      rw [List.exists_mem_cons_iff, ih]
      omega

end Tiles

end OpenDS.Library
