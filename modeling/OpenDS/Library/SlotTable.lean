import Mathlib

/-!
# Tables of slots

A table keeps entries in slots. Some of its first slots hold something, the others
may be used again. What the table holds is a multiset, so that it can be counted and
compared with what has come in and gone out, whatever slots it went through.

The rule of use is `held_update`: a store to one slot takes out what the slot held
and puts in what it holds now.
-/

set_option autoImplicit false

namespace OpenDS.Library

universe u

variable {α : Type u} (p : α → Bool) (t : Nat → α)

/-- What the first `n` slots hold. -/
def held (n : Nat) : Multiset α := ((Multiset.range n).map t).filter fun a => p a = true

/-- What one entry counts for. -/
def holding (a : α) : Multiset α := if p a = true then {a} else 0

@[simp] theorem held_zero : held p t 0 = 0 := by
  simp [held]

theorem holding_of_pos {a : α} (holds : p a = true) : holding p a = {a} := if_pos holds

theorem holding_of_neg {a : α} (empty : p a = false) : holding p a = 0 := by
  simp [holding, empty]

theorem held_succ (n : Nat) : held p t (n + 1) = holding p (t n) + held p t n := by
  rw [held, Multiset.range_succ, Multiset.map_cons, Multiset.filter_cons, holding, held]

/-- The first slot comes off instead of the last one. -/
theorem held_succ_front (n : Nat) :
    held p t (n + 1) = holding p (t 0) + held p (fun i => t (i + 1)) n := by
  induction n with
  | zero => rw [held_succ, held_zero, held_zero]
  | succ n ih => rw [held_succ, ih, held_succ p fun i => t (i + 1), add_left_comm]

theorem mem_held {a : α} {n : Nat} : a ∈ held p t n ↔ ∃ i, i < n ∧ t i = a ∧ p a = true := by
  simp only [held, Multiset.mem_filter, Multiset.mem_map, Multiset.mem_range]
  constructor
  · rintro ⟨⟨i, lt, here⟩, holds⟩
    exact ⟨i, lt, here, holds⟩
  · rintro ⟨i, lt, here, holds⟩
    exact ⟨⟨i, lt, here⟩, holds⟩

/-- A store past the first slots is not seen in them. -/
theorem held_update_of_le {i n : Nat} (le : n ≤ i) (a : α) :
    held p (Function.update t i a) n = held p t n := by
  induction n with
  | zero => rw [held_zero, held_zero]
  | succ n ih =>
      rw [held_succ, held_succ, ih (by omega), Function.update_of_ne (by omega)]

/-- **A store takes out what the slot held and puts in what it holds now.** -/
theorem held_update {i n : Nat} (lt : i < n) (a : α) :
    held p (Function.update t i a) n + holding p (t i) = held p t n + holding p a := by
  induction n with
  | zero => exact absurd lt (Nat.not_lt_zero i)
  | succ n ih =>
      rw [held_succ, held_succ]
      by_cases last : i = n
      · subst last
        rw [Function.update_self, held_update_of_le p t (Nat.le_refl i) a]
        abel
      · rw [Function.update_of_ne (Ne.symm last), add_assoc, ih (by omega), add_assoc]

/-- A slot that held nothing is filled. -/
theorem held_fill {i n : Nat} {a : α} (lt : i < n) (empty : p (t i) = false) (holds : p a = true) :
    held p (Function.update t i a) n = a ::ₘ held p t n := by
  have exchange := held_update p t lt a
  rw [holding_of_neg p empty, holding_of_pos p holds, add_zero] at exchange
  rw [exchange, add_comm, Multiset.singleton_add]

/-- A slot is emptied. -/
theorem held_drop {i n : Nat} {a : α} (lt : i < n) (holds : p (t i) = true) (empty : p a = false) :
    held p t n = t i ::ₘ held p (Function.update t i a) n := by
  have exchange := held_update p t lt a
  rw [holding_of_pos p holds, holding_of_neg p empty, add_zero] at exchange
  rw [← exchange, add_comm, Multiset.singleton_add]

/-- The last entry takes the place of an entry that leaves. -/
theorem held_replace_last {i n : Nat} (lt : i < n) :
    held p t n = holding p (t i) + held p (Function.update t i (t (n - 1))) (n - 1) := by
  obtain ⟨m, rfl⟩ := Nat.exists_eq_add_one_of_ne_zero (Nat.ne_of_gt (Nat.zero_lt_of_lt lt))
  rw [Nat.add_sub_cancel, held_succ]
  by_cases last : i = m
  · subst last
    rw [held_update_of_le p t (Nat.le_refl i)]
  · rw [add_comm (holding p (t i)), held_update p t (by omega), add_comm]

/-- A store that keeps what is asked of the entry is not seen in the answers. -/
theorem map_held_update {β : Type u} (f : α → β) {i n : Nat} {a : α} (lt : i < n)
    (same : p a = p (t i)) (answer : p a = true → f a = f (t i)) :
    (held p (Function.update t i a) n).map f = (held p t n).map f := by
  have exchange := congrArg (Multiset.map f) (held_update p t lt a)
  rw [Multiset.map_add, Multiset.map_add] at exchange
  have answers : (holding p a).map f = (holding p (t i)).map f := by
    rw [holding, holding, ← same]
    by_cases holds : p a = true
    · rw [if_pos holds, if_pos holds, Multiset.map_singleton, Multiset.map_singleton, answer holds]
    · rw [if_neg holds, if_neg holds]
  rw [answers] at exchange
  exact add_right_cancel exchange

theorem card_held_update {i n : Nat} {a : α} (lt : i < n) (same : p a = p (t i)) :
    (held p (Function.update t i a) n).card = (held p t n).card := by
  have units := map_held_update p t (fun _ => PUnit.unit) lt same fun _ => rfl
  simpa using congrArg Multiset.card units

/-- Two slots hold entries with two answers, if no answer is given twice. -/
theorem ne_of_nodup_held {β : Type u} (f : α → β) {i j n : Nat}
    (nodup : ((held p t n).map f).Nodup) (ltI : i < n) (ltJ : j < n) (ne : i ≠ j)
    (holdsI : p (t i) = true) (holdsJ : p (t j) = true) : f (t i) ≠ f (t j) := by
  induction n with
  | zero => exact absurd ltI (Nat.not_lt_zero i)
  | succ n ih =>
      rw [held_succ, Multiset.map_add] at nodup
      have apart : ∀ {k}, k < n → p (t k) = true → p (t n) = true → f (t k) ≠ f (t n) := by
        intro k lt holds last same
        rw [holding_of_pos p last, Multiset.map_singleton, Multiset.singleton_add,
          Multiset.nodup_cons] at nodup
        refine nodup.1 ?_
        rw [← same]
        exact Multiset.mem_map_of_mem f ((mem_held p t).mpr ⟨k, lt, rfl, holds⟩)
      by_cases lastI : i = n
      · subst lastI
        exact (apart (by omega) holdsJ holdsI).symm
      · by_cases lastJ : j = n
        · subst lastJ
          exact apart (by omega) holdsI holdsJ
        · exact ih (Multiset.nodup_add.mp nodup).2.1 (by omega) (by omega)

/-- Every slot counts when each holds something. -/
theorem card_held_of_full {n : Nat} (full : ∀ i, i < n → p (t i) = true) :
    (held p t n).card = n := by
  induction n with
  | zero => rw [held_zero, Multiset.card_zero]
  | succ n ih =>
      rw [held_succ, holding_of_pos p (full n (by omega)), Multiset.card_add,
        ih (fun i lt => full i (by omega)), Multiset.card_singleton, Nat.add_comm]

/-! ## Slots that hold several entries -/

section Contents

/-- What the first `n` slots hold together. -/
def contents (f : Nat → List α) (n : Nat) : Multiset α := ((List.range n).flatMap f : List α)

variable (f : Nat → List α)

@[simp] theorem contents_zero : contents f 0 = 0 := rfl

theorem contents_succ (n : Nat) : contents f (n + 1) = contents f n + f n := by
  rw [contents, List.range_succ, List.flatMap_append, List.flatMap_singleton, contents,
    Multiset.coe_add]

theorem contents_congr {g : Nat → List α} {n : Nat} (same : ∀ i, i < n → f i = g i) :
    contents f n = contents g n := by
  induction n with
  | zero => rfl
  | succ n ih =>
      rw [contents_succ, contents_succ, ih fun i lt => same i (by omega), same n (by omega)]

/-- **A store to a slot takes out what it held and puts in what it holds now.** -/
theorem contents_update {i n : Nat} (lt : i < n) (l : List α) :
    contents (Function.update f i l) n + f i = contents f n + l := by
  induction n with
  | zero => exact absurd lt (Nat.not_lt_zero i)
  | succ n ih =>
      rw [contents_succ, contents_succ]
      by_cases last : i = n
      · subst last
        rw [Function.update_self,
          contents_congr (Function.update f i l) fun j low => Function.update_of_ne (by omega) ..]
        abel
      · rw [Function.update_of_ne (Ne.symm last), add_right_comm, ih (by omega), add_right_comm]

/-- A slot gets one more entry. -/
theorem contents_update_cons {i n : Nat} {a : α} {l : List α} (lt : i < n)
    (more : (l : Multiset α) = a ::ₘ f i) :
    contents (Function.update f i l) n = a ::ₘ contents f n := by
  have exchange := contents_update f lt l
  rw [more, Multiset.add_cons, ← Multiset.cons_add] at exchange
  exact add_right_cancel exchange

end Contents

theorem card_held_le (n : Nat) : (held p t n).card ≤ n := by
  rw [held]
  exact (Multiset.card_le_card (Multiset.filter_le ..)).trans (by simp)

end OpenDS.Library
