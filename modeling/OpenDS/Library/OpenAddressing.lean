import Mathlib

/-!
# Open addressing with linear probes

A table of `cap` slots that keys come into and never leave. A key is looked for from the
slot of its hash on, around the end of the table, up to the first free slot.

The invariant is `Chained`: no slot between the hash of a key and its position is free.
It is what makes the search find every key (`Chained.probes`), it is kept by an insertion
into the first free slot (`Chained.insert`), and since a table only grows it keeps
holding for what has been found once (`Grows.probes`).
-/

set_option autoImplicit false

namespace OpenDS.Library

universe u

variable {κ : Type u}

/-! ## The order of the probes -/

/-- The slot of a probe, from the hash `h` on. -/
def slotAt (h cap p : Nat) : Nat := (h + p) % cap

variable {h cap p q i j : Nat}

theorem slotAt_lt (room : 0 < cap) : slotAt h cap p < cap := Nat.mod_lt _ room

/-- No slot is probed twice. -/
theorem slotAt_injective (low : p < cap) (low' : q < cap) (same : slotAt h cap p = slotAt h cap q) :
    p = q :=
  Nat.ModEq.eq_of_lt_of_lt (Nat.ModEq.add_left_cancel' h same) low low'

/-- Every slot is probed. -/
theorem exists_slotAt (low : i < cap) : ∃ p, p < cap ∧ slotAt h cap p = i := by
  have room : 0 < cap := Nat.lt_of_le_of_lt (Nat.zero_le i) low
  refine ⟨(i + (cap - h % cap)) % cap, Nat.mod_lt _ room, ?_⟩
  have around : h + (i + (cap - h % cap)) = i + cap * (h / cap + 1) := by
    have parts := Nat.div_add_mod h cap
    have rest := Nat.mod_lt h room
    rw [Nat.mul_add]
    omega
  rw [slotAt, Nat.add_mod_mod, around, Nat.add_mul_mod_self_left, Nat.mod_eq_of_lt low]

/-! ## Tables -/

/-- The keys of the slots below `cap` can be found: each is behind no free slot, and in
one slot only. -/
structure Chained (hash : κ → Nat) (cap : Nat) (keys : Nat → Option κ) : Prop where
  chain : ∀ i k, i < cap → keys i = some k → ∃ p, p < cap ∧ slotAt (hash k) cap p = i ∧
    ∀ q, q < p → keys (slotAt (hash k) cap q) ≠ none
  once : ∀ i j k, i < cap → j < cap → keys i = some k → keys j = some k → i = j

/-- Every key stays where it is. -/
def Grows (keys keys' : Nat → Option κ) : Prop := ∀ i k, keys i = some k → keys' i = some k

/-- The search for a key passes other keys until it reaches the key at a slot. -/
structure Probes (hash : κ → Nat) (cap : Nat) (keys : Nat → Option κ) (k : κ) (i p : Nat) :
    Prop where
  inTable : p < cap
  slot : slotAt (hash k) cap p = i
  here : keys i = some k
  passes : ∀ q, q < p → ∃ k', keys (slotAt (hash k) cap q) = some k' ∧ k' ≠ k

variable {hash : κ → Nat} {keys keys' keys'' : Nat → Option κ} {k : κ}

theorem Grows.refl (keys : Nat → Option κ) : Grows keys keys := fun _ _ => id

theorem Grows.trans (first : Grows keys keys') (second : Grows keys' keys'') : Grows keys keys'' :=
  fun i k here => second i k (first i k here)

/-- A free slot is filled. -/
theorem Grows.update (free : keys i = none) (k : κ) :
    Grows keys (Function.update keys i (some k)) := by
  intro j k' here
  by_cases same : j = i
  · rw [same, free] at here
    cases here
  · rwa [Function.update_of_ne same]

/-- What has been found once is found again. -/
theorem Grows.probes (grows : Grows keys keys') (probes : Probes hash cap keys k i p) :
    Probes hash cap keys' k i p :=
  ⟨probes.inTable, probes.slot, grows i k probes.here, fun q before =>
    (probes.passes q before).imp fun k' passed => ⟨grows _ k' passed.1, passed.2⟩⟩

theorem Chained.empty (hash : κ → Nat) (cap : Nat) : Chained hash cap fun _ => none :=
  ⟨nofun, nofun⟩

/-- **A key of the table is found.** -/
theorem Chained.probes (chained : Chained hash cap keys) (low : i < cap) (here : keys i = some k) :
    ∃ p, Probes hash cap keys k i p := by
  obtain ⟨p, inTable, slot, occupied⟩ := chained.chain i k low here
  refine ⟨p, inTable, slot, here, fun q before => ?_⟩
  obtain ⟨k', passed⟩ := Option.ne_none_iff_exists'.mp (occupied q before)
  refine ⟨k', passed, ?_⟩
  rintro rfl
  have room : 0 < cap := Nat.lt_of_le_of_lt (Nat.zero_le i) low
  have same := chained.once _ i k' (slotAt_lt room) low passed here
  rw [← slot] at same
  have equal := slotAt_injective (Nat.lt_trans before inTable) inTable same
  omega

/-- **A new key in the first free slot of its search** keeps the table in order. -/
theorem Chained.insert (chained : Chained hash cap keys) (absent : ∀ i, i < cap → keys i ≠ some k)
    (inTable : p < cap) (free : keys (slotAt (hash k) cap p) = none)
    (occupied : ∀ q, q < p → keys (slotAt (hash k) cap q) ≠ none) :
    Chained hash cap (Function.update keys (slotAt (hash k) cap p) (some k)) := by
  have grows := Grows.update free k
  have stays : ∀ j, keys j ≠ none →
      Function.update keys (slotAt (hash k) cap p) (some k) j ≠ none := by
    intro j some
    obtain ⟨k', here⟩ := Option.ne_none_iff_exists'.mp some
    rw [grows j k' here]
    exact nofun
  constructor
  · intro i k' low here
    by_cases new : i = slotAt (hash k) cap p
    · rw [new, Function.update_self] at here
      cases here
      exact ⟨p, inTable, new.symm, fun q before => stays _ (occupied q before)⟩
    · rw [Function.update_of_ne new] at here
      obtain ⟨p', inTable', slot, chain⟩ := chained.chain i k' low here
      exact ⟨p', inTable', slot, fun q before => stays _ (chain q before)⟩
  · intro i j k' low low' here here'
    by_cases new : i = slotAt (hash k) cap p
    · by_cases new' : j = slotAt (hash k) cap p
      · rw [new, new']
      · rw [new, Function.update_self] at here
        cases here
        rw [Function.update_of_ne new'] at here'
        exact absurd here' (absent j low')
    · rw [Function.update_of_ne new] at here
      by_cases new' : j = slotAt (hash k) cap p
      · rw [new', Function.update_self] at here'
        cases here'
        exact absurd here (absent i low)
      · rw [Function.update_of_ne new'] at here'
        exact chained.once i j k' low low' here here'

/-- **The search for a free slot ends** while the keys are numbered below the capacity:
there is a first free slot. -/
theorem exists_firstFree (number : Nat → Nat) {n : Nat} (room : n < cap)
    (low : ∀ i, i < cap → keys i ≠ none → number i < n)
    (distinct : ∀ i j, i < cap → j < cap → keys i ≠ none → keys j ≠ none →
      number i = number j → i = j) (h : Nat) :
    ∃ p, p < cap ∧ keys (slotAt h cap p) = none ∧ ∀ q, q < p → keys (slotAt h cap q) ≠ none := by
  have free : ∃ p, p < cap ∧ keys (slotAt h cap p) = none := by
    by_contra full
    have occupied : ∀ i, i < cap → keys i ≠ none := by
      intro i low none
      obtain ⟨p, inTable, slot⟩ := exists_slotAt (h := h) low
      exact full ⟨p, inTable, by rw [slot, none]⟩
    -- More slots than numbers.
    obtain ⟨i, inI, j, inJ, other, same⟩ := Finset.exists_ne_map_eq_of_card_lt_of_maps_to
      (s := Finset.range cap) (t := Finset.range n) (f := number)
      (by rw [Finset.card_range, Finset.card_range]; exact room)
      (fun i inTable => Finset.mem_range.mpr
        (low i (Finset.mem_range.mp inTable) (occupied i (Finset.mem_range.mp inTable))))
    rw [Finset.mem_range] at inI inJ
    exact other (distinct i j inI inJ (occupied i inI) (occupied j inJ) same)
  classical
  obtain ⟨inTable, none⟩ := Nat.find_spec free
  exact ⟨Nat.find free, inTable, none, fun q before some =>
    Nat.find_min free before ⟨Nat.lt_trans before inTable, some⟩⟩

end OpenDS.Library
