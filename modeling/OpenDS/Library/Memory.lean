import Mathlib

/-!
# Byte memories with several address spaces

A memory assigns a byte to every address of every address space. Pointers of
different spaces never alias, so an allocation that is known to be disjoint
from everything else is a space of its own, and inside one space two ranges
are compared by their addresses.

The one write operation is `blit`: it stores a run of bytes at a pointer. A
write is *faithful to* a target when it stores at every address the byte the
target has there. Faithful writes commute in effect: after any number of them,
in any order, an address holds the target byte if some write covered it and
its old byte otherwise (`Stamped.blit`).
-/

set_option autoImplicit false

namespace OpenDS.Library

universe u v

/-- A pointer: an address space and an address in it. -/
structure Ptr (σ : Type u) where
  space : σ
  addr : Int
  deriving DecidableEq, Repr

/-- Pointer arithmetic in bytes. -/
def Ptr.add {σ : Type u} (p : Ptr σ) (n : Nat) : Ptr σ := ⟨p.space, p.addr + n⟩

@[simp] theorem Ptr.add_space {σ : Type u} (p : Ptr σ) (n : Nat) : (p.add n).space = p.space := rfl

@[simp] theorem Ptr.add_addr {σ : Type u} (p : Ptr σ) (n : Nat) : (p.add n).addr = p.addr + n := rfl

@[simp] theorem Ptr.add_zero {σ : Type u} (p : Ptr σ) : p.add 0 = p := by
  simp [Ptr.add]

@[simp] theorem Ptr.add_add {σ : Type u} (p : Ptr σ) (m n : Nat) :
    (p.add m).add n = p.add (m + n) := by
  simp [Ptr.add, Int.add_assoc]

/-- The bytes of every address space. -/
abbrev Memory (σ : Type u) (β : Type v) := σ → Int → β

/-- The address lies in the run of `n` bytes at the pointer. -/
def Ptr.Covers {σ : Type u} (p : Ptr σ) (n : Nat) (s : σ) (a : Int) : Prop :=
  s = p.space ∧ p.addr ≤ a ∧ a < p.addr + n

namespace Memory

variable {σ : Type u} {β : Type v}

/-- Store `n` bytes at a pointer. -/
def blit [DecidableEq σ] (m : Memory σ β) (p : Ptr σ) (n : Nat) (data : Nat → β) :
    Memory σ β :=
  fun s a => if s = p.space ∧ p.addr ≤ a ∧ a < p.addr + n then data (a - p.addr).toNat else m s a

/-- Load the byte `k` past a pointer. -/
def load (m : Memory σ β) (p : Ptr σ) (k : Nat) : β := m p.space (p.addr + k)

variable [DecidableEq σ] (m : Memory σ β) (p : Ptr σ) (n : Nat) (data : Nat → β)

theorem blit_of_covers {s : σ} {a : Int} (covered : p.Covers n s a) :
    m.blit p n data s a = data (a - p.addr).toNat := by
  simp only [blit, if_pos (show s = p.space ∧ p.addr ≤ a ∧ a < p.addr + n from covered)]

theorem blit_of_not_covers {s : σ} {a : Int} (outside : ¬ p.Covers n s a) :
    m.blit p n data s a = m s a := by
  simp only [blit, if_neg (show ¬ (s = p.space ∧ p.addr ≤ a ∧ a < p.addr + n) from outside)]

theorem blit_of_space_ne {s : σ} (different : s ≠ p.space) (a : Int) :
    m.blit p n data s a = m s a :=
  blit_of_not_covers m p n data fun covered => different covered.1

theorem load_blit_of_lt {k : Nat} (within : k < n) : (m.blit p n data).load p k = data k := by
  have covered : p.Covers n p.space (p.addr + k) := ⟨rfl, by omega, by omega⟩
  rw [load, blit_of_covers m p n data covered]
  congr 1
  omega

/-- Move `n` bytes from one pointer to another. -/
def copy (dst src : Ptr σ) : Memory σ β := m.blit dst n (m.load src)

variable {n} {dst src : Ptr σ}

/-- A copy between two spaces leaves nothing for a second one. -/
theorem copy_copy (apart : 0 < n → dst.space ≠ src.space) :
    (m.copy n dst src).copy n dst src = m.copy n dst src := by
  funext space a
  by_cases covered : dst.Covers n space a
  · have some : 0 < n := by
      have := covered.2
      omega
    rw [copy, blit_of_covers _ _ _ _ covered, copy, blit_of_covers _ _ _ _ covered, load,
      blit_of_space_ne _ _ _ _ (Ne.symm (apart some))]
    rfl
  · rw [copy, blit_of_not_covers _ _ _ _ covered]

end Memory

/-! ## Faithful writes -/

section Stamped

variable {σ : Type u} {β : Type v}

/-- The memory holds the target byte at every stamped address of the space and
the original byte everywhere else in it. -/
def Stamped (space : σ) (original m : Memory σ β) (target : Int → β) (stamped : Int → Prop) :
    Prop :=
  ∀ a, (stamped a → m space a = target a) ∧ (¬ stamped a → m space a = original space a)

theorem Stamped.none (space : σ) (m : Memory σ β) (target : Int → β) :
    Stamped space m m target fun _ => False :=
  fun _ => ⟨False.elim, fun _ => rfl⟩

theorem Stamped.congr {space : σ} {original m : Memory σ β} {target : Int → β}
    {stamped other : Int → Prop} (stamp : Stamped space original m target stamped)
    (same : ∀ a, other a ↔ stamped a) : Stamped space original m target other :=
  fun a => ⟨fun h => (stamp a).1 ((same a).mp h), fun h => (stamp a).2 fun g => h ((same a).mpr g)⟩

/-- **A faithful write stamps the addresses it covers and keeps the others.** -/
theorem Stamped.blit [DecidableEq σ] {space : σ} {original m : Memory σ β} {target : Int → β}
    {stamped : Int → Prop} (stamp : Stamped space original m target stamped)
    (p : Ptr σ) (n : Nat) (data : Nat → β) (inSpace : p.space = space)
    (faithful : ∀ k, k < n → data k = target (p.addr + k)) :
    Stamped space original (m.blit p n data) target
      fun a => stamped a ∨ p.Covers n space a := by
  intro a
  by_cases covered : p.Covers n space a
  · rw [Memory.blit_of_covers m p n data covered]
    obtain ⟨-, low, high⟩ := covered
    have value := faithful (a - p.addr).toNat (by omega)
    have address : p.addr + ((a - p.addr).toNat : Int) = a := by omega
    rw [address] at value
    exact ⟨fun _ => value, fun outside => absurd (.inr ⟨inSpace.symm, low, high⟩) outside⟩
  · rw [Memory.blit_of_not_covers m p n data covered]
    exact ⟨fun h => (stamp a).1 (h.resolve_right covered), fun h => (stamp a).2 fun g => h (.inl g)⟩

/-- A write to another space keeps the stamps. -/
theorem Stamped.blit_of_space_ne [DecidableEq σ] {space : σ} {original m : Memory σ β}
    {target : Int → β} {stamped : Int → Prop} (stamp : Stamped space original m target stamped)
    (p : Ptr σ) (n : Nat) (data : Nat → β) (elsewhere : p.space ≠ space) :
    Stamped space original (m.blit p n data) target stamped := by
  intro a
  rw [Memory.blit_of_space_ne m p n data (Ne.symm elsewhere)]
  exact stamp a

end Stamped

end OpenDS.Library
