import Mathlib

/-!
# Logs of acquired and released resources

A log lists what was acquired and what was released, the latest event first. A log is
`Disciplined` if nothing was acquired while it was held and nothing was released that
was not held.

In a disciplined log everything has been released as often as it has been acquired, but
for what is still held (`Disciplined.count`). A holder that writes down what it acquires
and strikes out what it releases has a list of what is held (`Records`). A procedure that
acquires no resource twice leaves a log of its own kind (`Once`).
-/

set_option autoImplicit false

namespace OpenDS.Library

universe u

/-- A resource is acquired or released. -/
inductive Usage (κ : Type u) where
  | acquire (k : κ)
  | release (k : κ)
  deriving DecidableEq, Repr

namespace Usage

variable {κ : Type u} [DecidableEq κ]

/-- The resources that are held after the events of a log. -/
def outstanding : List (Usage κ) → Finset κ
  | [] => ∅
  | .acquire k :: past => insert k (outstanding past)
  | .release k :: past => (outstanding past).erase k

/-- What is acquired is not held before, and what is released is. -/
def Disciplined : List (Usage κ) → Prop
  | [] => True
  | .acquire k :: past => k ∉ outstanding past ∧ Disciplined past
  | .release k :: past => k ∈ outstanding past ∧ Disciplined past

variable {k : κ} {past : List (Usage κ)}

@[simp] theorem outstanding_nil : outstanding ([] : List (Usage κ)) = ∅ := rfl

@[simp] theorem outstanding_acquire :
    outstanding (.acquire k :: past) = insert k (outstanding past) := rfl

@[simp] theorem outstanding_release :
    outstanding (.release k :: past) = (outstanding past).erase k := rfl

/-- **What was acquired was released once each time, but for what is held.** -/
theorem Disciplined.count (disciplined : Disciplined past) (k : κ) :
    past.count (.acquire k) = past.count (.release k) + if k ∈ outstanding past then 1 else 0 := by
  induction past with
  | nil => rfl
  | cons e past ih =>
      cases e with
      | acquire k' =>
          have before := ih disciplined.2
          by_cases same : k' = k
          · subst same
            rw [if_neg disciplined.1] at before
            simp [before]
          · simp [before, same, Ne.symm same]
      | release k' =>
          have before := ih disciplined.2
          by_cases same : k' = k
          · subst same
            rw [if_pos disciplined.1] at before
            simp [before]
          · simp [before, same, Ne.symm same]

/-- Once nothing is held, each resource has been released as often as it was
acquired. -/
theorem Disciplined.balanced (disciplined : Disciplined past) (none : outstanding past = ∅)
    (k : κ) : past.count (.acquire k) = past.count (.release k) := by
  have each := disciplined.count k
  rw [none, if_neg (Finset.notMem_empty k)] at each
  exact each

/-- The resource was released between two states of the log. -/
def Released (older newer : List (Usage κ)) (k : κ) : Prop :=
  older.count (.release k) < newer.count (.release k)

/-- If the resource was not acquired in between, it was released exactly if it was held
before and is not now. -/
theorem released_iff {older newer : List (Usage κ)} (before : Disciplined older)
    (now : Disciplined newer) (same : newer.count (.acquire k) = older.count (.acquire k)) :
    Released older newer k ↔ k ∈ outstanding older ∧ k ∉ outstanding newer := by
  have first := before.count k
  have second := now.count k
  unfold Released
  constructor
  · intro more
    by_cases held : k ∈ outstanding older
    · refine ⟨held, fun still => ?_⟩
      rw [if_pos held] at first
      rw [if_pos still] at second
      omega
    · rw [if_neg held] at first
      omega
  · rintro ⟨held, gone⟩
    rw [if_pos held] at first
    rw [if_neg gone] at second
    omega

theorem not_released_self (log : List (Usage κ)) : ¬ Released log log k :=
  Nat.lt_irrefl _

/-- What was released over two stretches was released in one of them. -/
theorem Released.split {older mid newer : List (Usage κ)} (released : Released older newer k) :
    Released older mid k ∨ Released mid newer k := by
  unfold Released at *
  omega

/-! ## Logs of one kind of resource among others -/

/-- The event of a resource that counts as another one. -/
def map {κ' : Type*} (f : κ → κ') : Usage κ → Usage κ'
  | .acquire k => .acquire (f k)
  | .release k => .release (f k)

section Map

variable {κ' : Type*} [DecidableEq κ'] {f : κ → κ'} {log₀ : List (Usage κ')}

theorem outstanding_map (injective : Function.Injective f) (before : outstanding log₀ = ∅)
    (log : List (Usage κ)) :
    outstanding (log.map (Usage.map f) ++ log₀) = (outstanding log).image f := by
  induction log with
  | nil => simpa using before
  | cons e past ih =>
      cases e with
      | acquire k =>
          simp only [List.map_cons, List.cons_append, Usage.map, outstanding_acquire, ih,
            Finset.image_insert]
      | release k =>
          simp only [List.map_cons, List.cons_append, Usage.map, outstanding_release, ih,
            Finset.image_erase injective]

theorem Disciplined.map (injective : Function.Injective f) (before : outstanding log₀ = ∅)
    (started : Disciplined log₀) {log : List (Usage κ)} (disciplined : Disciplined log) :
    Disciplined (log.map (Usage.map f) ++ log₀) := by
  induction log with
  | nil => exact started
  | cons e past ih =>
      have held := outstanding_map injective before past
      cases e with
      | acquire k =>
          refine ⟨fun mem => disciplined.1 ?_, ih disciplined.2⟩
          exact (injective.mem_finset_image).mp (held ▸ mem)
      | release k =>
          have mem : f k ∈ (outstanding past).image f := Finset.mem_image_of_mem f disciplined.1
          exact ⟨held ▸ mem, ih disciplined.2⟩

end Map

/-! ## What a holder has written down -/

/-- The list of a holder has what is held, each resource once, and the log is
disciplined. -/
structure Records (list : Multiset κ) (log : List (Usage κ)) : Prop where
  held : list = (outstanding log).val
  disciplined : Disciplined log

namespace Records

variable {list : Multiset κ} {log : List (Usage κ)}

theorem nil : Records (0 : Multiset κ) [] := ⟨rfl, trivial⟩

theorem mem_iff (records : Records list log) : k ∈ list ↔ k ∈ outstanding log := by
  rw [records.held, Finset.mem_val]

theorem nodup (records : Records list log) : list.Nodup := by
  rw [records.held]
  exact (outstanding log).nodup

/-- A resource that is not held is acquired. -/
theorem acquire (records : Records list log) (new : k ∉ outstanding log) :
    Records (k ::ₘ list) (.acquire k :: log) := by
  refine ⟨?_, new, records.disciplined⟩
  rw [outstanding_acquire, Finset.insert_val_of_notMem new, records.held]

/-- A resource on the list is released. -/
theorem release (records : Records (k ::ₘ list) log) : Records list (.release k :: log) := by
  refine ⟨?_, records.mem_iff.mp (Multiset.mem_cons_self k list), records.disciplined⟩
  rw [outstanding_release, Finset.erase_val, ← records.held, Multiset.erase_cons_head]

/-- A log of its own is a part of another one that holds nothing. -/
theorem map {κ' : Type*} [DecidableEq κ'] {f : κ → κ'} (injective : Function.Injective f)
    {log₀ : List (Usage κ')} (before : Records (0 : Multiset κ') log₀)
    (records : Records list log) : Records (list.map f) (log.map (Usage.map f) ++ log₀) := by
  have none : outstanding log₀ = ∅ := Finset.val_eq_zero.mp before.held.symm
  refine ⟨?_, .map injective none before.disciplined records.disciplined⟩
  rw [outstanding_map injective none, records.held, Finset.image_val_of_injOn injective.injOn]

/-- The resources of a list are released, one after the other. -/
theorem releaseAll {gone : List κ} (records : Records ((gone : Multiset κ) + list) log) :
    Records list ((gone.map .release).reverse ++ log) := by
  induction gone generalizing log with
  | nil => simpa using records
  | cons k rest ih =>
      rw [← Multiset.cons_coe, Multiset.cons_add] at records
      have later := ih records.release
      rwa [List.map_cons, List.reverse_cons, List.append_assoc, List.singleton_append]

/-- Nothing is held when the list is empty. -/
theorem nothing (records : Records 0 log) : outstanding log = ∅ :=
  Finset.val_eq_zero.mp records.held.symm

end Records

/-! ## Resources that are acquired once -/

/-- The log is disciplined and leaves `held`, and it has acquired nothing but `used`, each
resource once. -/
structure Once (held used : Set κ) (log : List (Usage κ)) : Prop where
  held : ∀ k, k ∈ outstanding log ↔ k ∈ held
  disciplined : Disciplined log
  used : ∀ k, .acquire k ∈ log → k ∈ used
  once : ∀ k, log.count (.acquire k) ≤ 1

namespace Once

variable {held used : Set κ} {log : List (Usage κ)}

theorem nil : Once (∅ : Set κ) ∅ [] :=
  ⟨fun _ => by simp, trivial, fun _ acquired => absurd acquired List.not_mem_nil,
    fun _ => Nat.zero_le 1⟩

/-- What is held has been acquired. -/
theorem subset (once : Once held used log) : held ⊆ used := by
  intro k mem
  have count := once.disciplined.count k
  rw [if_pos ((once.held k).mpr mem)] at count
  exact once.used k (List.count_pos_iff.mp (by omega))

theorem congr (once : Once held used log) {held' : Set κ} (same : ∀ k, k ∈ held ↔ k ∈ held') :
    Once held' used log :=
  ⟨fun k => (once.held k).trans (same k), once.disciplined, once.used, once.once⟩

theorem mono (once : Once held used log) {used' : Set κ} (more : used ⊆ used') :
    Once held used' log :=
  ⟨once.held, once.disciplined, fun k acquired => more (once.used k acquired), once.once⟩

theorem acquire (once : Once held used log) (new : k ∉ used) :
    Once (insert k held) (insert k used) (.acquire k :: log) := by
  have absent : .acquire k ∉ log := fun acquired => new (once.used k acquired)
  refine ⟨fun j => by simp [once.held j], ⟨fun mem => ?_, once.disciplined⟩, fun j acquired => ?_,
    fun j => ?_⟩
  · exact new (once.subset ((once.held k).mp mem))
  · rcases List.mem_cons.mp acquired with same | before
    · cases same
      exact Set.mem_insert k used
    · exact Set.mem_insert_of_mem k (once.used j before)
  · by_cases same : j = k
    · subst same
      rw [List.count_cons_self, List.count_eq_zero_of_not_mem absent]
    · rw [List.count_cons_of_ne (fun eq => same (Usage.acquire.inj eq).symm)]
      exact once.once j

theorem release (once : Once held used log) (mem : k ∈ held) :
    Once (held \ {k}) used (.release k :: log) := by
  refine ⟨fun j => ?_, ⟨(once.held k).mpr mem, once.disciplined⟩, fun j acquired => ?_, fun j => ?_⟩
  · simp [once.held j, and_comm]
  · rcases List.mem_cons.mp acquired with same | before
    · cases same
    · exact once.used j before
  · have other : Usage.release k ≠ .acquire j := nofun
    rw [List.count_cons_of_ne other]
    exact once.once j

/-- The resource that was acquired last of those that are held is released. -/
theorem undo (once : Once (insert k held) used log) (new : k ∉ held) :
    Once held used (.release k :: log) := by
  have rest := once.release (Set.mem_insert k held)
  rwa [Set.insert_sdiff_self_of_notMem new] at rest

end Once

end Usage

end OpenDS.Library
