import Mathlib

/-!
# Machines and their runs

A machine takes one step at a time. A label resolves every choice of a step (who
moves, what the environment answers), so a run is a list of labels, and a run on
concrete labels can be computed.

The rule of use is `Machine.run_invariant`: an invariant that every step keeps
holds after every run. The steps of a run may be required to satisfy a condition
on the state before them (`Machine.Meets`).
-/

set_option autoImplicit false

namespace OpenDS.Library

universe u v

/-! Shortcuts for the numerals of one and of two parties. -/

instance neZero_one : NeZero 1 := inferInstance

instance neZero_two : NeZero 2 := inferInstance

/-- Labelled steps. A step that is not enabled has no result. -/
structure Machine (σ : Type u) (α : Type v) where
  step : σ → α → Option σ

namespace Machine

variable {σ : Type u} {α : Type v} (m : Machine σ α)

/-- Take the steps of the labels in order. -/
def run : List α → σ → Option σ
  | [], s => some s
  | a :: rest, s => (m.step s a).bind (run rest)

/-- Every step of the run is taken in a state where the condition holds. -/
def Meets (ok : σ → α → Prop) : List α → σ → Prop
  | [], _ => True
  | a :: rest, s => ok s a ∧ ∀ s', m.step s a = some s' → Meets ok rest s'

@[simp] theorem run_nil (s : σ) : m.run [] s = some s := rfl

@[simp] theorem run_cons (a : α) (rest : List α) (s : σ) :
    m.run (a :: rest) s = (m.step s a).bind (m.run rest) := rfl

theorem run_append (first second : List α) (s : σ) :
    m.run (first ++ second) s = (m.run first s).bind (m.run second) := by
  induction first generalizing s with
  | nil => rfl
  | cons a rest ih =>
      simp only [List.cons_append, run_cons]
      cases m.step s a with
      | none => rfl
      | some s' => exact ih s'

variable {m}

/-- Two runs, one after the other. -/
theorem run_append_of {first second : List α} {s s' s'' : σ} (ran : m.run first s = some s')
    (goesOn : m.run second s' = some s'') : m.run (first ++ second) s = some s'' := by
  rw [run_append, ran]
  exact goesOn

/-- A run with one more step at its end. -/
theorem run_snoc {labels : List α} {a : α} {s s' s'' : σ} (ran : m.run labels s = some s')
    (step : m.step s' a = some s'') : m.run (labels ++ [a]) s = some s'' :=
  run_append_of ran (by simp [step])

/-- The last step of a run. -/
theorem exists_of_run_snoc {labels : List α} {a : α} {s s'' : σ}
    (ran : m.run (labels ++ [a]) s = some s'') :
    ∃ s', m.run labels s = some s' ∧ m.step s' a = some s'' := by
  rw [run_append] at ran
  obtain ⟨s', ran, last⟩ := Option.bind_eq_some_iff.mp ran
  obtain ⟨final, step, same⟩ := Option.bind_eq_some_iff.mp last
  cases same
  exact ⟨s', ran, step⟩

theorem Meets.mono {ok ok' : σ → α → Prop} (weaker : ∀ s a, ok s a → ok' s a) {labels : List α}
    {s : σ} (meets : m.Meets ok labels s) : m.Meets ok' labels s := by
  induction labels generalizing s with
  | nil => trivial
  | cons a rest ih => exact ⟨weaker s a meets.1, fun s' step => ih (meets.2 s' step)⟩

theorem Meets.and {ok ok' : σ → α → Prop} {labels : List α} {s : σ} (first : m.Meets ok labels s)
    (second : m.Meets ok' labels s) : m.Meets (fun s a => ok s a ∧ ok' s a) labels s := by
  induction labels generalizing s with
  | nil => trivial
  | cons a rest ih =>
      exact ⟨⟨first.1, second.1⟩, fun s' step => ih (first.2 s' step) (second.2 s' step)⟩

/-- The conditions of a run, one step at a time. -/
theorem meets_cons_iff {ok : σ → α → Prop} {a : α} {rest : List α} {s s' : σ}
    (step : m.step s a = some s') : m.Meets ok (a :: rest) s ↔ ok s a ∧ m.Meets ok rest s' := by
  refine ⟨fun meets => ⟨meets.1, meets.2 s' step⟩, fun meets => ⟨meets.1, fun s'' again => ?_⟩⟩
  rw [step] at again
  cases again
  exact meets.2

/-- The conditions of a run in two parts. -/
theorem meets_append_iff {ok : σ → α → Prop} {first second : List α} {s s' : σ}
    (ran : m.run first s = some s') :
    m.Meets ok (first ++ second) s ↔ m.Meets ok first s ∧ m.Meets ok second s' := by
  induction first generalizing s with
  | nil =>
      cases ran
      exact ⟨fun meets => ⟨trivial, meets⟩, fun meets => meets.2⟩
  | cons a rest ih =>
      obtain ⟨mid, step, later⟩ := Option.bind_eq_some_iff.mp ran
      rw [List.cons_append, meets_cons_iff step, meets_cons_iff step, ih later, and_assoc]

/-- A family of conditions is met together exactly if each of them is. -/
theorem meets_forall {ι : Sort*} {ok : ι → σ → α → Prop} {labels : List α} {s : σ} :
    m.Meets (fun s a => ∀ i, ok i s a) labels s ↔ ∀ i, m.Meets (ok i) labels s := by
  induction labels generalizing s with
  | nil => exact ⟨fun _ _ => trivial, fun _ => trivial⟩
  | cons a rest ih =>
      refine ⟨fun meets i => ⟨meets.1 i, fun s' step => ih.mp (meets.2 s' step) i⟩, fun each => ?_⟩
      exact ⟨fun i => (each i).1, fun s' step => ih.mpr fun i => (each i).2 s' step⟩

/-- A condition on the labels alone is met by every run on such labels. -/
theorem meets_of_labels {ok : σ → α → Prop} {labels : List α} (each : ∀ a ∈ labels, ∀ s, ok s a)
    (s : σ) : m.Meets ok labels s := by
  induction labels generalizing s with
  | nil => trivial
  | cons a rest ih =>
      exact ⟨each a (List.mem_cons_self ..) s,
        fun s' _ => ih (fun b member => each b (List.mem_cons_of_mem _ member)) s'⟩

variable (m) in
/-- Compute whether every step of the run is taken where the test passes. -/
def check (test : σ → α → Bool) : List α → σ → Bool
  | [], _ => true
  | a :: rest, s => test s a && (m.step s a).all (check test rest)

theorem meets_of_check {ok : σ → α → Prop} {test : σ → α → Bool}
    (sound : ∀ s a, test s a = true → ok s a) {labels : List α} {s : σ}
    (passes : m.check test labels s = true) : m.Meets ok labels s := by
  induction labels generalizing s with
  | nil => trivial
  | cons a rest ih =>
      rw [check, Bool.and_eq_true] at passes
      refine ⟨sound s a passes.1, fun s' step => ih ?_⟩
      rw [step] at passes
      exact passes.2

/-- **The invariant rule.** What every step that satisfies the condition keeps
holds after every run whose steps satisfy it. -/
theorem run_invariant {ok : σ → α → Prop} {inv : σ → Prop}
    (keeps : ∀ s a s', inv s → ok s a → m.step s a = some s' → inv s') {labels : List α}
    {s s' : σ} (start : inv s) (meets : m.Meets ok labels s) (ran : m.run labels s = some s') :
    inv s' := by
  induction labels generalizing s with
  | nil =>
      cases ran
      exact start
  | cons a rest ih =>
      obtain ⟨mid, step, later⟩ := Option.bind_eq_some_iff.mp ran
      exact ih (keeps s a mid start meets.1 step) (meets.2 mid step) later

/-- The invariant rule for steps without a condition. -/
theorem run_invariant_of_step {inv : σ → Prop}
    (keeps : ∀ s a s', inv s → m.step s a = some s' → inv s') {labels : List α} {s s' : σ}
    (start : inv s) (ran : m.run labels s = some s') : inv s' := by
  have unconditional : ∀ s a s', inv s → True → m.step s a = some s' → inv s' :=
    fun s a s' holds _ => keeps s a s' holds
  refine run_invariant unconditional start ?_ ran
  clear ran start
  induction labels generalizing s with
  | nil => trivial
  | cons a rest ih => exact ⟨trivial, fun _ _ => ih⟩

/-- **The converse of the invariant rule.** If a step that violates the condition spoils
the state for good, the steps of a run that ends unspoilt satisfy it. -/
theorem meets_of_run {ok : σ → α → Prop} {inv spoilt : σ → Prop}
    (keeps : ∀ s a s', inv s → m.step s a = some s' → inv s')
    (spoils : ∀ s a s', inv s → ¬ ok s a → m.step s a = some s' → spoilt s')
    (stays : ∀ s a s', spoilt s → m.step s a = some s' → spoilt s') {labels : List α} {s s' : σ}
    (start : inv s) (ran : m.run labels s = some s') (sound : ¬ spoilt s') :
    m.Meets ok labels s := by
  induction labels generalizing s with
  | nil => trivial
  | cons a rest ih =>
      obtain ⟨mid, step, later⟩ := Option.bind_eq_some_iff.mp ran
      refine ⟨?_, fun s'' again => ?_⟩
      · by_contra violated
        exact sound (run_invariant_of_step stays (spoils s a mid start violated step) later)
      · rw [step] at again
        cases again
        exact ih (keeps s a mid start step) later

/-- **A run to the end.** If in every state of positive rank some step satisfies the
condition and leads to a smaller rank, a run of such steps leads to rank zero. -/
theorem exists_run_of_rank {ok : σ → α → Prop} {inv : σ → Prop} {rank : σ → Nat}
    (goesOn : ∀ s, inv s → rank s ≠ 0 → ∃ a s', ok s a ∧ m.step s a = some s' ∧ inv s' ∧
      rank s' < rank s) {s : σ} (start : inv s) :
    ∃ labels s', m.Meets ok labels s ∧ m.run labels s = some s' ∧ inv s' ∧ rank s' = 0 := by
  induction left : rank s using Nat.strong_induction_on generalizing s with
  | _ left' ih =>
      subst left
      by_cases none : rank s = 0
      · exact ⟨[], s, trivial, rfl, start, none⟩
      · obtain ⟨a, next, here, step, later, less⟩ := goesOn s start none
        obtain ⟨labels, s', meets, ran, ends⟩ := ih _ less later rfl
        exact ⟨a :: labels, s', (meets_cons_iff step).mpr ⟨here, meets⟩, by simp [step, ran], ends⟩

end Machine

end OpenDS.Library
