import OpenDS.Python.DriverRefs

/-!
# Concurrent registration

Any number of threads call `register_buffer` and `deregister_buffer`, on any pointers and
with any answers of the native library, and their sections under a lock interleave. Some
files are open throughout, and no `_cleanup` runs.

A thread owes the references that it has taken and not yet handed over to a pin: one
between `_ensure_driver` and the insertion of a new pointer, one between the removal of a
pinned pointer and `_release_driver` (`Owes`). The count is the number of open files, of
pinned pointers and of owed references, as long as every insertion finds `_pinned` as the
test of its call found it, finds its pointer registered, and no pinned pointer is dropped
from the registration cache (`KeepsPins`). When all calls have returned nothing is owed
(`pins_counted`).
-/

set_option autoImplicit false

namespace OpenDS.Python

open OpenDS.Library

/-- The calls of a thread. -/
inductive PinCall where
  | register (buf : BufferView) (size : Option Int)
  | deregister (buf : BufferView)
  deriving DecidableEq, Repr

def PinCall.program : PinCall → Sections Unit
  | .register buf size => registerBuffer buf size
  | .deregister buf => deregisterBuffer buf

/-- The threads of a process and the module that they share. -/
structure Pool (ι : Type) where
  module : ModuleState
  threads : ι → Sections Unit

/-- A thread starts a call, or takes its next section. -/
inductive PoolEvent (ι : Type) where
  | call (i : ι) (c : PinCall)
  | next (i : ι) (env : Env)

variable {ι : Type} [DecidableEq ι]

/-- One step of a pool. A section runs to its end. -/
def pool : Machine (Pool ι) (PoolEvent ι) where
  step t
    | .call i c =>
      match t.threads i with
      | .done _ => some { t with threads := Function.update t.threads i c.program }
      | .act _ _ _ => none
    | .next i env =>
      match t.threads i with
      | .done _ => none
      | .act _ c next => (execSection env c t.module).map fun a =>
          ⟨a.2, Function.update t.threads i (next a.1)⟩

/-- The step inserts a pointer only where the test of its call still holds and the pointer
is registered, and drops no pinned pointer. -/
def KeepsPins (t : Pool ι) : PoolEvent ι → Prop
  | .call _ _ => True
  | .next i _ =>
    match t.threads i with
    | .act _ (.addPinned ptr first) _ =>
      (first = true ↔ ptr ∉ t.module.pinned) ∧ t.module.registered ptr
    | .act _ (.registryDrop ptr) _ => ptr ∉ t.module.pinned
    | _ => True

/-- The rest of a call owes this many references. -/
def Owes : Nat → Sections Unit → Prop
  | h, .done _ => h = 0
  | h, .act _ (.testPinned _) next => h = 0 ∧ ∀ b, Owes 0 (next (.ok b))
  | h, .act _ .ensureDriver next =>
    h = 0 ∧ Owes 1 (next (.ok ())) ∧ ∀ e, Owes 0 (next (.error e))
  | h, .act _ (.registryEnsure _ _) next =>
    Owes h (next (.ok ())) ∧ ∀ e : PyError, e.isException = true → Owes h (next (.error e))
  | h, .act _ (.addPinned _ first) next => (h = if first then 1 else 0) ∧ Owes 0 (next (.ok ()))
  | h, .act _ (.discardPinned _) next => h = 0 ∧ ∀ b, Owes (if b then 1 else 0) (next (.ok b))
  | h, .act _ (.registryDrop _) next => Owes h (next (.ok ()))
  | h, .act _ .releaseDriver next => h = 1 ∧ Owes 0 (next (.ok ()))

theorem owes_registerFrom (ptr : Nat) (size : Int) (first : Bool) :
    Owes (if first then 1 else 0) (registerFrom ptr size first) := by
  refine ⟨⟨rfl, rfl⟩, fun e caught => ?_⟩
  dsimp only [Prog.followed]
  rw [if_pos caught]
  cases first with
  | false => rfl
  | true => exact ⟨rfl, rfl⟩

theorem owes_registerSections (ptr : Nat) (size : Int) : Owes 0 (registerSections ptr size) := by
  refine ⟨rfl, fun b => ?_⟩
  change Owes 0 (registerTested ptr size (!b))
  cases b with
  | true => exact owes_registerFrom ptr size false
  | false => exact ⟨rfl, owes_registerFrom ptr size true, fun _ => rfl⟩

/-- A call owes nothing when it begins. -/
theorem owes_program (c : PinCall) : Owes 0 c.program := by
  cases c with
  | register buf size =>
      change Owes 0 (registerBuffer buf size)
      unfold registerBuffer
      split
      · exact owes_registerSections ..
      · exact owes_registerSections ..
      · rfl
  | deregister buf =>
      refine ⟨rfl, fun b => ?_⟩
      cases b with
      | false => rfl
      | true => exact ⟨rfl, rfl⟩

/-! ## The invariant -/

variable [Fintype ι]

/-- Between two sections: the count is that of the open files, the pinned pointers and the
owed references, and the pinned pointers are registered. -/
structure PoolInv (files : Nat) (t : Pool ι) (held : ι → Nat) : Prop where
  sound : Sound t.module
  owes : ∀ i, Owes (held i) (t.threads i)
  refs : t.module.driverRefs = files + t.module.pinned.card + ∑ i, (held i : Int)
  registered : ∀ ptr ∈ t.module.pinned, t.module.registered ptr

/-- One thread changes what it owes. -/
theorem sum_update (held : ι → Nat) (i : ι) (h : Nat) :
    ∑ j, (Function.update held i h j : Int) = ∑ j, (held j : Int) - held i + h := by
  have split : ∀ f : ι → Int, ∑ j, f j = f i + ∑ j ∈ Finset.univ.erase i, f j :=
    fun f => (Finset.add_sum_erase Finset.univ f (Finset.mem_univ i)).symm
  rw [split, split fun j => (held j : Int), Function.update_self]
  have others : ∑ j ∈ Finset.univ.erase i, (Function.update held i h j : Int) =
      ∑ j ∈ Finset.univ.erase i, (held j : Int) := by
    apply Finset.sum_congr rfl
    intro j other
    rw [Function.update_of_ne (Finset.ne_of_mem_erase other)]
  rw [others]
  ring

/-- A thread moves on with a new debt. -/
theorem PoolInv.move {files : Nat} {t : Pool ι} {held : ι → Nat} (inv : PoolInv files t held)
    (i : ι) {p : Sections Unit} {h : Nat} {s' : ModuleState} (owes : Owes h p) (sound : Sound s')
    (refs : s'.driverRefs - s'.pinned.card = t.module.driverRefs - t.module.pinned.card - held i + h)
    (registered : ∀ ptr ∈ s'.pinned, s'.registered ptr) :
    PoolInv files ⟨s', Function.update t.threads i p⟩ (Function.update held i h) := by
  refine ⟨sound, fun j => ?_, ?_, registered⟩
  · by_cases same : j = i
    · subst same
      simpa using owes
    · simpa [Function.update_of_ne same] using inv.owes j
  · rw [sum_update]
    have count := inv.refs
    dsimp only
    omega

omit [DecidableEq ι] in
/-- An owed reference is counted. -/
theorem PoolInv.held_pos {files : Nat} {t : Pool ι} {held : ι → Nat} (inv : PoolInv files t held)
    (i : ι) (owed : held i = 1) :
    (files + t.module.pinned.card + 1 : Int) ≤ t.module.driverRefs := by
  have one : (held i : Int) ≤ ∑ j, (held j : Int) :=
    Finset.single_le_sum (fun j _ => Int.natCast_nonneg (held j)) (Finset.mem_univ i)
  have count := inv.refs
  omega

/-- A section of a thread. -/
theorem PoolInv.section_step {files : Nat} {t : Pool ι} {held : ι → Nat}
    (inv : PoolInv files t held) {i : ι} {env : Env} {closing : Bool} {c : Section}
    {next : Except PyError c.Ans → Sections Unit} (running : t.threads i = .act closing c next)
    (keeps : KeepsPins t (.next i env)) {answer : Except PyError c.Ans} {s' : ModuleState}
    (step : execSection env c t.module = some (answer, s')) :
    ∃ held', PoolInv files ⟨s', Function.update t.threads i (next answer)⟩ held' := by
  have owes : Owes (held i) (.act closing c next) := running ▸ inv.owes i
  simp only [KeepsPins, running] at keeps
  cases c with
  | testPinned ptr =>
      rw [execSection_testPinned] at step
      cases step
      obtain ⟨none, rest⟩ := owes
      exact ⟨_, inv.move i (rest _) inv.sound (by simp [none]) inv.registered⟩
  | ensureDriver =>
      obtain ⟨none, ok, error⟩ := owes
      rcases ensureDriver_spec env inv.sound with ⟨s₁, ensured, taken⟩ | ⟨e, raised⟩
      · have same := Option.some.inj (step.symm.trans ensured)
        cases same
        refine ⟨_, inv.move i ok taken.sound ?_ ?_⟩
        · rw [taken.refs, taken.pinned, none]
          push_cast
          ring
        · intro ptr member
          rw [taken.pinned] at member
          have registered := inv.registered ptr member
          unfold ModuleState.registered at *
          rw [taken.regs]
          exact registered
      · have same := Option.some.inj (step.symm.trans raised)
        cases same
        exact ⟨_, inv.move i (error e) inv.sound (by simp [none]) inv.registered⟩
  | registryEnsure ptr size =>
      obtain ⟨ok, error⟩ := owes
      obtain ⟨r, regs, ran, ensured⟩ := runPy_registryEnsure env ptr size inv.sound.free
      have same := Option.some.inj (step.symm.trans ran)
      cases same
      have sound' : Sound { t.module with regs := regs } := inv.sound.congr rfl rfl rfl rfl
      have registered : ∀ p ∈ t.module.pinned, p ∈ regs.map Prod.fst :=
        fun p member => ensured.kept p (inv.registered p member)
      cases answer with
      | ok a => exact ⟨_, inv.move i ok sound' (by simp) registered⟩
      | error e => exact ⟨_, inv.move i (error e (ensured.error e rfl)) sound' (by simp) registered⟩
  | addPinned ptr first =>
      rw [execSection_addPinned] at step
      cases step
      obtain ⟨owed, rest⟩ := owes
      obtain ⟨as_tested, registered⟩ := keeps
      refine ⟨_, inv.move i rest (inv.sound.congr rfl rfl rfl rfl) ?_ ?_⟩
      · dsimp only
        cases first with
        | true =>
            rw [Finset.card_insert_of_notMem (as_tested.mp rfl), owed, if_pos rfl]
            push_cast
            ring
        | false =>
            have member : ptr ∈ t.module.pinned := by
              by_contra new
              exact Bool.false_ne_true (as_tested.mpr new)
            rw [Finset.insert_eq_of_mem member, owed]
            simp
      · intro p member
        rcases Finset.mem_insert.mp member with same | old
        · exact same ▸ registered
        · exact inv.registered p old
  | discardPinned ptr =>
      rw [execSection_discardPinned] at step
      cases step
      obtain ⟨none, rest⟩ := owes
      refine ⟨_, inv.move i (rest _) (inv.sound.congr rfl rfl rfl rfl) ?_ ?_⟩
      · dsimp only
        by_cases member : ptr ∈ t.module.pinned
        · have card := Finset.card_erase_add_one member
          simp only [member, decide_true, if_true]
          omega
        · rw [Finset.erase_eq_of_notMem member]
          simp [member, none]
      · intro p member
        exact inv.registered p (Finset.mem_of_mem_erase member)
  | registryDrop ptr =>
      have dropped := runPy_registryDrop env ptr inv.sound.free
      have same := Option.some.inj (step.symm.trans dropped)
      cases same
      refine ⟨_, inv.move i owes (inv.sound.congr rfl rfl rfl rfl) (by simp) ?_⟩
      intro p member
      have other : p ≠ ptr := fun same => keeps (same ▸ member)
      obtain ⟨r, known, same⟩ := List.mem_map.mp (inv.registered p member)
      exact List.mem_map.mpr ⟨r, List.mem_filter.mpr ⟨known, by simp [same, other]⟩, same⟩
  | releaseDriver =>
      obtain ⟨owed, rest⟩ := owes
      have counted := inv.held_pos i owed
      obtain ⟨s₁, released, given⟩ := releaseDriver_spec env inv.sound (by omega)
      have same := Option.some.inj (step.symm.trans released)
      cases same
      refine ⟨_, inv.move i rest given.sound ?_ ?_⟩
      · rw [given.pinned, given.refs, owed]
        split_ifs with zero
        · simp only [Finset.card_empty]
          omega
        · push_cast
          ring
      · intro p member
        rw [given.pinned] at member
        split_ifs at member with zero
        · exact absurd member (Finset.notMem_empty p)
        · unfold ModuleState.registered
          rw [given.regs zero]
          exact inv.registered p member

/-- One step of a pool keeps the count. -/
theorem pool_step {files : Nat} {t t' : Pool ι} {e : PoolEvent ι}
    (inv : ∃ held, PoolInv files t held) (keeps : KeepsPins t e) (step : pool.step t e = some t') :
    ∃ held, PoolInv files t' held := by
  obtain ⟨held, inv⟩ := inv
  cases e with
  | call i c =>
      simp only [pool] at step
      cases running : t.threads i with
      | act closing c next =>
          rw [running] at step
          cases step
      | done result =>
          rw [running] at step
          cases step
          have none : held i = 0 := by
            have owes := inv.owes i
            rw [running] at owes
            exact owes
          exact ⟨_, inv.move i (owes_program c) inv.sound (by simp [none]) inv.registered⟩
  | next i env =>
      simp only [pool] at step
      cases running : t.threads i with
      | done result =>
          rw [running] at step
          cases step
      | act closing c next =>
          rw [running] at step
          obtain ⟨⟨answer, s'⟩, taken, same⟩ := Option.map_eq_some_iff.mp step
          cases same
          exact inv.section_step running keeps taken

/-- The state before the threads begin: some files are open, and some pointers are pinned
and registered. -/
structure Settled (files : Nat) (s : ModuleState) : Prop where
  sound : Sound s
  refs : s.driverRefs = files + s.pinned.card
  registered : ∀ ptr ∈ s.pinned, s.registered ptr

/-- **When all calls have returned, the count is that of the open files and the pinned
pointers, and every pinned pointer is registered**, in every interleaving of any number of
threads whose insertions find `_pinned` as it was tested and whose drops find their pointer
unpinned. -/
theorem pins_counted (files : Nat) {s : ModuleState} (settled : Settled files s)
    {events : List (PoolEvent ι)} {t : Pool ι}
    (keepsPins : pool.Meets KeepsPins events ⟨s, fun _ => pure ()⟩)
    (ran : pool.run events ⟨s, fun _ => pure ()⟩ = some t)
    (returned : ∀ i, ∃ result, t.threads i = .done result) :
    t.module.driverRefs = files + t.module.pinned.card ∧
      ∀ ptr ∈ t.module.pinned, t.module.registered ptr := by
  have keeps : ∀ (t : Pool ι) e t', (∃ held, PoolInv files t held) → KeepsPins t e →
      pool.step t e = some t' → ∃ held, PoolInv files t' held := by
    intro t e t' inv keeps step
    exact pool_step inv keeps step
  have start : ∃ held, PoolInv files (⟨s, fun _ => pure ()⟩ : Pool ι) held :=
    ⟨fun _ => 0, settled.sound, fun _ => rfl, by simp [settled.refs], settled.registered⟩
  obtain ⟨held, inv⟩ := Machine.run_invariant keeps start keepsPins ran
  refine ⟨?_, inv.registered⟩
  have nothing : ∀ i, held i = 0 := by
    intro i
    obtain ⟨result, done⟩ := returned i
    have owes := inv.owes i
    rw [done] at owes
    exact owes
  simpa [nothing] using inv.refs

/-- The test that a step keeps the pins. -/
def keepsPins (t : Pool ι) : PoolEvent ι → Bool
  | .call _ _ => true
  | .next i _ =>
    match t.threads i with
    | .act _ (.addPinned ptr first) _ =>
      (first == !decide (ptr ∈ t.module.pinned)) && decide (ptr ∈ t.module.regs.map Prod.fst)
    | .act _ (.registryDrop ptr) _ => !decide (ptr ∈ t.module.pinned)
    | _ => true

omit [DecidableEq ι] [Fintype ι] in
theorem keepsPins_sound (t : Pool ι) (e : PoolEvent ι) (passes : keepsPins t e = true) :
    KeepsPins t e := by
  cases e with
  | call i c => trivial
  | next i env =>
      simp only [KeepsPins, keepsPins] at passes ⊢
      split
      · simp_all [ModuleState.registered]
      · simp_all
      · trivial

/-- Two threads start to register their buffers. -/
def twoCalls (first second : BufferView) : List (PoolEvent (Fin 2)) :=
  [.call 0 (.register first none), .call 1 (.register second none)]

/-- Two threads take their sections in turn, `n` times. -/
def inTurn (n : Nat) : List (PoolEvent (Fin 2)) :=
  (List.replicate n [.next 0 granted, .next 1 granted]).flatten

/-- Two threads register different pointers at the same time. -/
theorem pins_counted_apart :
    ((pool.run (twoCalls ⟨4096, some 64⟩ ⟨8192, some 64⟩ ++ inTurn 4)
      ⟨.initial fun _ => .sigDfl, fun _ => pure ()⟩).get (by decide)).module.driverRefs = 2 :=
  (pins_counted 0 ⟨initial_sound fun _ => .sigDfl, rfl, nofun⟩
    (Machine.meets_of_check keepsPins_sound (by decide)) (Option.some_get _).symm
    (Fin.forall_fin_two.mpr ⟨⟨_, rfl⟩, ⟨_, rfl⟩⟩)).1.trans (by decide)

/-- **Two threads that register the same pointer at the same time leave one pin and two
references.** -/
theorem same_pointer_counts_twice :
    ∃ t, pool.run (twoCalls ⟨4096, some 64⟩ ⟨4096, some 64⟩ ++ inTurn 4)
        (⟨.initial fun _ => .sigDfl, fun _ => pure ()⟩ : Pool (Fin 2)) = some t ∧
      (∀ i, t.threads i = pure ()) ∧ t.module.pinned = {4096} ∧ t.module.driverRefs = 2 :=
  ⟨_, rfl, Fin.forall_fin_two.mpr ⟨rfl, rfl⟩, by decide, rfl⟩

end OpenDS.Python
