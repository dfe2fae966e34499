import OpenDS.Driver.BufferRuns
import OpenDS.Python.HostProcess

/-!
# The extents of registered buffers

`_Registry.ensure` asks the native library to register a buffer unless its pointer is in the
cache, and takes the answer that the pointer is registered already for a success. Neither
compares the extent of the registration with the one that is asked for.

Over every run of `ensure`, `drop` and `clear`, with native registrations and allocations in
between, a cached pointer has an entry in the native table. So an `ensure` that returns
leaves a registration that covers the buffer exactly if the table had one before, or knew
nothing of the pointer and was told a size that a `size_t` can hold (`ensure_covers_iff`).
-/

set_option autoImplicit false

namespace OpenDS.Python

open OpenDS.Library OpenDS.Driver

/-! ## Entries of the native table -/

/-- The table of an open driver has an entry with the property. -/
def HasEntry (n : Native) (P : BufEntry → Prop) : Prop :=
  ∃ d i, n.drv = some d ∧ i < d.bufCount ∧ P (d.bufs i)

/-- The table has an entry at the base. -/
def Knows (n : Native) (ptr : Nat) : Prop := HasEntry n fun e => e.base = ptr

/-- The backend holds a registration at the base whose length is at least `size`. -/
def Covers (n : Native) (ptr : Nat) (size : Int) : Prop :=
  HasEntry n fun e => e.base = ptr ∧ size ≤ e.length

/-- What `ensure` needs to find: a long enough entry at the base, or none and a size that
does not lose its upper bits in the conversion to `size_t`. -/
structure Fits (n : Native) (ptr : Nat) (size : Int) : Prop where
  known : Knows n ptr → Covers n ptr size
  new : ¬ Knows n ptr → size < 2 ^ 64

section Entries

variable {n : Native} {d : BufTable} {P : BufEntry → Prop} {ptr : Nat} {size : Int}

theorem Covers.knows (covers : Covers n ptr size) : Knows n ptr := by
  obtain ⟨d, i, opened, lt, base, _⟩ := covers
  exact ⟨d, i, opened, lt, base⟩

/-- A base that the table knows has to be covered already. -/
theorem fits_iff_of_knows (knows : Knows n ptr) : Fits n ptr size ↔ Covers n ptr size :=
  ⟨fun fits => fits.known knows, fun covers => ⟨fun _ => covers, fun new => absurd knows new⟩⟩

/-- A base that is new to the table needs a size that a `size_t` can hold. -/
theorem fits_iff_of_new (new : ¬ Knows n ptr) : Fits n ptr size ↔ size < 2 ^ 64 :=
  ⟨fun fits => fits.new new, fun small => ⟨fun knows => absurd knows new, fun _ => small⟩⟩

theorem hasEntry_push_iff (opened : n.drv = some d) (e : BufEntry) (x : Xnvme) :
    HasEntry ⟨some (d.push e), x⟩ P ↔ HasEntry n P ∨ P e := by
  constructor
  · rintro ⟨d', i, same, lt, holds⟩
    cases same
    have lt' : i < d.bufCount + 1 := lt
    by_cases last : i = d.bufCount
    · subst last
      rw [d.bufs_push_last] at holds
      exact .inr holds
    · have old : i < d.bufCount := by omega
      rw [d.bufs_push_of_lt e old] at holds
      exact .inl ⟨d, i, opened, old, holds⟩
  · rintro (⟨d', i, same, lt, holds⟩ | holds)
    · rw [opened] at same
      cases same
      refine ⟨_, i, rfl, Nat.lt_succ_of_lt lt, ?_⟩
      rw [d.bufs_push_of_lt e lt]
      exact holds
    · refine ⟨_, d.bufCount, rfl, Nat.lt_succ_self _, ?_⟩
      rw [d.bufs_push_last]
      exact holds

/-- An entry without the property goes. -/
theorem hasEntry_remove (opened : n.drv = some d) {j : Nat} (lt : j < d.bufCount)
    (other : ¬ P (d.bufs j)) (x : Xnvme) (has : HasEntry n P) :
    HasEntry ⟨some (d.remove j), x⟩ P := by
  obtain ⟨d', i, same, lt', holds⟩ := has
  rw [opened] at same
  cases same
  have apart : i ≠ j := by
    rintro rfl
    exact other holds
  by_cases last : i = d.bufCount - 1
  · refine ⟨_, j, rfl, ?_, ?_⟩
    · change j < d.bufCount - 1
      omega
    · rw [d.bufs_remove_self, ← last]
      exact holds
  · refine ⟨_, i, rfl, ?_, ?_⟩
    · change i < d.bufCount - 1
      omega
    · rw [d.bufs_remove_of_ne apart]
      exact holds

theorem hasEntry_alloc (size answer : Nat) (has : HasEntry n P) :
    HasEntry (opendsAlloc n size answer).1 P := by
  rcases opendsAlloc_cases n size answer with same | ⟨d, opened, _, _, same⟩
  · rw [same]
    exact has
  · rw [same]
    exact (hasEntry_push_iff opened _ _).mpr (.inl has)

theorem hasEntry_register (bufBase size : Nat) (rc : Int) (has : HasEntry n P) :
    HasEntry (opendsBufRegister n bufBase size rc).1 P := by
  rcases opendsBufRegister_cases n bufBase size rc with ⟨e, same⟩ | ⟨d, opened, _, _, same⟩
  · rw [same]
    exact has
  · rw [same]
    exact (hasEntry_push_iff opened _ _).mpr (.inl has)

/-- Deregistering a buffer leaves the other bases in the table. -/
theorem knows_deregister {bufBase : Nat} (other : ptr ≠ bufBase) (knows : Knows n ptr) :
    Knows (opendsBufDeregister n bufBase).1 ptr := by
  rcases opendsBufDeregister_cases n bufBase with ⟨e, same⟩ | ⟨d, i, opened, lt, base, _, same⟩
  · rw [same]
    exact knows
  · rw [same]
    apply hasEntry_remove opened lt _ _ knows
    rw [base]
    exact Ne.symm other

theorem knows_of_find (opened : n.drv = some d) {i : Nat} (found : d.find ptr = some i) :
    Knows n ptr := by
  obtain ⟨lt, base⟩ := d.find_eq_some found
  exact ⟨d, i, opened, lt, base⟩

theorem not_knows_of_find (opened : n.drv = some d) (absent : d.find ptr = none) :
    ¬ Knows n ptr := by
  rintro ⟨d', i, same, lt, base⟩
  rw [opened] at same
  cases same
  exact d.find_eq_none absent lt base

/-- **What an accepted registration leaves.** The answers that `ensure` accepts say that the
table has not changed and knows the base, or that an entry of the given length has come. -/
theorem register_accepted {m : Nat} {rc : Int} {err : Except BufError Unit}
    (answers : (opendsBufRegister n ptr m rc).2 = err)
    (accepted : err = .ok () ∨ err = .error .memoryAlreadyRegistered) :
    (Knows n ptr ∧ (opendsBufRegister n ptr m rc).1 = n) ∨
      (¬ Knows n ptr ∧ ∀ P, HasEntry (opendsBufRegister n ptr m rc).1 P ↔
        HasEntry n P ∨ P ⟨ptr, m, false⟩) := by
  subst answers
  rcases opendsBufRegister_cases n ptr m rc with ⟨e, same⟩ | ⟨d, opened, absent, _, same⟩
  · refine .inl ⟨?_, by rw [same]⟩
    rw [same] at accepted
    have already : e = .memoryAlreadyRegistered := by
      rcases accepted with ok | again
      · cases ok
      · exact Except.error.inj again
    subst already
    unfold opendsBufRegister at same
    split at same
    case h_1 => cases same
    case h_2 d opened =>
      cases found : d.find ptr with
      | some i => exact knows_of_find opened found
      | none =>
          simp only [found] at same
          split_ifs at same <;> cases congrArg Prod.snd same
  · refine .inr ⟨not_knows_of_find opened absent, fun P => ?_⟩
    rw [same]
    exact hasEntry_push_iff opened _ _

end Entries

/-! ## The methods of the registry in a process -/

/-- The calls of the registry, and what the host does to the table itself. -/
inductive RegistryCall where
  | ensure (ptr : Nat) (size : Option Int)
  | drop (ptr : Nat)
  | clear
  | register (bufBase size : Nat)
  | alloc (size answer : Nat)
  deriving DecidableEq, Repr

/-- Calls of the registry, each run to its end. -/
def registering : Machine HostProcess (Answers × RegistryCall) where
  step p a :=
    match a.2 with
    | .ensure ptr size => ((registryEnsure ptr size).run (execHost a.1) p).map Prod.snd
    | .drop ptr => ((registryDrop ptr).run (execHost a.1) p).map Prod.snd
    | .clear => (registryClear.run (execHost a.1) p).map Prod.snd
    | .register bufBase size =>
      some { p with native := (opendsBufRegister p.native bufBase size a.1.memMap).1 }
    | .alloc size answer => some { p with native := (opendsAlloc p.native size answer).1 }

/-- The pointer is in the cache. -/
def Cached (p : HostProcess) (ptr : Nat) : Prop := ptr ∈ p.module.regs.map Prod.fst

/-- Nothing is cached and the lock of the registry is free. -/
structure Uncached (p : HostProcess) : Prop where
  regs : p.module.regs = []
  free : p.module.registryLocked = false

/-- A pointer in the cache is known to the native library. -/
structure CacheKnown (p : HostProcess) : Prop where
  free : p.module.registryLocked = false
  known : ∀ ptr, Cached p ptr → Knows p.native ptr

theorem Uncached.cacheKnown {p : HostProcess} (uncached : Uncached p) : CacheKnown p := by
  refine ⟨uncached.free, fun ptr cached => ?_⟩
  rw [Cached, uncached.regs] at cached
  cases cached

/-- A process with other globals of the registry and another table. -/
def HostProcess.withRegistry (p : HostProcess) (regs : List (Nat × Int)) (n : Native) :
    HostProcess :=
  { p with module := { p.module with regs := regs }, native := n }

/-- The registry lock is held. -/
def HostProcess.locked (p : HostProcess) : HostProcess :=
  { p with module := { p.module with registryLocked := true } }

variable {a : Answers} {p p' : HostProcess} {ptr : Nat} {α : Type}

/-- `with self._lock:` in a process. -/
theorem hostRun_withLock {body : Py α} {r : Except PyError α} {regs : List (Nat × Int)}
    {n : Native} (free : p.module.registryLocked = false)
    (ran : body.run (execHost a) p.locked = some (r, (p.withRegistry regs n).locked)) :
    (withLock .registry body).run (execHost a) p = some (r, p.withRegistry regs n) := by
  have enter : execHost a (.acquire .registry) p = some (.ok (), p.locked) := by
    simp only [execHost, exec, free, Bool.false_eq_true, if_false, ModuleState.effect]
    rfl
  have exit : execHost a (.release .registry) (p.withRegistry regs n).locked =
      some (.ok (), p.withRegistry regs n) := by
    have unlocked : { p with
        module := { p.module with regs := regs, registryLocked := false }
        native := n } = p.withRegistry regs n := by
      rw [← free]
      rfl
    exact congrArg (fun q => some ((.ok () : Except PyError Unit), q)) unlocked
  simp only [withLock, Prog.run_within, enter, exit, Option.bind_some, ran]

theorem hostRun_call_bind {β : Type} {op : Op} {f : op.Ans → Py β} {b : op.Ans}
    (step : execHost a op p = some (.ok b, p')) :
    (call op >>= f).run (execHost a) p = (f b).run (execHost a) p' :=
  Prog.run_bind_ok ((Prog.run_call op p).trans step)

/-- What a call of `ensure` does, in each of its three ends. -/
inductive Ensures (a : Answers) (p : HostProcess) (ptr : Nat) :
    Option Int → Except PyError Unit × HostProcess → Prop
  | cached (size : Option Int) (known : Cached p ptr) : Ensures a p ptr size (.ok (), p)
  | raised (size : Option Int) (e : PyError) (n : Native)
      (kept : ∀ P, HasEntry p.native P → HasEntry n P) :
      Ensures a p ptr size (.error e, p.withRegistry p.module.regs n)
  | registered (m : Int) (unknown : ¬ Cached p ptr)
      (accepted : (opendsBufRegister p.native ptr (u64 m) a.memMap).2 = .ok () ∨
        (opendsBufRegister p.native ptr (u64 m) a.memMap).2 = .error .memoryAlreadyRegistered) :
      Ensures a p ptr (some m) (.ok (), p.withRegistry
        (p.module.regs.filter (fun r : Nat × Int => r.1 != ptr) ++ [(ptr, m)])
        (opendsBufRegister p.native ptr (u64 m) a.memMap).1)

theorem any_iff_cached :
    (p.module.regs.any fun r : Nat × Int => r.1 == ptr) = true ↔ Cached p ptr := by
  simp [Cached]

/-- The answers that `ensure` accepts. -/
theorem status_accepted {r : Except BufError Unit}
    (accepts : ¬ ((status r).err ≠ opendsSuccess ∧
      (status r).err ≠ opendsMemoryAlreadyRegistered)) :
    r = .ok () ∨ r = .error .memoryAlreadyRegistered := by
  rcases r with e | u
  · refine .inr ?_
    cases e <;> first | rfl | exact absurd (by decide) accepts
  · exact .inl rfl

theorem ensure_spec (a : Answers) (ptr : Nat) (size : Option Int)
    (free : p.module.registryLocked = false) :
    ∃ out, (registryEnsure ptr size).run (execHost a) p = some out ∧ Ensures a p ptr size out := by
  have tests : execHost a (.regsContains ptr) p.locked =
      some (.ok (p.locked.module.regs.any fun r : Nat × Int => r.1 == ptr), p.locked) := rfl
  by_cases known : (p.locked.module.regs.any fun r : Nat × Int => r.1 == ptr) = true
  · have ran : (registryEnsure ptr size).run (execHost a) p =
        some (.ok (), p.withRegistry p.module.regs p.native) := by
      refine hostRun_withLock free ?_
      rw [hostRun_call_bind tests, if_pos known]
      rfl
    exact ⟨_, ran, .cached size (any_iff_cached.mp known)⟩
  · cases size with
    | none =>
        have ran : (registryEnsure ptr none).run (execHost a) p =
            some (.error (bareUnregistered ptr), p.withRegistry p.module.regs p.native) := by
          refine hostRun_withLock free ?_
          rw [hostRun_call_bind tests, if_neg known]
          rfl
        exact ⟨_, ran, .raised none _ p.native fun _ => id⟩
    | some m =>
        let answer := (opendsBufRegister p.native ptr (u64 m) a.memMap).2
        let n := (opendsBufRegister p.native ptr (u64 m) a.memMap).1
        let err : DsError :=
          if p.module.driverOpen then status answer else ⟨opendsDriverNotInitialized, 0⟩
        have registers : execHost a (.bufRegister ptr m 0) p.locked =
            some (.ok err, (p.withRegistry p.module.regs n).locked) := rfl
        by_cases fails : err.err ≠ opendsSuccess ∧ err.err ≠ opendsMemoryAlreadyRegistered
        · have ran : (registryEnsure ptr (some m)).run (execHost a) p =
              some (.error (.openDS err.err err.devErr), p.withRegistry p.module.regs n) := by
            refine hostRun_withLock free ?_
            rw [hostRun_call_bind tests, if_neg known]
            dsimp only
            rw [hostRun_call_bind registers, if_pos fails]
            rfl
          exact ⟨_, ran, .raised _ _ n fun _ => hasEntry_register ptr (u64 m) a.memMap⟩
        · have ran : (registryEnsure ptr (some m)).run (execHost a) p = some (.ok (),
              p.withRegistry
                (p.module.regs.filter (fun r : Nat × Int => r.1 != ptr) ++ [(ptr, m)]) n) := by
            refine hostRun_withLock free ?_
            rw [hostRun_call_bind tests, if_neg known]
            dsimp only
            rw [hostRun_call_bind registers, if_neg fails]
            rfl
          refine ⟨_, ran, .registered m (any_iff_cached.not.mp known) (status_accepted ?_)⟩
          cases opened : p.module.driverOpen with
          | true => simpa [err, opened] using fails
          | false => exact absurd (by simp [err, opened, opendsDriverNotInitialized,
              opendsSuccess, opendsMemoryAlreadyRegistered]) fails

/-- `drop` takes the pointer out of the cache, and out of the table where it was cached. -/
theorem drop_spec (a : Answers) (ptr : Nat) (free : p.module.registryLocked = false) :
    ∃ n, (n = p.native ∨ n = (opendsBufDeregister p.native ptr).1) ∧
      (registryDrop ptr).run (execHost a) p = some (.ok (),
        p.withRegistry (p.module.regs.filter fun r : Nat × Int => r.1 != ptr) n) := by
  let regs := p.module.regs.filter fun r : Nat × Int => r.1 != ptr
  let size := (p.module.regs.find? fun r : Nat × Int => r.1 == ptr).map Prod.snd
  have pops : execHost a (.regsPop ptr) p.locked =
      some (.ok size, (p.withRegistry regs p.native).locked) := rfl
  by_cases found : size.isSome = true
  · refine ⟨_, .inr rfl, hostRun_withLock free ?_⟩
    rw [hostRun_call_bind pops, if_pos found]
    rfl
  · refine ⟨_, .inl rfl, hostRun_withLock free ?_⟩
    rw [hostRun_call_bind pops, if_neg found]
    rfl

/-- The loop of `clear` changes the table alone. -/
theorem hostRun_deregisterAll (a : Answers) (ptrs : List Nat) (p : HostProcess) :
    ∃ n, (Prog.forEach (fun ptr => call (.bufDeregister ptr)) ptrs : Py Unit).run (execHost a) p =
      some (.ok (), { p with native := n }) := by
  induction ptrs generalizing p with
  | nil => exact ⟨p.native, rfl⟩
  | cons ptr rest ih =>
      obtain ⟨n, ran⟩ := ih { p with native := (opendsBufDeregister p.native ptr).1 }
      exact ⟨n, ran⟩

/-- `clear` leaves an empty cache. -/
theorem clear_spec (a : Answers) (free : p.module.registryLocked = false) :
    ∃ n, registryClear.run (execHost a) p = some (.ok (), p.withRegistry [] n) := by
  obtain ⟨n, ran⟩ := hostRun_deregisterAll a (p.module.regs.map Prod.fst) p.locked
  refine ⟨n, hostRun_withLock free ?_⟩
  have keys : execHost a .regsKeys p.locked =
      some (.ok (p.module.regs.map Prod.fst), p.locked) := rfl
  rw [hostRun_call_bind keys, Prog.run_bind_ok ran]
  rfl

/-! ## Every run -/

theorem CacheKnown.ensures {size : Option Int} {out : Except PyError Unit × HostProcess}
    (known : CacheKnown p) (ends : Ensures a p ptr size out) : CacheKnown out.2 := by
  cases ends with
  | cached _ _ => exact known
  | raised _ e n kept => exact ⟨known.free, fun q cached => kept _ (known.known q cached)⟩
  | registered m unknown accepted =>
      refine ⟨known.free, fun q cached => ?_⟩
      rcases (mem_regsSet ..).mp cached with new | old
      · subst new
        rcases register_accepted rfl accepted with ⟨before, same⟩ | ⟨_, entries⟩
        · exact same.symm ▸ before
        · exact (entries _).mpr (.inr rfl)
      · exact hasEntry_register _ _ _ (known.known q old)

/-- Each step keeps what the cache holds known to the native library. -/
theorem CacheKnown.step {x : Answers × RegistryCall} (known : CacheKnown p)
    (step : registering.step p x = some p') : CacheKnown p' := by
  obtain ⟨a, c⟩ := x
  cases c with
  | ensure ptr size =>
      obtain ⟨out, ran, ends⟩ := ensure_spec a ptr size known.free
      obtain ⟨out', ran', same⟩ := Option.map_eq_some_iff.mp step
      cases ran.symm.trans ran'
      subst same
      exact known.ensures ends
  | drop ptr =>
      obtain ⟨n, table, ran⟩ := drop_spec a ptr known.free
      obtain ⟨out', ran', same⟩ := Option.map_eq_some_iff.mp step
      cases ran.symm.trans ran'
      subst same
      refine ⟨known.free, fun q cached => ?_⟩
      obtain ⟨r, member, same⟩ := List.mem_map.mp cached
      obtain ⟨old, other⟩ := List.mem_filter.mp member
      have knows : Knows p.native q := known.known q (List.mem_map.mpr ⟨r, old, same⟩)
      rcases table with table | table
      · exact table ▸ knows
      · have apart : q ≠ ptr := by
          rw [← same]
          simpa using other
        exact table ▸ knows_deregister apart knows
  | clear =>
      obtain ⟨n, ran⟩ := clear_spec a known.free
      obtain ⟨out', ran', same⟩ := Option.map_eq_some_iff.mp step
      cases ran.symm.trans ran'
      subst same
      exact ⟨known.free, fun q cached => by cases cached⟩
  | register bufBase size =>
      cases step
      exact ⟨known.free, fun q cached => hasEntry_register _ _ _ (known.known q cached)⟩
  | alloc size answer =>
      cases step
      exact ⟨known.free, fun q cached => hasEntry_alloc _ _ (known.known q cached)⟩

theorem le_u64 {size : Int} : size ≤ u64 size ↔ size < 2 ^ 64 := by
  unfold u64
  omega

/-- **A returned `ensure` leaves a registration that covers the buffer exactly if the table
fitted before**, after every run of calls of the registry. -/
theorem ensure_covers_iff {start p p' : HostProcess} {calls : List (Answers × RegistryCall)}
    {a : Answers} {ptr : Nat} {size : Int} (uncached : Uncached start)
    (ran : registering.run calls start = some p)
    (returned : (registryEnsure ptr (some size)).run (execHost a) p = some (.ok (), p')) :
    Covers p'.native ptr size ↔ Fits p.native ptr size := by
  have known : CacheKnown p :=
    Machine.run_invariant_of_step (fun _ _ _ => CacheKnown.step) uncached.cacheKnown ran
  obtain ⟨out, ran', ends⟩ := ensure_spec a ptr (some size) known.free
  cases returned.symm.trans ran'
  cases ends with
  | cached _ cached => exact (fits_iff_of_knows (known.known ptr cached)).symm
  | registered m unknown accepted =>
      rcases register_accepted rfl accepted with ⟨knows, same⟩ | ⟨new, entries⟩
      · exact same.symm ▸ (fits_iff_of_knows knows).symm
      · have covers : Covers (opendsBufRegister p.native ptr (u64 size) a.memMap).1 ptr size ↔
            Covers p.native ptr size ∨ ptr = ptr ∧ size ≤ u64 size := entries _
        have none : ¬ Covers p.native ptr size := fun covers => new covers.knows
        rw [fits_iff_of_new new, ← le_u64]
        exact covers.trans (by simp only [none, false_or, true_and])

/-! ## An address that recurs -/

/-- The driver has been opened, and nothing is registered. -/
def HostProcess.started : HostProcess where
  module := { ModuleState.initial (fun _ => .sigDfl) with driverOpen := true, driverRefs := 1 }
  native := .opened
  hostBuffers := []

theorem uncached_started : Uncached .started := ⟨rfl, rfl⟩

/-- The buffer is dropped before its address is used again for a larger one. -/
theorem ensure_covers_again :
    ∃ p p', registering.run [(succeeding, .ensure 4096 (some 512)), (succeeding, .drop 4096)]
        .started = some p ∧
      (registryEnsure 4096 (some 1024)).run (execHost succeeding) p = some (.ok (), p') ∧
      Covers p'.native 4096 1024 := by
  refine ⟨_, _, rfl, rfl, (ensure_covers_iff uncached_started
    (show registering.run [(succeeding, .ensure 4096 (some 512)), (succeeding, .drop 4096)]
      .started = some _ from rfl)
    (show (registryEnsure 4096 (some 1024)).run (execHost succeeding) _ = some (.ok (), _)
      from rfl)).mpr ((fits_iff_of_new ?_).mpr (by decide))⟩
  rintro ⟨d, i, opened, lt, _⟩
  cases opened
  exact absurd lt (Nat.not_lt_zero i)

/-- **A larger buffer at an address in the cache is not covered.** -/
theorem larger_extent_not_covered :
    ∃ p p', registering.run [(succeeding, .ensure 4096 (some 512))] .started = some p ∧
      (registryEnsure 4096 (some 1024)).run (execHost succeeding) p = some (.ok (), p') ∧
      ¬ Covers p'.native 4096 1024 := by
  refine ⟨_, _, rfl, rfl, ?_⟩
  rintro ⟨d, i, opened, lt, _, le⟩
  cases opened
  have first : i = 0 := Nat.lt_one_iff.mp lt
  subst first
  exact absurd le (by decide)

end OpenDS.Python
