import OpenDS.Driver.BufferTable
import OpenDS.Library.Transition

/-!
# The buffer table over whole runs of calls

After every sequence of allocations, frees, registrations and deregistrations the entries of
the table have distinct bases, and they are the live allocations and the live mappings. A
call that fails changes nothing, and `opends_driver_close` frees and unmaps what is left, each
once (`bufferTable_integrity`).
-/

set_option autoImplicit false

namespace OpenDS.Driver

open OpenDS.Library

/-- The calls, with what the device library answers to them. -/
inductive BufCall where
  | alloc (size answer : Nat)
  | free (buf : Nat)
  | register (bufBase size : Nat) (rc : Int)
  | deregister (bufBase : Nat)
  deriving DecidableEq, Repr

/-- What a call returns. -/
inductive BufResult where
  | pointer (p : Nat)
  | void
  | status (r : Except BufError Unit)

/-- The result reports that the call has failed. -/
def BufResult.Failed : BufResult → Prop
  | .pointer p => p = 0
  | .void => False
  | .status r => r ≠ .ok ()

/-- One call. -/
def BufCall.perform (s : Native) : BufCall → Native × BufResult
  | .alloc size answer =>
    let out := opendsAlloc s size answer
    (out.1, .pointer out.2)
  | .free buf => (opendsFree s buf, .void)
  | .register bufBase size rc =>
    let out := opendsBufRegister s bufBase size rc
    (out.1, .status out.2)
  | .deregister bufBase =>
    let out := opendsBufDeregister s bufBase
    (out.1, .status out.2)

/-- Calls on the table, one after the other. -/
def bufferTable : Machine Native BufCall where
  step s c := some (c.perform s).1

/-- A driver has just been opened in a process that has used no device yet. -/
def Native.opened : Native := ⟨some .opened, ⟨[], []⟩⟩

/-- A new allocation is neither allocated nor mapped. -/
def FreshBase (s : Native) (c : BufCall) : Prop :=
  ∀ size answer, c = .alloc size answer →
    answer ∉ Usage.outstanding s.xnvme.buffers ∧ answer ∉ Usage.outstanding s.xnvme.mappings

/-! ## The invariant -/

variable {s s' : Native} {d : BufTable}

/-- The table and the device library agree, and no base is both allocated and mapped. -/
structure TableInv (s : Native) : Prop where
  agrees : Agrees s
  apart : Disjoint (Usage.outstanding s.xnvme.buffers) (Usage.outstanding s.xnvme.mappings)

theorem TableInv.opened : TableInv .opened := by
  refine ⟨⟨fun kind => ?_, fun d same => ?_⟩, Finset.disjoint_empty_left _⟩
  · cases kind <;> exact Usage.Records.nil
  · cases same
    exact Nat.zero_le _

/-- A buffer that is freed or a mapping that is undone leaves the others apart. -/
theorem TableInv.remove (inv : TableInv s) (opened : s.drv = some d) {i : Nat}
    (lt : i < d.bufCount) : TableInv ⟨some (d.remove i), s.xnvme.leave (d.bufs i)⟩ := by
  refine ⟨inv.agrees.remove opened lt, ?_⟩
  unfold Xnvme.leave
  split
  · exact inv.apart.mono_left (Finset.erase_subset ..)
  · exact inv.apart.mono_right (Finset.erase_subset ..)

theorem TableInv.alloc (inv : TableInv s) (size : Nat) {answer : Nat}
    (new : answer ∉ Usage.outstanding s.xnvme.buffers)
    (unmapped : answer ∉ Usage.outstanding s.xnvme.mappings) :
    TableInv (opendsAlloc s size answer).1 := by
  refine ⟨inv.agrees.alloc size new, ?_⟩
  rcases opendsAlloc_cases s size answer with same | ⟨d, _, _, _, same⟩
  · rw [same]
    exact inv.apart
  · rw [same]
    exact Finset.disjoint_insert_left.mpr ⟨unmapped, inv.apart⟩

theorem TableInv.register (inv : TableInv s) (bufBase size : Nat) (rc : Int) :
    TableInv (opendsBufRegister s bufBase size rc).1 := by
  refine ⟨inv.agrees.register bufBase size rc, ?_⟩
  rcases opendsBufRegister_cases s bufBase size rc with ⟨e, same⟩ | ⟨d, opened, absent, _, same⟩
  · rw [same]
    exact inv.apart
  · rw [same]
    have unallocated : bufBase ∉ Usage.outstanding (s.xnvme.log true) := by
      rw [← inv.agrees.mem_bases opened]
      exact d.notMem_bases absent true
    exact Finset.disjoint_insert_right.mpr ⟨unallocated, inv.apart⟩

/-- Each call keeps the invariant. -/
theorem TableInv.perform (inv : TableInv s) {c : BufCall} (fresh : FreshBase s c) :
    TableInv (c.perform s).1 := by
  cases c with
  | alloc size answer =>
      obtain ⟨new, unmapped⟩ := fresh size answer rfl
      exact inv.alloc size new unmapped
  | free buf =>
      change TableInv (opendsFree s buf)
      rcases opendsFree_cases s buf with same | ⟨d, i, opened, lt, _, _, same⟩
      · rw [same]
        exact inv
      · rw [same]
        exact inv.remove opened lt
  | register bufBase size rc => exact inv.register bufBase size rc
  | deregister bufBase =>
      change TableInv (opendsBufDeregister s bufBase).1
      rcases opendsBufDeregister_cases s bufBase with ⟨e, same⟩ | ⟨d, i, opened, lt, _, _, same⟩
      · rw [same]
        exact inv
      · rw [same]
        exact inv.remove opened lt

/-- Two entries have two bases. -/
theorem TableInv.distinct (inv : TableInv s) (opened : s.drv = some d) {i j : Nat}
    (ltI : i < d.bufCount) (ltJ : j < d.bufCount) (ne : i ≠ j) :
    (d.bufs i).base ≠ (d.bufs j).base := by
  intro base
  have listed : ∀ {k}, k < d.bufCount →
      (d.bufs k).base ∈ Usage.outstanding (s.xnvme.log (d.bufs k).owned) := by
    intro k lt
    exact (inv.agrees.mem_bases opened).mp (d.mem_bases.mpr ⟨k, lt, rfl, rfl⟩)
  have first := listed ltI
  have second := listed ltJ
  rw [base] at first
  by_cases kinds : (d.bufs i).owned = (d.bufs j).owned
  · have nodup := (inv.agrees.records (d.bufs i).owned).nodup
    rw [Native.bases, opened] at nodup
    exact ne_of_nodup_held _ _ _ nodup ltI ltJ ne (beq_self_eq_true _)
      (beq_iff_eq.mpr kinds.symm) base
  · have apart := Finset.disjoint_left.mp inv.apart
    cases ownI : (d.bufs i).owned <;> cases ownJ : (d.bufs j).owned <;>
      rw [ownI] at first <;> rw [ownJ] at second
    · exact kinds (ownI.trans ownJ.symm)
    · exact apart second first
    · exact apart first second
    · exact kinds (ownI.trans ownJ.symm)

/-! ## Every sequence of calls -/

/-- What holds of the table and of the device library after any calls. -/
structure Integrity (s : Native) : Prop where
  distinct : ∀ d, s.drv = some d → ∀ i j, i < d.bufCount → j < d.bufCount → i ≠ j →
    (d.bufs i).base ≠ (d.bufs j).base
  count_le : ∀ d, s.drv = some d → d.bufCount ≤ maxBufEntries
  owned : ∀ p, p ∈ Usage.outstanding s.xnvme.buffers ↔
    ∃ d i, s.drv = some d ∧ i < d.bufCount ∧ (d.bufs i).owned = true ∧ (d.bufs i).base = p
  mapped : ∀ p, p ∈ Usage.outstanding s.xnvme.mappings ↔
    ∃ d i, s.drv = some d ∧ i < d.bufCount ∧ (d.bufs i).owned = false ∧ (d.bufs i).base = p
  freed : Usage.Disciplined s.xnvme.buffers
  unmapped : Usage.Disciplined s.xnvme.mappings

/-- Nothing is left, and everything was released as often as it was acquired. -/
structure Finished (log : List (Usage Nat)) : Prop where
  none : Usage.outstanding log = ∅
  disciplined : Usage.Disciplined log
  balanced : ∀ p, log.count (.acquire p) = log.count (.release p)

theorem finished_of_records {log : List (Usage Nat)} (records : Usage.Records 0 log) :
    Finished log :=
  ⟨records.nothing, records.disciplined, records.disciplined.balanced records.nothing⟩

/-- The resources of one kind are the bases of its entries. -/
theorem Agrees.outstanding_iff (agrees : Agrees s) (kind : Bool) (p : Nat) :
    p ∈ Usage.outstanding (s.xnvme.log kind) ↔
      ∃ d i, s.drv = some d ∧ i < d.bufCount ∧ (d.bufs i).owned = kind ∧ (d.bufs i).base = p := by
  rw [← (agrees.records kind).mem_iff, Native.bases]
  cases opened : s.drv with
  | none => simp
  | some d => simp [d.mem_bases]

theorem TableInv.integrity (inv : TableInv s) : Integrity s where
  distinct _ opened _ _ ltI ltJ ne := inv.distinct opened ltI ltJ ne
  count_le := inv.agrees.count_le
  owned := inv.agrees.outstanding_iff true
  mapped := inv.agrees.outstanding_iff false
  freed := (inv.agrees.records true).disciplined
  unmapped := (inv.agrees.records false).disciplined

/-- A call that reports failure changes nothing. -/
theorem perform_of_failed (s : Native) (c : BufCall) (failed : (c.perform s).2.Failed) :
    (c.perform s).1 = s := by
  cases c with
  | alloc size answer =>
      change (opendsAlloc s size answer).2 = 0 at failed
      change (opendsAlloc s size answer).1 = s
      rcases opendsAlloc_cases s size answer with same | ⟨d, _, _, nonnull, same⟩
      · rw [same]
      · rw [same] at failed
        exact absurd failed nonnull
  | free buf => exact absurd failed not_false
  | register bufBase size rc =>
      change (opendsBufRegister s bufBase size rc).2 ≠ .ok () at failed
      change (opendsBufRegister s bufBase size rc).1 = s
      rcases opendsBufRegister_cases s bufBase size rc with ⟨e, same⟩ | ⟨d, _, _, _, same⟩
      · rw [same]
      · rw [same] at failed
        exact absurd rfl failed
  | deregister bufBase =>
      change (opendsBufDeregister s bufBase).2 ≠ .ok () at failed
      change (opendsBufDeregister s bufBase).1 = s
      rcases opendsBufDeregister_cases s bufBase with ⟨e, same⟩ | ⟨d, i, _, _, _, _, same⟩
      · rw [same]
      · rw [same] at failed
        exact absurd rfl failed

/-- **The buffer table and the device library agree after every sequence of calls**, a call
that fails changes neither, and closing the driver frees and unmaps what is left. -/
theorem bufferTable_integrity {calls : List BufCall} {s : Native}
    (fresh : bufferTable.Meets FreshBase calls .opened)
    (ran : bufferTable.run calls .opened = some s) :
    Integrity s ∧ (∀ c, (BufCall.perform s c).2.Failed → (BufCall.perform s c).1 = s) ∧
      Finished (opendsDriverClose s).1.xnvme.buffers ∧
      Finished (opendsDriverClose s).1.xnvme.mappings := by
  have keeps : ∀ s c s', TableInv s → FreshBase s c → bufferTable.step s c = some s' →
      TableInv s' := by
    intro s c s' inv new step
    cases step
    exact inv.perform new
  have inv := Machine.run_invariant keeps .opened fresh ran
  have closed : ∀ kind, Finished ((opendsDriverClose s).1.xnvme.log kind) := by
    intro kind
    have records := inv.agrees.close.records kind
    rw [bases_close] at records
    exact finished_of_records records
  exact ⟨inv.integrity, perform_of_failed s, closed true, closed false⟩

/-- The test that a new allocation is neither allocated nor mapped. -/
def freshBase (s : Native) : BufCall → Bool
  | .alloc _ answer =>
    decide (answer ∉ Usage.outstanding s.xnvme.buffers ∧
      answer ∉ Usage.outstanding s.xnvme.mappings)
  | _ => true

theorem freshBase_sound (s : Native) (c : BufCall) (passes : freshBase s c = true) :
    FreshBase s c := by
  intro size answer same
  subst same
  exact of_decide_eq_true passes

/-- A buffer and two mappings. The first mapping goes, so the second one takes its place,
and the calls on the wrong kind are refused. -/
def mixedCalls : List BufCall :=
  [.register 64 16 0, .alloc 16 4096, .register 128 16 0, .register 256 16 (-1), .free 64,
    .deregister 4096, .deregister 64, .register 64 16 0]

theorem bufferTable_integrity_mixed :
    Finished (opendsDriverClose
      ((bufferTable.run mixedCalls .opened).get (by decide))).1.xnvme.mappings :=
  (bufferTable_integrity (Machine.meets_of_check freshBase_sound (by decide))
    (Option.some_get _).symm).2.2.2

end OpenDS.Driver
