import OpenDS.Library.Loop
import OpenDS.Library.ResourceLog
import OpenDS.Library.SlotTable

/-!
# The buffer table

The driver of `opends_aisio.c` keeps the buffers that it knows in one array: those that
`opends_alloc` allocated, which it owns, and those that `opends_buf_register` mapped. An
entry that leaves is replaced by the last one. Each function holds `reg_lock` while it
uses the array.

`Xnvme` logs what the functions have the device library do, so that a buffer freed twice
or a mapping left behind shows in the log. Each function keeps the table and the logs in
agreement (`Agrees`).
-/

set_option autoImplicit false

namespace OpenDS.Driver

open OpenDS.Library

/-- `MAX_BUF_ENTRIES`. -/
def maxBufEntries : Nat := 8192

/-- `struct buf_entry`. -/
structure BufEntry where
  base : Nat
  length : Nat
  owned : Bool
  deriving DecidableEq, Repr

/-- What `struct driver` has of the buffers. `xdev` says that the device is open. -/
structure BufTable where
  xdev : Bool
  bufs : Nat → BufEntry
  bufCount : Nat

/-- What has been allocated, freed, mapped and unmapped, the latest first. -/
structure Xnvme where
  buffers : List (Usage Nat)
  mappings : List (Usage Nat)
  deriving DecidableEq, Repr

/-- `xnvme_buf_alloc` -/
def Xnvme.bufAlloc (x : Xnvme) (p : Nat) : Xnvme := { x with buffers := .acquire p :: x.buffers }

/-- `xnvme_buf_free` -/
def Xnvme.bufFree (x : Xnvme) (p : Nat) : Xnvme := { x with buffers := .release p :: x.buffers }

/-- `xnvme_mem_map` -/
def Xnvme.memMap (x : Xnvme) (p : Nat) : Xnvme := { x with mappings := .acquire p :: x.mappings }

/-- `xnvme_mem_unmap` -/
def Xnvme.memUnmap (x : Xnvme) (p : Nat) : Xnvme := { x with mappings := .release p :: x.mappings }

/-- The global `drv` and the device library. -/
structure Native where
  drv : Option BufTable
  xnvme : Xnvme

/-- The errors of the functions of the table. -/
inductive BufError where
  | driverNotInitialized
  | deviceDriverError
  | invalidValue
  | memoryAlreadyRegistered
  | memoryNotRegistered
  | deviceNotFound
  | internalError
  deriving DecidableEq, Repr

/-- The value of the enumerator in `opends.h`. -/
def BufError.code : BufError → Int
  | .driverNotInitialized => 5001
  | .deviceDriverError => 5011
  | .invalidValue => 5022
  | .memoryAlreadyRegistered => 5023
  | .memoryNotRegistered => 5024
  | .deviceNotFound => 5029
  | .internalError => 5030

namespace BufTable

variable (d : BufTable)

/-- `drv->bufs[drv->buf_count++] = e` -/
def push (e : BufEntry) : BufTable :=
  { d with bufs := Function.update d.bufs d.bufCount e, bufCount := d.bufCount + 1 }

/-- `drv->bufs[i] = drv->bufs[drv->buf_count - 1]; drv->buf_count--` -/
def remove (i : Nat) : BufTable :=
  { d with
    bufs := Function.update d.bufs i (d.bufs (d.bufCount - 1))
    bufCount := d.bufCount - 1 }

/-- `for (i = 0; i < drv->buf_count; i++) if (drv->bufs[i].base == buf)`: the first such
`i`. -/
def find (buf : Nat) : Option Nat :=
  firstReturn (fun i => if (d.bufs i).base = buf then some i else none) d.bufCount 0

/-- The loop of `opends_driver_close`, for the last `n` entries from `i` on. -/
def finish (x : Xnvme) : (n i : Nat) → Xnvme
  | 0, _ => x
  | n + 1, i =>
    let e := d.bufs i
    finish (if e.owned then x.bufFree e.base else x.memUnmap e.base) n (i + 1)

/-- The table of a driver that `opends_driver_open` has opened. The array is zero. -/
def opened : BufTable where
  xdev := true
  bufs _ := ⟨0, 0, false⟩
  bufCount := 0

end BufTable

/-- `opends_alloc`, with the answer of `xnvme_buf_alloc`. Null pointers are zero. -/
def opendsAlloc (s : Native) (size answer : Nat) : Native × Nat :=
  match s.drv with
  | none => (s, 0)
  | some d =>
    if d.xdev = false then (s, 0)
    else if maxBufEntries ≤ d.bufCount then (s, 0)
    else if answer = 0 then (s, 0)
    else (⟨some (d.push ⟨answer, size, true⟩), s.xnvme.bufAlloc answer⟩, answer)

/-- `opends_free` -/
def opendsFree (s : Native) (buf : Nat) : Native :=
  match s.drv with
  | none => s
  | some d =>
    if buf = 0 then s
    else
      match d.find buf with
      | none => s
      | some i =>
        if (d.bufs i).owned = false then s
        else ⟨some (d.remove i), s.xnvme.bufFree buf⟩

/-- `opends_buf_register`, with the answer of `xnvme_mem_map`. -/
def opendsBufRegister (s : Native) (bufBase size : Nat) (rc : Int) :
    Native × Except BufError Unit :=
  match s.drv with
  | none => (s, .error .driverNotInitialized)
  | some d =>
    if d.xdev = false then (s, .error .deviceNotFound)
    else if bufBase = 0 ∨ size = 0 then (s, .error .invalidValue)
    else
      match d.find bufBase with
      | some _ => (s, .error .memoryAlreadyRegistered)
      | none =>
        if maxBufEntries ≤ d.bufCount then (s, .error .internalError)
        else if rc < 0 then (s, .error .deviceDriverError)
        else (⟨some (d.push ⟨bufBase, size, false⟩), s.xnvme.memMap bufBase⟩, .ok ())

/-- `opends_buf_deregister` -/
def opendsBufDeregister (s : Native) (bufBase : Nat) : Native × Except BufError Unit :=
  match s.drv with
  | none => (s, .error .driverNotInitialized)
  | some d =>
    if d.xdev = false then (s, .error .deviceNotFound)
    else if bufBase = 0 then (s, .error .invalidValue)
    else
      match d.find bufBase with
      | none => (s, .error .memoryNotRegistered)
      | some i =>
        if (d.bufs i).owned then (s, .error .invalidValue)
        else (⟨some (d.remove i), s.xnvme.memUnmap bufBase⟩, .ok ())

/-- `opends_driver_close`, as far as it concerns the buffers of the table. -/
def opendsDriverClose (s : Native) : Native × Except BufError Unit :=
  match s.drv with
  | none => (s, .error .driverNotInitialized)
  | some d => (⟨none, d.finish s.xnvme d.bufCount 0⟩, .ok ())

/-! ## Entries that come and go -/

namespace BufTable

variable (d : BufTable)

theorem bufs_push_last (e : BufEntry) : (d.push e).bufs d.bufCount = e :=
  Function.update_self ..

theorem bufs_push_of_lt (e : BufEntry) {i : Nat} (lt : i < d.bufCount) :
    (d.push e).bufs i = d.bufs i :=
  Function.update_of_ne (Nat.ne_of_lt lt) ..

theorem bufs_remove_self (i : Nat) : (d.remove i).bufs i = d.bufs (d.bufCount - 1) :=
  Function.update_self ..

theorem bufs_remove_of_ne {i j : Nat} (other : j ≠ i) : (d.remove i).bufs j = d.bufs j :=
  Function.update_of_ne other ..

/-- Owned entries and the others. -/
def isKind (kind : Bool) (e : BufEntry) : Bool := e.owned == kind

/-- The bases of the entries of one kind. -/
def bases (kind : Bool) : Multiset Nat :=
  (held (isKind kind) d.bufs d.bufCount).map BufEntry.base

theorem mem_bases {kind : Bool} {p : Nat} :
    p ∈ d.bases kind ↔ ∃ i, i < d.bufCount ∧ (d.bufs i).owned = kind ∧ (d.bufs i).base = p := by
  simp only [bases, Multiset.mem_map, mem_held, isKind, beq_iff_eq]
  constructor
  · rintro ⟨e, ⟨i, lt, rfl, same⟩, base⟩
    exact ⟨i, lt, same, base⟩
  · rintro ⟨i, lt, same, base⟩
    exact ⟨d.bufs i, ⟨i, lt, rfl, same⟩, base⟩

/-- What an entry adds to the bases of one kind. -/
def baseOf (kind : Bool) (e : BufEntry) : Multiset Nat :=
  (holding (isKind kind) e).map BufEntry.base

theorem baseOf_same (e : BufEntry) : baseOf e.owned e = {e.base} := by
  have holds : isKind e.owned e = true := beq_self_eq_true e.owned
  rw [baseOf, holding_of_pos _ holds, Multiset.map_singleton]

theorem baseOf_other {e : BufEntry} {kind : Bool} (other : e.owned ≠ kind) :
    baseOf kind e = 0 := by
  have fails : isKind kind e = false := beq_eq_false_iff_ne.mpr other
  rw [baseOf, holding_of_neg _ fails, Multiset.map_zero]

theorem bases_push (e : BufEntry) (kind : Bool) :
    (d.push e).bases kind = baseOf kind e + d.bases kind := by
  simp only [bases, push, baseOf]
  rw [held_succ, Function.update_self, held_update_of_le _ _ (Nat.le_refl _), Multiset.map_add]

theorem bases_remove {i : Nat} (lt : i < d.bufCount) (kind : Bool) :
    d.bases kind = baseOf kind (d.bufs i) + (d.remove i).bases kind := by
  rw [bases, held_replace_last _ _ lt, Multiset.map_add, baseOf, bases, remove]

theorem find_eq_some {buf i : Nat} (found : d.find buf = some i) :
    i < d.bufCount ∧ (d.bufs i).base = buf := by
  obtain ⟨r, _, lt, here, _⟩ := firstReturn_eq_some_iff.mp found
  split_ifs at here with same
  cases here
  exact ⟨by omega, same⟩

theorem find_eq_none {buf : Nat} (absent : d.find buf = none) {i : Nat} (lt : i < d.bufCount) :
    (d.bufs i).base ≠ buf := by
  have here := firstReturn_eq_none_iff.mp absent i (Nat.zero_le i) (by omega)
  intro same
  rw [if_pos same] at here
  cases here

/-- A base that the loop does not find belongs to no entry. -/
theorem notMem_bases {buf : Nat} (absent : d.find buf = none) (kind : Bool) :
    buf ∉ d.bases kind := by
  intro member
  obtain ⟨i, lt, _, base⟩ := d.mem_bases.mp member
  exact d.find_eq_none absent lt base

end BufTable

/-- The log of one kind of entry. -/
def Xnvme.log (x : Xnvme) : Bool → List (Usage Nat)
  | true => x.buffers
  | false => x.mappings

/-- What the device library does for an entry that comes. -/
def Xnvme.enter (x : Xnvme) (e : BufEntry) : Xnvme :=
  if e.owned then x.bufAlloc e.base else x.memMap e.base

/-- What the device library does for an entry that goes. -/
def Xnvme.leave (x : Xnvme) (e : BufEntry) : Xnvme :=
  if e.owned then x.bufFree e.base else x.memUnmap e.base

theorem Xnvme.log_enter (x : Xnvme) (e : BufEntry) :
    (x.enter e).log e.owned = .acquire e.base :: x.log e.owned := by
  cases own : e.owned <;> simp [enter, own, log, bufAlloc, memMap]

theorem Xnvme.log_enter_other (x : Xnvme) {e : BufEntry} {kind : Bool} (other : e.owned ≠ kind) :
    (x.enter e).log kind = x.log kind := by
  cases kind <;> simp_all [enter, log, bufAlloc, memMap]

theorem Xnvme.log_leave (x : Xnvme) (e : BufEntry) :
    (x.leave e).log e.owned = .release e.base :: x.log e.owned := by
  cases own : e.owned <;> simp [leave, own, log, bufFree, memUnmap]

theorem Xnvme.log_leave_other (x : Xnvme) {e : BufEntry} {kind : Bool} (other : e.owned ≠ kind) :
    (x.leave e).log kind = x.log kind := by
  cases kind <;> simp_all [leave, log, bufFree, memUnmap]

/-- The bases of the entries of one kind, in the table of a driver that may not be open. -/
def Native.bases (s : Native) (kind : Bool) : Multiset Nat :=
  match s.drv with
  | none => 0
  | some d => d.bases kind

/-- The table lists what the device library has handed out, of either kind. -/
structure Agrees (s : Native) : Prop where
  records : ∀ kind, Usage.Records (s.bases kind) (s.xnvme.log kind)
  count_le : ∀ d, s.drv = some d → d.bufCount ≤ maxBufEntries

variable {s s' : Native} {d : BufTable}

/-- An entry comes. -/
theorem Agrees.push (agrees : Agrees s) (opened : s.drv = some d) (room : d.bufCount < maxBufEntries)
    {e : BufEntry} (new : e.base ∉ Usage.outstanding (s.xnvme.log e.owned)) :
    Agrees ⟨some (d.push e), s.xnvme.enter e⟩ := by
  refine ⟨fun kind => ?_, fun d' same => ?_⟩
  · have records := agrees.records kind
    rw [Native.bases, opened] at records
    change Usage.Records ((d.push e).bases kind) _
    rw [d.bases_push]
    by_cases same : e.owned = kind
    · subst same
      rw [BufTable.baseOf_same, Multiset.singleton_add, Xnvme.log_enter]
      exact records.acquire new
    · rw [BufTable.baseOf_other same, zero_add, Xnvme.log_enter_other _ same]
      exact records
  · cases same
    exact room

/-- An entry goes. -/
theorem Agrees.remove (agrees : Agrees s) (opened : s.drv = some d) {i : Nat}
    (lt : i < d.bufCount) : Agrees ⟨some (d.remove i), s.xnvme.leave (d.bufs i)⟩ := by
  refine ⟨fun kind => ?_, fun d' same => ?_⟩
  · have records := agrees.records kind
    rw [Native.bases, opened] at records
    change Usage.Records (d.bases kind) _ at records
    change Usage.Records ((d.remove i).bases kind) _
    rw [d.bases_remove lt] at records
    by_cases same : (d.bufs i).owned = kind
    · subst same
      rw [BufTable.baseOf_same, Multiset.singleton_add] at records
      rw [Xnvme.log_leave]
      exact records.release
    · rw [BufTable.baseOf_other same, zero_add] at records
      rw [Xnvme.log_leave_other _ same]
      exact records
  · cases same
    exact (Nat.sub_le ..).trans (agrees.count_le d opened)

/-! ## What each function does -/

/-- `opends_alloc` fails, or an entry comes. -/
theorem opendsAlloc_cases (s : Native) (size answer : Nat) :
    opendsAlloc s size answer = (s, 0) ∨
      ∃ d, s.drv = some d ∧ d.bufCount < maxBufEntries ∧ answer ≠ 0 ∧
        opendsAlloc s size answer =
          (⟨some (d.push ⟨answer, size, true⟩), s.xnvme.enter ⟨answer, size, true⟩⟩, answer) := by
  unfold opendsAlloc
  split
  case h_1 => exact .inl rfl
  case h_2 d opened =>
    split_ifs with closed full null
    · exact .inl rfl
    · exact .inl rfl
    · exact .inl rfl
    · exact .inr ⟨d, opened, not_le.mp full, null, rfl⟩

/-- `opends_free` does nothing, or an owned entry goes. -/
theorem opendsFree_cases (s : Native) (buf : Nat) :
    opendsFree s buf = s ∨
      ∃ d i, s.drv = some d ∧ i < d.bufCount ∧ (d.bufs i).base = buf ∧ (d.bufs i).owned = true ∧
        opendsFree s buf = ⟨some (d.remove i), s.xnvme.leave (d.bufs i)⟩ := by
  unfold opendsFree
  split
  case h_1 => exact .inl rfl
  case h_2 d opened =>
    split_ifs with null
    · exact .inl rfl
    · split
      case h_1 => exact .inl rfl
      case h_2 i found =>
        obtain ⟨lt, base⟩ := d.find_eq_some found
        split_ifs with mapped
        · exact .inl rfl
        · have owned : (d.bufs i).owned = true := by simpa using mapped
          refine .inr ⟨d, i, opened, lt, base, owned, ?_⟩
          rw [Xnvme.leave, if_pos owned, base]

/-- `opends_buf_register` fails, or an entry with a new base comes. -/
theorem opendsBufRegister_cases (s : Native) (bufBase size : Nat) (rc : Int) :
    (∃ e, opendsBufRegister s bufBase size rc = (s, .error e)) ∨
      ∃ d, s.drv = some d ∧ d.find bufBase = none ∧ d.bufCount < maxBufEntries ∧
        opendsBufRegister s bufBase size rc =
          (⟨some (d.push ⟨bufBase, size, false⟩), s.xnvme.enter ⟨bufBase, size, false⟩⟩, .ok ()) := by
  unfold opendsBufRegister
  split
  case h_1 => exact .inl ⟨_, rfl⟩
  case h_2 d opened =>
    cases absent : d.find bufBase with
    | some i =>
        dsimp only
        split_ifs
        · exact .inl ⟨_, rfl⟩
        · exact .inl ⟨_, rfl⟩
        · exact .inl ⟨_, rfl⟩
    | none =>
        dsimp only
        split_ifs with closed null full failed
        · exact .inl ⟨_, rfl⟩
        · exact .inl ⟨_, rfl⟩
        · exact .inl ⟨_, rfl⟩
        · exact .inl ⟨_, rfl⟩
        · exact .inr ⟨d, opened, absent, not_le.mp full, rfl⟩

/-- `opends_buf_deregister` fails, or an entry goes that is not owned. -/
theorem opendsBufDeregister_cases (s : Native) (bufBase : Nat) :
    (∃ e, opendsBufDeregister s bufBase = (s, .error e)) ∨
      ∃ d i, s.drv = some d ∧ i < d.bufCount ∧ (d.bufs i).base = bufBase ∧
        (d.bufs i).owned = false ∧
        opendsBufDeregister s bufBase =
          (⟨some (d.remove i), s.xnvme.leave (d.bufs i)⟩, .ok ()) := by
  unfold opendsBufDeregister
  split
  case h_1 => exact .inl ⟨_, rfl⟩
  case h_2 d opened =>
    split_ifs with closed null
    · exact .inl ⟨_, rfl⟩
    · exact .inl ⟨_, rfl⟩
    · split
      case h_1 => exact .inl ⟨_, rfl⟩
      case h_2 i found =>
        obtain ⟨lt, base⟩ := d.find_eq_some found
        split_ifs with owned
        · exact .inl ⟨_, rfl⟩
        · refine .inr ⟨d, i, opened, lt, base, by simpa using owned, ?_⟩
          rw [Xnvme.leave, if_neg owned, base]

/-- The bases of one kind are the resources of its log. -/
theorem Agrees.mem_bases (agrees : Agrees s) (opened : s.drv = some d) {kind : Bool} {p : Nat} :
    p ∈ d.bases kind ↔ p ∈ Usage.outstanding (s.xnvme.log kind) := by
  have records := agrees.records kind
  rw [Native.bases, opened] at records
  exact records.mem_iff

theorem Agrees.alloc (agrees : Agrees s) (size : Nat) {answer : Nat}
    (new : answer ∉ Usage.outstanding s.xnvme.buffers) : Agrees (opendsAlloc s size answer).1 := by
  rcases opendsAlloc_cases s size answer with same | ⟨d, opened, room, _, same⟩
  · rw [same]
    exact agrees
  · rw [same]
    exact agrees.push opened room new

theorem Agrees.free (agrees : Agrees s) (buf : Nat) : Agrees (opendsFree s buf) := by
  rcases opendsFree_cases s buf with same | ⟨d, i, opened, lt, _, _, same⟩
  · rw [same]
    exact agrees
  · rw [same]
    exact agrees.remove opened lt

theorem Agrees.register (agrees : Agrees s) (bufBase size : Nat) (rc : Int) :
    Agrees (opendsBufRegister s bufBase size rc).1 := by
  rcases opendsBufRegister_cases s bufBase size rc with ⟨e, same⟩ | ⟨d, opened, absent, room, same⟩
  · rw [same]
    exact agrees
  · rw [same]
    apply agrees.push opened room
    rw [← agrees.mem_bases opened]
    exact d.notMem_bases absent false

theorem Agrees.deregister (agrees : Agrees s) (bufBase : Nat) :
    Agrees (opendsBufDeregister s bufBase).1 := by
  rcases opendsBufDeregister_cases s bufBase with ⟨e, same⟩ | ⟨d, i, opened, lt, _, _, same⟩
  · rw [same]
    exact agrees
  · rw [same]
    exact agrees.remove opened lt

/-! ## Closing the driver -/

/-- The loop strikes out one entry after the other. -/
theorem BufTable.finish_records (kind : Bool) {n i : Nat} {x : Xnvme}
    (records : Usage.Records ((held (isKind kind) (fun j => d.bufs (i + j)) n).map BufEntry.base)
      (x.log kind)) :
    Usage.Records 0 ((d.finish x n i).log kind) := by
  induction n generalizing i x with
  | zero => exact records
  | succ n ih =>
      have next : (fun j => d.bufs (i + (j + 1))) = fun j => d.bufs (i + 1 + j) := by
        funext j
        rw [Nat.add_comm j 1, Nat.add_assoc]
      rw [held_succ_front, Multiset.map_add, next] at records
      change Usage.Records (baseOf kind (d.bufs i) + _) _ at records
      apply ih
      by_cases same : (d.bufs i).owned = kind
      · subst same
        rw [baseOf_same, Multiset.singleton_add] at records
        change Usage.Records _ ((x.leave (d.bufs i)).log _)
        rw [Xnvme.log_leave]
        exact records.release
      · rw [baseOf_other same, zero_add] at records
        change Usage.Records _ ((x.leave (d.bufs i)).log kind)
        rw [Xnvme.log_leave_other _ same]
        exact records

theorem Agrees.close (agrees : Agrees s) : Agrees (opendsDriverClose s).1 := by
  unfold opendsDriverClose
  split
  case h_1 => exact agrees
  case h_2 d opened =>
    refine ⟨fun kind => ?_, nofun⟩
    apply BufTable.finish_records
    have records := agrees.records kind
    rw [Native.bases, opened] at records
    simpa [BufTable.bases] using records

theorem drv_close (s : Native) : (opendsDriverClose s).1.drv = none := by
  unfold opendsDriverClose
  cases opened : s.drv with
  | none => exact opened
  | some d => rfl

/-- No entry is left. -/
theorem bases_close (s : Native) (kind : Bool) : (opendsDriverClose s).1.bases kind = 0 := by
  rw [Native.bases, drv_close]

theorem isSome_register (s : Native) (bufBase size : Nat) (rc : Int) :
    (opendsBufRegister s bufBase size rc).1.drv.isSome = s.drv.isSome := by
  rcases opendsBufRegister_cases s bufBase size rc with ⟨e, same⟩ | ⟨d, opened, _, _, same⟩
  · rw [same]
  · rw [same, opened]
    rfl

theorem isSome_deregister (s : Native) (bufBase : Nat) :
    (opendsBufDeregister s bufBase).1.drv.isSome = s.drv.isSome := by
  rcases opendsBufDeregister_cases s bufBase with ⟨e, same⟩ | ⟨d, i, opened, _, _, _, same⟩
  · rw [same]
  · rw [same, opened]
    rfl

theorem isSome_free (s : Native) (buf : Nat) : (opendsFree s buf).drv.isSome = s.drv.isSome := by
  rcases opendsFree_cases s buf with same | ⟨d, i, opened, _, _, _, same⟩
  · rw [same]
  · rw [same, opened]
    rfl

/-! ## The log of the buffers -/

theorem buffers_register (s : Native) (bufBase size : Nat) (rc : Int) :
    (opendsBufRegister s bufBase size rc).1.xnvme.buffers = s.xnvme.buffers := by
  rcases opendsBufRegister_cases s bufBase size rc with ⟨e, same⟩ | ⟨d, _, _, _, same⟩
  · rw [same]
  · rw [same]
    rfl

theorem buffers_deregister (s : Native) (bufBase : Nat) :
    (opendsBufDeregister s bufBase).1.xnvme.buffers = s.xnvme.buffers := by
  rcases opendsBufDeregister_cases s bufBase with ⟨e, same⟩ | ⟨d, i, _, _, _, mapped, same⟩
  · rw [same]
  · rw [same, Xnvme.leave, mapped]
    rfl

/-- `opends_free` releases nothing or its argument. -/
theorem buffers_free (s : Native) (buf : Nat) :
    (opendsFree s buf).xnvme.buffers = s.xnvme.buffers ∨
      (opendsFree s buf).xnvme.buffers = .release buf :: s.xnvme.buffers := by
  rcases opendsFree_cases s buf with same | ⟨d, i, _, _, base, owned, same⟩
  · exact .inl (by rw [same])
  · refine .inr ?_
    rw [same, Xnvme.leave, if_pos owned, base]
    rfl

theorem BufTable.finish_acquires (x : Xnvme) (n i q : Nat) :
    (d.finish x n i).buffers.count (.acquire q) = x.buffers.count (.acquire q) := by
  induction n generalizing x i with
  | zero => rfl
  | succ n ih =>
      refine (ih _ (i + 1)).trans ?_
      split
      · simp [Xnvme.bufFree]
      · rfl

/-- Closing the driver acquires nothing. -/
theorem acquires_close (s : Native) (q : Nat) :
    (opendsDriverClose s).1.xnvme.buffers.count (.acquire q) =
      s.xnvme.buffers.count (.acquire q) := by
  unfold opendsDriverClose
  split
  · rfl
  · exact BufTable.finish_acquires ..

/-- Opening the driver leaves the empty table as it was. -/
theorem Agrees.open (agrees : Agrees s) (closed : s.drv = none) :
    Agrees { s with drv := some .opened } := by
  refine ⟨fun kind => ?_, fun d same => ?_⟩
  · have records := agrees.records kind
    rw [Native.bases, closed] at records
    exact records
  · cases same
    exact Nat.zero_le _

end OpenDS.Driver
