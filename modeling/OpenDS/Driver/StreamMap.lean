import OpenDS.Library.Loop
import OpenDS.Library.OpenAddressing

/-!
# The stream map of `ds_stream_map.h`

An open-addressing table from streams to small integers, which only grows. The key 0
marks a free slot. Its arithmetic is that of 32-bit words; for a capacity that is a power
of two the probes are those of linear probing (`slotIndex_eq`), so the table is searched
and filled as `Library.OpenAddressing` says.
-/

set_option autoImplicit false

namespace OpenDS.Driver

open OpenDS.Library

/-- `struct ds_stream_map_entry`. -/
structure MapEntry where
  key : UInt64
  idx : Int
  deriving DecidableEq, Repr

/-- The array of the entries. -/
abbrev StreamMap := Nat → MapEntry

/-- `ds_stream_map_hash`. -/
def dsStreamMapHash (s : UInt64) (mask : UInt32) : UInt32 :=
  ((s * 0x9E3779B97F4A7C15) >>> 32).toUInt32 &&& mask

/-- `(h + p) & mask`. -/
def slotIndex (h mask : UInt32) (p : Nat) : Nat := ((h + UInt32.ofNat p) &&& mask).toNat

/-- `ds_stream_map_get`. -/
def dsStreamMapGet (e : StreamMap) (mask : UInt32) (stream : UInt64) : Int :=
  let h := dsStreamMapHash stream mask
  let cap := mask + 1
  let found := firstReturn (fun p =>
    let s := e (slotIndex h mask p)
    if s.key = stream then some s.idx
    else if s.key = 0 then some (-1)
    else none) cap.toNat 0
  found.getD (-1)

/-- `ds_stream_map_put`: its result and the table. -/
def dsStreamMapPut (e : StreamMap) (mask : UInt32) (stream : UInt64) (idx : Int) :
    Int × StreamMap :=
  let h := dsStreamMapHash stream mask
  let cap := mask + 1
  let free := firstReturn (fun p =>
    let i := slotIndex h mask p
    if (e i).key = 0 then some i else none) cap.toNat 0
  match free with
  | some i => (0, Function.update e i ⟨stream, idx⟩)
  | none => (-1, e)

/-! ## The table as an open-addressing table -/

/-- The mask of a table whose capacity is `cap`, a power of two. -/
structure MaskOf (mask : UInt32) (cap : Nat) : Prop where
  capacity : mask.toNat + 1 = cap
  power : ∃ b, b < 32 ∧ cap = 2 ^ b

/-- The key of a slot that is not free. -/
def keys (e : StreamMap) (i : Nat) : Option UInt64 := if (e i).key = 0 then none else some (e i).key

/-- The first slot that is probed for a stream. -/
def hashOf (mask : UInt32) (s : UInt64) : Nat := (dsStreamMapHash s mask).toNat

variable {e : StreamMap} {mask : UInt32} {cap i p : Nat} {k stream : UInt64}

theorem MaskOf.pos (table : MaskOf mask cap) : 0 < cap := by
  have capacity := table.capacity
  omega

theorem MaskOf.count (table : MaskOf mask cap) : (mask + 1).toNat = cap := by
  obtain ⟨b, small, power⟩ := table.power
  have capacity := table.capacity
  have low : (2 : Nat) ^ b < 2 ^ 32 := Nat.pow_lt_pow_right (by decide) small
  rw [UInt32.toNat_add]
  change (mask.toNat + 1) % 2 ^ 32 = cap
  omega

/-- **The probes are linear**: the word arithmetic is that of the remainders by the
capacity. -/
theorem slotIndex_eq (table : MaskOf mask cap) (h : UInt32) (p : Nat) :
    slotIndex h mask p = slotAt h.toNat cap p := by
  obtain ⟨b, small, power⟩ := table.power
  have capacity := table.capacity
  have ones : mask.toNat = 2 ^ b - 1 := by omega
  have divides : (2 : Nat) ^ b ∣ 2 ^ 32 := Nat.pow_dvd_pow 2 (Nat.le_of_lt small)
  rw [slotIndex, slotAt, UInt32.toNat_and, ones, Nat.and_two_pow_sub_one_eq_mod, UInt32.toNat_add,
    UInt32.toNat_ofNat', Nat.mod_mod_of_dvd _ divides, power, Nat.add_mod, Nat.mod_mod_of_dvd _ divides,
    ← Nat.add_mod]

theorem keys_eq_some : keys e i = some k ↔ (e i).key = k ∧ k ≠ 0 := by
  unfold keys
  constructor
  · intro here
    split at here
    · cases here
    · rename_i some
      obtain rfl := Option.some.inj here
      exact ⟨rfl, some⟩
  · rintro ⟨rfl, some⟩
    exact if_neg some

theorem keys_eq_none : keys e i = none ↔ (e i).key = 0 := by
  unfold keys
  constructor
  · intro free
    split at free
    · assumption
    · cases free
  · exact fun free => if_pos free

/-- What is stored in a slot is seen in it. -/
theorem keys_update (e : StreamMap) (i : Nat) (some' : stream ≠ 0) (idx : Int) :
    keys (Function.update e i ⟨stream, idx⟩) = Function.update (keys e) i (some stream) := by
  funext j
  by_cases same : j = i
  · subst same
    rw [Function.update_self, keys_eq_some, Function.update_self]
    exact ⟨rfl, some'⟩
  · rw [Function.update_of_ne same]
    simp only [keys, Function.update_of_ne same]

/-! ## What the functions do -/

/-- **The search finds a stream** that its probes reach. -/
theorem dsStreamMapGet_of_probes (table : MaskOf mask cap)
    (probes : Probes (hashOf mask) cap (keys e) stream i p) :
    dsStreamMapGet e mask stream = (e i).idx := by
  have found : firstReturn (fun p =>
      let s := e (slotIndex (dsStreamMapHash stream mask) mask p)
      if s.key = stream then some s.idx else if s.key = 0 then some (-1) else none)
      (mask + 1).toNat 0 = some (e i).idx := by
    rw [table.count, firstReturn_eq_some_iff]
    refine ⟨p, Nat.zero_le p, by rw [Nat.zero_add]; exact probes.inTable, ?_, fun q _ before => ?_⟩
    · have slot : slotIndex (dsStreamMapHash stream mask) mask p = i :=
        (slotIndex_eq table _ p).trans probes.slot
      simp only [slot, if_pos (keys_eq_some.mp probes.here).1]
    · obtain ⟨k', passed, other⟩ := probes.passes q before
      rw [hashOf, ← slotIndex_eq table] at passed
      obtain ⟨key, some⟩ := keys_eq_some.mp passed
      simp only [key, if_neg other, if_neg some]
  simp only [dsStreamMapGet, found, Option.getD_some]

/-- **The search misses a stream** that is in no slot. -/
theorem dsStreamMapGet_of_absent (table : MaskOf mask cap) (some' : stream ≠ 0)
    (absent : ∀ i, i < cap → keys e i ≠ some stream) : dsStreamMapGet e mask stream = -1 := by
  rw [dsStreamMapGet]
  simp only
  cases found : firstReturn (fun p =>
      let s := e (slotIndex (dsStreamMapHash stream mask) mask p)
      if s.key = stream then some s.idx else if s.key = 0 then some (-1) else none)
      (mask + 1).toNat 0 with
  | none => rfl
  | some b =>
      obtain ⟨r, -, -, returns, -⟩ := firstReturn_eq_some_iff.mp found
      have low : slotIndex (dsStreamMapHash stream mask) mask r < cap := by
        rw [slotIndex_eq table]
        exact slotAt_lt table.pos
      simp only at returns
      split at returns
      · rename_i here
        exact absurd (keys_eq_some.mpr ⟨here, some'⟩) (absent _ low)
      · split at returns
        · exact (Option.some.inj returns).symm
        · cases returns

/-- **An insertion takes the first free slot** of its probes. -/
theorem dsStreamMapPut_of_firstFree (table : MaskOf mask cap) (inTable : p < cap)
    (free : keys e (slotAt (hashOf mask stream) cap p) = none)
    (occupied : ∀ q, q < p → keys e (slotAt (hashOf mask stream) cap q) ≠ none) (idx : Int) :
    dsStreamMapPut e mask stream idx =
      (0, Function.update e (slotAt (hashOf mask stream) cap p) ⟨stream, idx⟩) := by
  have found : firstReturn (fun p =>
      let i := slotIndex (dsStreamMapHash stream mask) mask p
      if (e i).key = 0 then some i else none) (mask + 1).toNat 0 =
        some (slotAt (hashOf mask stream) cap p) := by
    rw [table.count, firstReturn_eq_some_iff]
    refine ⟨p, Nat.zero_le p, by rw [Nat.zero_add]; exact inTable, ?_, fun q _ before => ?_⟩
    · simp only [slotIndex_eq table]
      exact if_pos (keys_eq_none.mp free)
    · simp only [slotIndex_eq table]
      exact if_neg fun none => occupied q before (keys_eq_none.mpr none)
  simp only [dsStreamMapPut, found]

end OpenDS.Driver
