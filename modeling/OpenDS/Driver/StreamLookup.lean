import OpenDS.Driver.StreamMap
import OpenDS.Library.Transition

/-!
# Lock-free lookups in the stream map

`ds_stream_map_get` takes no lock. While it probes, `ds_stream_map_put` may store a new
stream, first its index and then its key. Each load and each store is a step of its own;
the insertions are serialised with each other, the lookup with nothing.

What the lookup has passed stays as it is: a slot that holds a key is never written again
(`LookupSystem.step_grows`). Whatever the interleaving, the lookup finds every stream whose
insertion had finished before, and never an index that is not its own
(`lookup_correct`).
-/

set_option autoImplicit false

namespace OpenDS.Driver

open OpenDS.Library

/-- Where an insertion stands: the next key it loads, or what it stores next. -/
inductive PutPc where
  | idle
  | probing (stream : UInt64) (idx : Int) (p : Nat)
  | storeIdx (stream : UInt64) (idx : Int) (slot : Nat)
  | storeKey (stream : UInt64) (idx : Int) (slot : Nat)

/-- Where the lookup stands: the next key it loads, the index that it loads, or its
result. -/
inductive GetPc where
  | idle
  | probing (p : Nat)
  | found (slot : Nat)
  | returned (v : Int)

/-- The map, the insertion and the lookup, with what was inserted so far: the insertions
that have begun, those that have finished, and those that had when the lookup began. -/
structure LookupSystem where
  map : StreamMap
  put : PutPc
  get : GetPc
  started : List (UInt64 × Int)
  finished : List (UInt64 × Int)
  before : List (UInt64 × Int)

/-- Who moves. -/
inductive LookupLabel where
  | putCall (stream : UInt64) (idx : Int)
  | putStep
  | getCall
  | getStep
  deriving DecidableEq, Repr

/-- The head of the loop of `ds_stream_map_put`. -/
def enterPut (mask : UInt32) (stream : UInt64) (idx : Int) (p : Nat) : PutPc :=
  if p < (mask + 1).toNat then .probing stream idx p else .idle

/-- The head of the loop of `ds_stream_map_get`. -/
def enterGet (mask : UInt32) (p : Nat) : GetPc :=
  if p < (mask + 1).toNat then .probing p else .returned (-1)

namespace LookupSystem

/-- One step of `ds_stream_map_put`. -/
def putStep (mask : UInt32) (s : LookupSystem) : Option LookupSystem :=
  match s.put with
  | .idle => none
  | .probing stream idx p =>
    let slot := slotIndex (dsStreamMapHash stream mask) mask p
    if (s.map slot).key = 0 then some { s with put := .storeIdx stream idx slot }
    else some { s with put := enterPut mask stream idx (p + 1) }
  | .storeIdx stream idx slot =>
    some { s with
      map := Function.update s.map slot { s.map slot with idx := idx }
      put := .storeKey stream idx slot }
  | .storeKey stream idx slot =>
    some { s with
      map := Function.update s.map slot { s.map slot with key := stream }
      put := .idle
      finished := (stream, idx) :: s.finished }

/-- One step of `ds_stream_map_get` of the stream `key`. -/
def getStep (mask : UInt32) (key : UInt64) (s : LookupSystem) : Option LookupSystem :=
  match s.get with
  | .idle => none
  | .probing p =>
    let slot := slotIndex (dsStreamMapHash key mask) mask p
    if (s.map slot).key = key then some { s with get := .found slot }
    else if (s.map slot).key = 0 then some { s with get := .returned (-1) }
    else some { s with get := enterGet mask (p + 1) }
  | .found slot => some { s with get := .returned (s.map slot).idx }
  | .returned _ => none

end LookupSystem

/-- A lookup of the stream `key` among insertions. -/
def lookups (mask : UInt32) (key : UInt64) : Machine LookupSystem LookupLabel where
  step s l :=
    match l with
    | .putCall stream idx =>
      match s.put with
      | .idle => some { s with
          put := enterPut mask stream idx 0, started := (stream, idx) :: s.started }
      | _ => none
    | .putStep => s.putStep mask
    | .getCall =>
      match s.get with
      | .idle => some { s with get := enterGet mask 0, before := s.finished }
      | _ => none
    | .getStep => s.getStep mask key

/-- The empty map. -/
def LookupSystem.empty : LookupSystem := ⟨fun _ => ⟨0, 0⟩, .idle, .idle, [], [], []⟩

/-- An insertion is of a new stream, and keeps the table below its capacity. -/
def NewStream (cap : Nat) (s : LookupSystem) : LookupLabel → Prop
  | .putCall stream _ => stream ≠ 0 ∧ (∀ x ∈ s.started, x.1 ≠ stream) ∧ s.started.length + 1 < cap
  | _ => True

/-! ## The invariant -/

variable {mask : UInt32} {cap p : Nat} {key stream : UInt64} {idx v : Int} {slot : Nat}
  {s s' : LookupSystem}

/-- An insertion in progress: it has begun, and the table does not have its stream. -/
structure Placing (cap : Nat) (s : LookupSystem) (stream : UInt64) (idx : Int) : Prop where
  started : (stream, idx) ∈ s.started
  absent : ∀ i, i < cap → keys s.map i ≠ some stream

/-- The slot is the first free one of the probes for a stream. -/
def FirstFree (mask : UInt32) (cap : Nat) (map : StreamMap) (stream : UInt64) (slot : Nat) : Prop :=
  ∃ p, p < cap ∧ slotAt (hashOf mask stream) cap p = slot ∧ keys map slot = none ∧
    ∀ q, q < p → keys map (slotAt (hashOf mask stream) cap q) ≠ none

/-- What an insertion knows where it stands. -/
def PutInv (mask : UInt32) (cap : Nat) (s : LookupSystem) : PutPc → Prop
  | .idle => True
  | .probing stream idx p => Placing cap s stream idx ∧ p < cap ∧
      ∀ q, q < p → keys s.map (slotAt (hashOf mask stream) cap q) ≠ none
  | .storeIdx stream idx slot => Placing cap s stream idx ∧ FirstFree mask cap s.map stream slot
  | .storeKey stream idx slot => Placing cap s stream idx ∧ FirstFree mask cap s.map stream slot ∧
      (s.map slot).idx = idx

/-- What the lookup knows where it stands: it has passed other keys only, it has found its
own, or its result is right. -/
def GetInv (mask : UInt32) (cap : Nat) (key : UInt64) (s : LookupSystem) : GetPc → Prop
  | .idle => True
  | .probing p => p < cap ∧
      ∀ q, q < p → ∃ k, keys s.map (slotAt (hashOf mask key) cap q) = some k ∧ k ≠ key
  | .found slot => slot < cap ∧ keys s.map slot = some key
  | .returned v => (∀ w, (key, w) ∈ s.before → v = w) ∧ (v = -1 ∨ (key, v) ∈ s.finished)

/-- The map holds what was inserted, in order. -/
structure Inserted (mask : UInt32) (cap : Nat) (s : LookupSystem) : Prop where
  chained : Chained (hashOf mask) cap (keys s.map)
  stored : ∀ i k, i < cap → keys s.map i = some k → (k, (s.map i).idx) ∈ s.finished
  present : ∀ k w, (k, w) ∈ s.finished → ∃ i, i < cap ∧ keys s.map i = some k
  started : ∀ x ∈ s.finished, x ∈ s.started
  distinct : (s.started.map Prod.fst).Nodup
  nonnull : ∀ x ∈ s.started, x.1 ≠ 0
  few : s.started.length < cap

/-- What holds of a lookup among insertions. -/
structure LookupInv (mask : UInt32) (cap : Nat) (key : UInt64) (s : LookupSystem) : Prop where
  inserted : Inserted mask cap s
  put : PutInv mask cap s s.put
  get : GetInv mask cap key s s.get
  before : ∀ x ∈ s.before, x ∈ s.finished

theorem LookupInv.empty (table : MaskOf mask cap) (key : UInt64) :
    LookupInv mask cap key LookupSystem.empty := by
  have none : keys LookupSystem.empty.map = fun _ => none := rfl
  refine ⟨⟨?_, ?_, nofun, nofun, List.nodup_nil, nofun, table.pos⟩, trivial, trivial, nofun⟩
  · rw [none]
    exact .empty _ _
  · rw [none]
    exact nofun

/-- An insertion is of one index only. -/
theorem Inserted.unique (inserted : Inserted mask cap s) {w : Int} (here : (key, v) ∈ s.started)
    (here' : (key, w) ∈ s.started) : v = w := by
  have same := List.inj_on_of_nodup_map inserted.distinct here here' rfl
  exact congrArg Prod.snd same

/-- What the lookup knows stays true while the table grows. -/
theorem GetInv.mono {pc : GetPc} (inv : GetInv mask cap key s pc)
    (grows : Grows (keys s.map) (keys s'.map)) (before : s'.before = s.before)
    (finished : ∀ x ∈ s.finished, x ∈ s'.finished) : GetInv mask cap key s' pc := by
  cases pc with
  | idle => trivial
  | probing p =>
      exact ⟨inv.1, fun q low => (inv.2 q low).imp fun k passed => ⟨grows _ k passed.1, passed.2⟩⟩
  | found slot => exact ⟨inv.1, grows _ _ inv.2⟩
  | returned v =>
      refine ⟨fun w here => inv.1 w (before ▸ here), inv.2.imp_right (finished _)⟩

theorem Inserted.congr (inserted : Inserted mask cap s) (map : s'.map = s.map)
    (finished : s'.finished = s.finished) (started : s'.started = s.started) :
    Inserted mask cap s' := by
  obtain ⟨chained, stored, present, begun, distinct, nonnull, few⟩ := inserted
  constructor <;> simp only [map, finished, started] <;> assumption

/-! ## The insertion -/

/-- The store of an index is not seen in the keys. -/
theorem keys_storeIdx (map : StreamMap) (slot : Nat) (idx : Int) :
    keys (Function.update map slot { map slot with idx := idx }) = keys map := by
  funext i
  by_cases here : i = slot
  · simp only [keys, here, Function.update_self]
  · simp only [keys, Function.update_of_ne here]

/-- The insertion has a free slot to find. -/
theorem Inserted.exists_firstFree (inserted : Inserted mask cap s) (h : Nat) :
    ∃ p, p < cap ∧ keys s.map (slotAt h cap p) = none ∧
      ∀ q, q < p → keys s.map (slotAt h cap q) ≠ none := by
  have among : ∀ i, i < cap → keys s.map i ≠ none → (s.map i).key ∈ s.started.map Prod.fst := by
    intro i low some
    obtain ⟨k, here⟩ := Option.ne_none_iff_exists'.mp some
    rw [(keys_eq_some.mp here).1]
    exact List.mem_map_of_mem (inserted.started _ (inserted.stored i k low here))
  refine Library.exists_firstFree (fun i => (s.started.map Prod.fst).idxOf (s.map i).key)
    inserted.few (fun i low some => ?_) (fun i j low low' some some' same => ?_) h
  · have below := List.idxOf_lt_length_of_mem (among i low some)
    rwa [List.length_map] at below
  · obtain ⟨k, here⟩ := Option.ne_none_iff_exists'.mp some
    obtain ⟨k', here'⟩ := Option.ne_none_iff_exists'.mp some'
    have equal := (List.idxOf_inj (among i low some)).mp same
    rw [(keys_eq_some.mp here).1, (keys_eq_some.mp here').1] at equal
    subst equal
    exact inserted.chained.once i j k low low' here here'

/-- The insertion at the head of its loop, behind slots that are not free, has not come
around the table. -/
theorem Inserted.enterPut (inserted : Inserted mask cap s) (table : MaskOf mask cap)
    (placing : Placing cap s stream idx)
    (occupied : ∀ q, q < p → keys s.map (slotAt (hashOf mask stream) cap q) ≠ none) :
    PutInv mask cap s (enterPut mask stream idx p) := by
  obtain ⟨p', inTable, free, -⟩ := inserted.exists_firstFree (hashOf mask stream)
  have below : p < cap := by
    by_contra past
    exact occupied p' (by omega) free
  rw [Driver.enterPut, table.count, if_pos below]
  exact ⟨placing, below, occupied⟩

/-- The insertion depends on the keys and on what has begun. -/
theorem PutInv.mono {pc : PutPc} (inv : PutInv mask cap s pc) (map : s'.map = s.map)
    (started : ∀ x ∈ s.started, x ∈ s'.started) : PutInv mask cap s' pc := by
  have placing : ∀ {stream idx}, Placing cap s stream idx → Placing cap s' stream idx :=
    fun placing => ⟨started _ placing.started, by rw [map]; exact placing.absent⟩
  cases pc with
  | idle => trivial
  | probing stream idx p => exact ⟨placing inv.1, inv.2.1, by rw [map]; exact inv.2.2⟩
  | storeIdx stream idx slot => exact ⟨placing inv.1, by rw [map]; exact inv.2⟩
  | storeKey stream idx slot => exact ⟨placing inv.1, by rw [map]; exact inv.2⟩

/-- A new stream begins. -/
theorem LookupInv.putCall (inv : LookupInv mask cap key s) (table : MaskOf mask cap)
    (new : NewStream cap s (.putCall stream idx)) :
    LookupInv mask cap key { s with
      put := enterPut mask stream idx 0, started := (stream, idx) :: s.started } := by
  obtain ⟨some', fresh, room⟩ := new
  have inserted := inv.inserted
  have more : ∀ x ∈ s.started, x ∈ (stream, idx) :: s.started :=
    fun x member => List.mem_cons_of_mem _ member
  have inserted' : Inserted mask cap { s with
      put := Driver.enterPut mask stream idx 0, started := (stream, idx) :: s.started } := by
    refine ⟨inserted.chained, inserted.stored, inserted.present,
      fun x member => more x (inserted.started x member), ?_, ?_, room⟩
    · rw [List.map_cons, List.nodup_cons]
      refine ⟨fun old => ?_, inserted.distinct⟩
      obtain ⟨x, member, same⟩ := List.mem_map.mp old
      exact fresh x member same
    · intro x member
      rcases List.mem_cons.mp member with rfl | old
      · exact some'
      · exact inserted.nonnull x old
  refine ⟨inserted', inserted'.enterPut table ⟨List.mem_cons_self .., fun i low here => ?_⟩ nofun,
    inv.get.mono (.refl _) rfl fun _ => id, inv.before⟩
  exact fresh _ (inserted.started _ (inserted.stored i stream low here)) rfl

/-- **The store of the key** makes the insertion visible. -/
theorem Inserted.storeKey (inserted : Inserted mask cap s) (placing : Placing cap s stream idx)
    (free : FirstFree mask cap s.map stream slot) (stored : (s.map slot).idx = idx) :
    Inserted mask cap { s with
        map := Function.update s.map slot { s.map slot with key := stream }
        put := .idle
        finished := (stream, idx) :: s.finished } ∧
      Grows (keys s.map)
        (keys (Function.update s.map slot { s.map slot with key := stream })) := by
  obtain ⟨p, inTable, slotEq, none, occupied⟩ := free
  have some' : stream ≠ 0 := inserted.nonnull _ placing.started
  have room : 0 < cap := Nat.lt_of_le_of_lt (Nat.zero_le _) inserted.few
  have low : slot < cap := slotEq ▸ slotAt_lt room
  have keysEq : keys (Function.update s.map slot { s.map slot with key := stream }) =
      Function.update (keys s.map) slot (some stream) := keys_update s.map slot some' _
  have grows : Grows (keys s.map) (Function.update (keys s.map) slot (some stream)) :=
    .update none stream
  refine ⟨⟨?_, fun i k low' here => ?_, fun k w member => ?_, fun x member => ?_,
    inserted.distinct, inserted.nonnull, inserted.few⟩, by rw [keysEq]; exact grows⟩
  · simp only
    rw [keysEq, ← slotEq]
    exact inserted.chained.insert placing.absent inTable (by rw [slotEq]; exact none) occupied
  · simp only at here ⊢
    rw [keysEq] at here
    by_cases same : i = slot
    · rw [same, Function.update_self] at here
      cases here
      rw [same, Function.update_self, stored]
      exact List.mem_cons_self ..
    · rw [Function.update_of_ne same] at here ⊢
      exact List.mem_cons_of_mem _ (inserted.stored i k low' here)
  · simp only
    rw [keysEq]
    rcases List.mem_cons.mp member with same | old
    · cases same
      exact ⟨slot, low, Function.update_self ..⟩
    · obtain ⟨i, low', here⟩ := inserted.present k w old
      exact ⟨i, low', grows i k here⟩
  · rcases List.mem_cons.mp member with same | old
    · rw [same]
      exact placing.started
    · exact inserted.started x old

/-- **A step of the insertion.** -/
theorem LookupInv.putStep (inv : LookupInv mask cap key s) (table : MaskOf mask cap)
    (step : s.putStep mask = some s') : LookupInv mask cap key s' := by
  have inserted := inv.inserted
  have put := inv.put
  unfold LookupSystem.putStep at step
  cases pc : s.put with
  | idle =>
      rw [pc] at step
      cases step
  | probing stream idx p =>
      rw [pc] at step put
      obtain ⟨placing, inTable, occupied⟩ := put
      simp only [slotIndex_eq table] at step
      split at step
      · rename_i free
        cases step
        exact ⟨inserted.congr rfl rfl rfl,
          ⟨⟨placing.started, placing.absent⟩, p, inTable, rfl, keys_eq_none.mpr free, occupied⟩,
          inv.get.mono (.refl _) rfl fun _ => id, inv.before⟩
      · rename_i taken
        cases step
        refine ⟨inserted.congr rfl rfl rfl, ?_, inv.get.mono (.refl _) rfl fun _ => id, inv.before⟩
        refine PutInv.mono (s := s) (inserted.enterPut table placing fun q before => ?_) rfl
          fun _ => id
        by_cases last : q = p
        · rw [last]
          exact fun free => taken (keys_eq_none.mp free)
        · exact occupied q (by omega)
  | storeIdx stream idx slot =>
      rw [pc] at step put
      cases step
      obtain ⟨placing, free⟩ := put
      have same := keys_storeIdx s.map slot idx
      obtain ⟨p, inTable, slotEq, none, occupied⟩ := free
      refine ⟨⟨?_, fun i k low here => ?_, fun k w member => ?_, inserted.started, inserted.distinct,
        inserted.nonnull, inserted.few⟩, ⟨⟨placing.started, ?_⟩, ⟨p, inTable, slotEq, ?_, ?_⟩, ?_⟩,
        inv.get.mono ?_ rfl fun _ => id, inv.before⟩
      · simp only [same]
        exact inserted.chained
      · simp only [same] at here ⊢
        -- The slot that is stored to has no key.
        have other : i ≠ slot := by
          rintro rfl
          rw [none] at here
          cases here
        rw [Function.update_of_ne other]
        exact inserted.stored i k low here
      · simp only [same]
        exact inserted.present k w member
      · simp only [same]
        exact placing.absent
      · simp only [same]
        exact none
      · simp only [same]
        exact occupied
      · simp only [Function.update_self]
      · simp only [same]
        exact .refl _
  | storeKey stream idx slot =>
      rw [pc] at step put
      cases step
      obtain ⟨placing, free, stored⟩ := put
      obtain ⟨inserted', grows⟩ := inserted.storeKey placing free stored
      exact ⟨inserted', trivial, inv.get.mono grows rfl fun x => List.mem_cons_of_mem _,
        fun x member => List.mem_cons_of_mem _ (inv.before x member)⟩

/-! ## The lookup -/

/-- A stream whose insertion had finished is not behind a slot that the lookup has to stop
at: while it has not been reached, every probe passes. -/
theorem LookupInv.ahead (inv : LookupInv mask cap key s) (passed : ∀ q, q < p →
      ∃ k, keys s.map (slotAt (hashOf mask key) cap q) = some k ∧ k ≠ key)
    {w : Int} (member : (key, w) ∈ s.before) :
    ∃ i p', p ≤ p' ∧ Probes (hashOf mask) cap (keys s.map) key i p' := by
  obtain ⟨i, low, here⟩ := inv.inserted.present key w (inv.before _ member)
  obtain ⟨p', probes⟩ := inv.inserted.chained.probes low here
  refine ⟨i, p', ?_, probes⟩
  by_contra behind
  obtain ⟨k, there, other⟩ := passed p' (by omega)
  rw [probes.slot, probes.here] at there
  exact other (Option.some.inj there).symm

/-- The lookup at the head of its loop, behind slots that hold other keys. -/
theorem LookupInv.enterGet (inv : LookupInv mask cap key s) (table : MaskOf mask cap)
    (passed : ∀ q, q < p →
      ∃ k, keys s.map (slotAt (hashOf mask key) cap q) = some k ∧ k ≠ key) :
    GetInv mask cap key s (enterGet mask p) := by
  unfold Driver.enterGet
  rw [table.count]
  split
  · rename_i more
    exact ⟨more, passed⟩
  · rename_i around
    refine ⟨fun w member => ?_, .inl rfl⟩
    obtain ⟨i, p', ahead, probes⟩ := inv.ahead passed member
    have inTable := probes.inTable
    omega

/-- **A step of the lookup.** -/
theorem LookupInv.getStep (inv : LookupInv mask cap key s) (table : MaskOf mask cap)
    (some' : key ≠ 0) (step : s.getStep mask key = some s') : LookupInv mask cap key s' := by
  have inserted := inv.inserted
  have get := inv.get
  unfold LookupSystem.getStep at step
  cases pc : s.get with
  | idle =>
      rw [pc] at step
      cases step
  | probing p =>
      rw [pc] at step get
      obtain ⟨inTable, passed⟩ := get
      simp only [slotIndex_eq table] at step
      split at step
      · rename_i here
        cases step
        exact ⟨inserted.congr rfl rfl rfl, inv.put.mono rfl fun _ => id,
          ⟨slotAt_lt table.pos, keys_eq_some.mpr ⟨here, some'⟩⟩, inv.before⟩
      · rename_i other
        split at step
        · rename_i free
          have none : keys s.map (slotAt (hashOf mask key) cap p) = none := keys_eq_none.mpr free
          cases step
          refine ⟨inserted.congr rfl rfl rfl, inv.put.mono rfl fun _ => id,
            ⟨fun w member => ?_, .inl rfl⟩, inv.before⟩
          -- The probes of a stream that is there do not meet a free slot.
          obtain ⟨i, p', ahead, probes⟩ := inv.ahead passed member
          rcases Nat.lt_or_eq_of_le ahead with later | rfl
          · obtain ⟨k, taken, -⟩ := probes.passes p later
            rw [none] at taken
            cases taken
          · have here := probes.here
            rw [← probes.slot, none] at here
            cases here
        · rename_i taken
          cases step
          refine ⟨inserted.congr rfl rfl rfl, inv.put.mono rfl fun _ => id, ?_, inv.before⟩
          refine GetInv.mono (s := s) (inv.enterGet table fun q before => ?_) (.refl _) rfl
            fun _ => id
          by_cases last : q = p
          · rw [last]
            exact ⟨_, keys_eq_some.mpr ⟨rfl, taken⟩, other⟩
          · exact passed q (by omega)
  | found slot =>
      rw [pc] at step get
      cases step
      obtain ⟨low, here⟩ := get
      have finished := inserted.stored slot key low here
      have begun := inserted.started _ finished
      refine ⟨inserted.congr rfl rfl rfl, inv.put.mono rfl fun _ => id,
        ⟨fun w member => ?_, .inr finished⟩, inv.before⟩
      exact inserted.unique begun (inserted.started _ (inv.before _ member))
  | returned v =>
      rw [pc] at step
      cases step

/-- **Every step keeps the lookup and the insertions in order.** -/
theorem LookupInv.step (inv : LookupInv mask cap key s) (table : MaskOf mask cap)
    (some' : key ≠ 0) {l : LookupLabel} (new : NewStream cap s l)
    (step : (lookups mask key).step s l = some s') : LookupInv mask cap key s' := by
  cases l with
  | putCall stream idx =>
      simp only [lookups] at step
      split at step
      · cases step
        exact inv.putCall table new
      · cases step
  | putStep => exact inv.putStep table step
  | getCall =>
      simp only [lookups] at step
      split at step
      · cases step
        have here : LookupInv mask cap key { s with before := s.finished, get := .idle } :=
          ⟨inv.inserted.congr rfl rfl rfl, inv.put.mono rfl fun _ => id, trivial, fun _ => id⟩
        have get := here.enterGet table (p := 0) nofun
        exact ⟨inv.inserted.congr rfl rfl rfl, inv.put.mono rfl fun _ => id,
          get.mono (.refl _) rfl fun _ => id, fun _ => id⟩
      · cases step
  | getStep => exact inv.getStep table some' step

/-! ## The lookup returns -/

/-- How many steps the lookup can still make. -/
def getRank (cap : Nat) : GetPc → Nat
  | .idle => cap + 2
  | .probing p => cap - p + 1
  | .found _ => 1
  | .returned _ => 0

/-- A step of the lookup. -/
def LookupLabel.isGet : LookupLabel → Bool
  | .getCall => true
  | .getStep => true
  | _ => false

theorem getRank_enterGet (mask : UInt32) (cap p : Nat) :
    getRank cap (enterGet mask p) ≤ cap - p + 1 := by
  unfold enterGet
  split
  · exact Nat.le_refl _
  · exact Nat.zero_le _

/-- **Every step of the lookup brings it closer to its end**, and no other step takes it
further away. -/
theorem LookupInv.rank (inv : LookupInv mask cap key s) {l : LookupLabel} (step : (lookups mask key).step s l = some s') :
    getRank cap s'.get + (if l.isGet then 1 else 0) ≤ getRank cap s.get := by
  cases l with
  | putCall stream idx =>
      simp only [lookups] at step
      split at step
      · cases step
        exact Nat.le_refl _
      · cases step
  | putStep =>
      have same : s'.get = s.get := by
        simp only [lookups, LookupSystem.putStep] at step
        split at step
        · cases step
        · split at step <;> cases step <;> rfl
        · cases step
          rfl
        · cases step
          rfl
      rw [same]
      exact Nat.le_refl _
  | getCall =>
      simp only [lookups] at step
      split at step
      · rename_i pc
        cases step
        have entered := getRank_enterGet mask cap 0
        rw [pc]
        change getRank cap (Driver.enterGet mask 0) + 1 ≤ cap + 2
        omega
      · cases step
  | getStep =>
      have get := inv.get
      simp only [lookups, LookupSystem.getStep] at step
      cases pc : s.get with
      | idle | returned =>
          rw [pc] at step
          cases step
      | probing p =>
          rw [pc] at step get
          have below : p < cap := get.1
          simp only at step
          split at step
          · cases step
            change 1 + 1 ≤ cap - p + 1
            omega
          · split at step
            · cases step
              change 0 + 1 ≤ cap - p + 1
              omega
            · cases step
              have entered := getRank_enterGet mask cap (p + 1)
              change getRank cap (Driver.enterGet mask (p + 1)) + 1 ≤ cap - p + 1
              omega
      | found slot =>
          rw [pc] at step
          cases step
          exact Nat.le_refl 1

theorem LookupInv.run (table : MaskOf mask cap) (some' : key ≠ 0) {labels : List LookupLabel}
    (inv : LookupInv mask cap key s)
    (new : (lookups mask key).Meets (NewStream cap) labels s)
    (ran : (lookups mask key).run labels s = some s') :
    LookupInv mask cap key s' ∧
      getRank cap s'.get + labels.countP LookupLabel.isGet ≤ getRank cap s.get := by
  induction labels generalizing s with
  | nil =>
      cases ran
      exact ⟨inv, Nat.le_refl _⟩
  | cons l rest ih =>
      obtain ⟨mid, step, later⟩ := Option.bind_eq_some_iff.mp ran
      have rank := inv.rank step
      obtain ⟨last, below⟩ := ih (inv.step table some' new.1 step) (new.2 mid step) later
      refine ⟨last, ?_⟩
      rw [List.countP_cons]
      omega

/-- **A lookup among insertions.** In every interleaving of a lookup with insertions of
different streams, serialised with each other, into a table that is not filled: the lookup
returns after at most `cap + 2` steps of its own; it returns the index of its stream if
that insertion had finished before it began, -1 if there is no such insertion, and in any
case -1 or an index that an insertion of its stream has stored. -/
theorem lookup_correct (table : MaskOf mask cap) (some' : key ≠ 0) (labels : List LookupLabel)
    (s : LookupSystem)
    (new : (lookups mask key).Meets (NewStream cap) labels LookupSystem.empty)
    (ran : (lookups mask key).run labels LookupSystem.empty = some s) :
    (∀ v, s.get = .returned v →
      (∀ w, (key, w) ∈ s.before → v = w) ∧
      ((∀ w, (key, w) ∉ s.started) → v = -1) ∧
      (v = -1 ∨ (key, v) ∈ s.finished)) ∧
    (cap + 2 ≤ labels.countP LookupLabel.isGet → ∃ v, s.get = .returned v) := by
  obtain ⟨inv, rank⟩ := (LookupInv.empty table key).run table some' new ran
  refine ⟨fun v returned => ?_, fun enough => ?_⟩
  · have get := inv.get
    rw [returned] at get
    exact ⟨get.1, fun never => get.2.resolve_right fun here =>
      never v (inv.inserted.started _ here), get.2⟩
  · change _ ≤ cap + 2 at rank
    have none : getRank cap s.get = 0 := by omega
    cases pc : s.get with
    | returned v => exact ⟨v, rfl⟩
    | idle | probing | found =>
        rw [pc] at none
        simp [getRank] at none

/-- Two slots are enough for one stream; its insertion finishes, and then the lookup
begins. -/
def putThenGet : List LookupLabel :=
  [.putCall 9 4, .putStep, .putStep, .putStep, .getCall, .getStep, .getStep]

/-- Compute whether an insertion is of a new stream, and keeps the table below its
capacity. -/
def isNewStream (cap : Nat) (s : LookupSystem) : LookupLabel → Bool
  | .putCall stream _ =>
      decide (stream ≠ 0 ∧ (∀ x ∈ s.started, x.1 ≠ stream) ∧ s.started.length + 1 < cap)
  | _ => true

theorem newStream_of_isNewStream {cap : Nat} (s : LookupSystem) (l : LookupLabel)
    (passed : isNewStream cap s l = true) : NewStream cap s l := by
  cases l with
  | putCall stream idx =>
      have new : stream ≠ 0 ∧ (∀ x ∈ s.started, x.1 ≠ stream) ∧ s.started.length + 1 < cap :=
        of_decide_eq_true passed
      exact new
  | putStep | getCall | getStep => trivial

/-- The result of a lookup that has returned. -/
def LookupSystem.result (s : LookupSystem) : Option Int :=
  match s.get with
  | .returned v => some v
  | _ => none

/-- The lookup of the stream that was inserted returns its index. -/
theorem lookup_correct_putThenGet :
    ∃ s, (lookups 1 9).run putThenGet LookupSystem.empty = some s ∧ s.get = .returned 4 := by
  have new : (lookups 1 9).Meets (NewStream 2) putThenGet LookupSystem.empty :=
    Machine.meets_of_check newStream_of_isNewStream (by decide +kernel)
  have ends : ((lookups 1 9).run putThenGet LookupSystem.empty).map
      (fun s => (s.result.isSome, s.before)) = some (true, [(9, 4)]) := by decide +kernel
  obtain ⟨s, ran, facts⟩ := Option.map_eq_some_iff.mp ends
  simp only [Prod.mk.injEq] at facts
  obtain ⟨right, -⟩ := lookup_correct ⟨rfl, 1, by decide, rfl⟩ (by decide) putThenGet s new ran
  refine ⟨s, ran, ?_⟩
  cases pc : s.get with
  | returned v =>
      rw [(right v pc).1 4 (by rw [facts.2]; exact List.mem_cons_self ..)]
  | idle | probing | found => simp [LookupSystem.result, pc] at facts

example : ((lookups 1 9).run [.getCall, .putCall 9 4, .putStep, .getStep] LookupSystem.empty).map
    LookupSystem.result = some (some (-1)) := by
  decide +kernel

end OpenDS.Driver
