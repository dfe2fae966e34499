import OpenDS.Driver.StreamMap

/-!
# Registered streams

`opends_stream_register` of `opends_aisio.c` numbers the streams in the order of their
registration. The number is the index of the stream's state, of its gate word, and of
what it has in the stream map; it is never given back.

The state of a stream and its key in the map carry one number (`Numbered`), and a stream
that has a bounce slot shares it with no other (`Bounced`). One registration refuses, finds
the stream, or adds it (`Registers`).
-/

set_option autoImplicit false

namespace OpenDS.Driver

open OpenDS.Library

/-- `MAX_STREAMS`. -/
def maxStreams : Nat := 8192

/-- `STREAM_MAP_SIZE`. -/
def streamMapSize : Nat := 2 * maxStreams

/-- `STREAM_MAP_MASK`. -/
def streamMapMask : UInt32 := UInt32.ofNat (streamMapSize - 1)

/-- `struct opends_stream`. The gate is the index of its word; null pointers are
`none`. -/
structure OpendsStream where
  gate : Option Nat
  gateDptr : Nat
  nextSeq : UInt32
  bounceBuf : Option Nat
  bounceDescHost : Option Nat
  bounceDescDev : Nat

/-- What `struct driver` has of the streams. -/
structure StreamTable where
  workersReady : Bool
  streams : Nat → OpendsStream
  nStreams : Nat
  streamWords : Nat → UInt32
  streamWordsDptr : Nat
  streamMap : StreamMap

/-- What the allocators of the accelerator and of `xnvme` answer to
`stream_bounce_alloc`: the host and device address of the descriptor, and the buffer. -/
structure BounceAnswer where
  desc : Except { rc : Int // rc ≠ 0 } (Nat × Nat)
  buf : Option Nat

/-- The errors of `opends_stream_register`. -/
inductive StreamError where
  | driverNotInitialized
  | invalidValue
  | deviceDriverError
  | internalError (devErr : Int)
  deriving DecidableEq, Repr

/-- `stream_bounce_alloc`. -/
def streamBounceAlloc (s : OpendsStream) (a : BounceAnswer) : OpendsStream × Int :=
  let s := { s with bounceBuf := none, bounceDescHost := none, bounceDescDev := 0 }
  match a.desc with
  | .error rc => (s, rc)
  | .ok desc =>
    match a.buf with
    | none => (s, -1)
    | some buf =>
      ({ s with bounceDescHost := some desc.1, bounceDescDev := desc.2, bounceBuf := some buf }, 0)

/-- `stream_bounce_free`. -/
def streamBounceFree (s : OpendsStream) : OpendsStream :=
  { s with bounceBuf := none, bounceDescHost := none, bounceDescDev := 0 }

namespace StreamTable

variable (d : StreamTable)

/-- The state of stream `n` with its gate, which is closed. -/
def withGate (n : Nat) : OpendsStream :=
  { d.streams n with gate := some n, gateDptr := d.streamWordsDptr + n * 4, nextSeq := 0 }

/-- `opends_stream_register` from `int n = drv->n_streams` on. -/
def registerNew (stream : UInt64) (a : BounceAnswer) : StreamTable × Except StreamError Unit :=
  let n := d.nStreams
  let words := Function.update d.streamWords n 0
  let out := streamBounceAlloc (d.withGate n) a
  let d := { d with streams := Function.update d.streams n out.1, streamWords := words }
  if out.2 ≠ 0 then (d, .error (.internalError out.2))
  else
    let put := dsStreamMapPut d.streamMap streamMapMask stream n
    if put.1 < 0 then
      ({ d with streams := Function.update d.streams n (streamBounceFree out.1) },
        .error (.internalError 0))
    else ({ d with streamMap := put.2, nStreams := n + 1 }, .ok ())

/-- `opends_stream_register` once there is a driver. -/
def register (stream : UInt64) (a : BounceAnswer) : StreamTable × Except StreamError Unit :=
  if stream = 0 then (d, .error .invalidValue)
  else if d.workersReady = false then (d, .error .deviceDriverError)
  else if 0 ≤ dsStreamMapGet d.streamMap streamMapMask stream then (d, .ok ())
  else if maxStreams ≤ d.nStreams then (d, .error (.internalError 0))
  else d.registerNew stream a

/-- `opends_stream_get`: the index of the stream's state. -/
def get (stream : UInt64) : Option Nat :=
  let idx := dsStreamMapGet d.streamMap streamMapMask stream
  if idx < 0 then none else some idx.toNat

end StreamTable

/-- `opends_stream_register`. -/
def opendsStreamRegister (drv : Option StreamTable) (stream : UInt64) (a : BounceAnswer) :
    Option StreamTable × Except StreamError Unit :=
  match drv with
  | none => (none, .error .driverNotInitialized)
  | some d => (some (d.register stream a).1, (d.register stream a).2)

/-- `opends_stream_deregister`. -/
def opendsStreamDeregister (drv : Option StreamTable) (_stream : UInt64) :
    Option StreamTable × Except StreamError Unit :=
  (drv, .ok ())

/-- The table of a driver that has just been opened, whatever the fields of the streams
are. -/
def StreamTable.opened (words : Nat → UInt32) (dptr : Nat) : StreamTable where
  workersReady := true
  streams _ := ⟨none, 0, 0, none, none, 0⟩
  nStreams := 0
  streamWords := words
  streamWordsDptr := dptr
  streamMap _ := ⟨0, 0⟩

/-! ## The invariant -/

theorem streamMapMask_table : MaskOf streamMapMask streamMapSize :=
  ⟨by decide, 14, by decide, by decide⟩

/-- The bounce slots of two streams have nothing in common. -/
def Apart (s t : OpendsStream) : Prop :=
  s.gate ≠ t.gate ∧ s.bounceBuf ≠ t.bounceBuf ∧ s.bounceDescHost ≠ t.bounceDescHost

/-- The registered streams have different numbers, and no search for one of them ends
before it. -/
structure Numbered (d : StreamTable) : Prop where
  count : d.nStreams ≤ maxStreams
  chained : Chained (hashOf streamMapMask) streamMapSize (keys d.streamMap)
  number : ∀ i, i < streamMapSize → keys d.streamMap i ≠ none →
    ∃ n, n < d.nStreams ∧ (d.streamMap i).idx = n
  distinct : ∀ i j, i < streamMapSize → j < streamMapSize → keys d.streamMap i ≠ none →
    keys d.streamMap j ≠ none → (d.streamMap i).idx = (d.streamMap j).idx → i = j

/-- The state of each number has its own gate and its own bounce slot. -/
structure Bounced (d : StreamTable) : Prop where
  gate : ∀ n, n < d.nStreams → (d.streams n).gate = some n
  apart : ∀ m n, m < d.nStreams → n < d.nStreams → m ≠ n → Apart (d.streams m) (d.streams n)

/-- The allocators hand out nothing that a registered stream holds. -/
def FreshBounce (d : StreamTable) (a : BounceAnswer) : Prop :=
  ∀ n, n < d.nStreams →
    (∀ buf, a.buf = some buf → (d.streams n).bounceBuf ≠ some buf) ∧
    ∀ desc, a.desc = .ok desc → (d.streams n).bounceDescHost ≠ some desc.1

variable {d d' : StreamTable} {stream other : UInt64} {a : BounceAnswer} {i n : Nat}

theorem Numbered.opened (words : Nat → UInt32) (dptr : Nat) :
    Numbered (StreamTable.opened words dptr) :=
  ⟨Nat.zero_le _, .empty _ _, fun _ _ some => absurd rfl some, fun _ _ _ _ some => absurd rfl some⟩

theorem Bounced.opened (words : Nat → UInt32) (dptr : Nat) :
    Bounced (StreamTable.opened words dptr) :=
  ⟨nofun, nofun⟩

/-- A stream is found at the slot that has its key. -/
theorem Numbered.get_of_key (inv : Numbered d) (low : i < streamMapSize)
    (here : keys d.streamMap i = some stream) :
    ∃ n, n < d.nStreams ∧ (d.streamMap i).idx = n ∧ d.get stream = some n := by
  obtain ⟨p, probes⟩ := inv.chained.probes low here
  obtain ⟨n, below, idx⟩ := inv.number i low (by rw [here]; exact nofun)
  refine ⟨n, below, idx, ?_⟩
  rw [StreamTable.get, dsStreamMapGet_of_probes streamMapMask_table probes, idx]
  exact (if_neg (by omega)).trans (by rw [Int.toNat_natCast])

/-- **A stream is found** exactly if some slot has its key. -/
theorem Numbered.get_eq_some_iff (inv : Numbered d) (some' : stream ≠ 0) :
    d.get stream = some n ↔
      ∃ i, i < streamMapSize ∧ keys d.streamMap i = some stream ∧ (d.streamMap i).idx = n := by
  constructor
  · intro found
    by_cases here : ∃ i, i < streamMapSize ∧ keys d.streamMap i = some stream
    · obtain ⟨i, low, here⟩ := here
      obtain ⟨m, -, idx, get⟩ := inv.get_of_key low here
      rw [get] at found
      cases found
      exact ⟨i, low, here, idx⟩
    · have absent : ∀ i, i < streamMapSize → keys d.streamMap i ≠ some stream :=
        fun i low key => here ⟨i, low, key⟩
      rw [StreamTable.get, dsStreamMapGet_of_absent streamMapMask_table some' absent] at found
      cases found
  · rintro ⟨i, low, here, idx⟩
    obtain ⟨m, -, idx', get⟩ := inv.get_of_key low here
    rw [get]
    congr 1
    omega

theorem Numbered.get_eq_none_iff (inv : Numbered d) (some' : stream ≠ 0) :
    d.get stream = none ↔ ∀ i, i < streamMapSize → keys d.streamMap i ≠ some stream := by
  constructor
  · intro missing i low here
    obtain ⟨n, -, -, get⟩ := inv.get_of_key low here
    rw [get] at missing
    cases missing
  · intro absent
    rw [StreamTable.get, dsStreamMapGet_of_absent streamMapMask_table some' absent]
    rfl

/-- Two streams that are found at one number are one stream. -/
theorem Numbered.get_injective (inv : Numbered d) (some₁ : stream ≠ 0) (some₂ : other ≠ 0)
    (found : d.get stream = some n) (found' : d.get other = some n) : stream = other := by
  obtain ⟨i, low, here, idx⟩ := (inv.get_eq_some_iff some₁).mp found
  obtain ⟨j, low', here', idx'⟩ := (inv.get_eq_some_iff some₂).mp found'
  have same := inv.distinct i j low low' (by rw [here]; exact nofun) (by rw [here']; exact nofun)
    (idx.trans idx'.symm)
  rw [same, here'] at here
  exact (Option.some.inj here).symm

/-! ## What a registration does -/

theorem get_eq_none_iff_neg :
    d.get stream = none ↔ dsStreamMapGet d.streamMap streamMapMask stream < 0 := by
  simp only [StreamTable.get]
  split
  · rename_i negative
    exact ⟨fun _ => negative, fun _ => rfl⟩
  · rename_i found
    exact ⟨nofun, fun negative => absurd negative found⟩

/-- The effects of a registration. -/
inductive Registers (d : StreamTable) (stream : UInt64) (a : BounceAnswer) :
    StreamTable → Except StreamError Unit → Prop where
  | refused (e : StreamError) :
      (stream = 0 ∨ d.workersReady = false ∨ (d.get stream = none ∧ maxStreams ≤ d.nStreams)) →
      Registers d stream a d (.error e)
  | known : stream ≠ 0 → d.get stream ≠ none → Registers d stream a d (.ok ())
  | noBounce (e : StreamError) (s : OpendsStream) (words : Nat → UInt32) : d.get stream = none →
      (streamBounceAlloc (d.withGate d.nStreams) a).2 ≠ 0 →
      Registers d stream a
        { d with streams := Function.update d.streams d.nStreams s, streamWords := words } (.error e)
  | new (p : Nat) (buf : Nat) (desc : Nat × Nat) (s : OpendsStream) (words : Nat → UInt32) :
      stream ≠ 0 → d.get stream = none → d.nStreams < maxStreams →
      p < streamMapSize →
      keys d.streamMap (slotAt (hashOf streamMapMask stream) streamMapSize p) = none →
      (∀ q, q < p →
        keys d.streamMap (slotAt (hashOf streamMapMask stream) streamMapSize q) ≠ none) →
      a.buf = some buf → a.desc = .ok desc →
      s.gate = some d.nStreams → s.bounceBuf = some buf → s.bounceDescHost = some desc.1 →
      Registers d stream a
        { d with
          streams := Function.update d.streams d.nStreams s
          streamWords := words
          streamMap := Function.update d.streamMap
            (slotAt (hashOf streamMapMask stream) streamMapSize p) ⟨stream, d.nStreams⟩
          nStreams := d.nStreams + 1 } (.ok ())

/-- There is a free slot for a stream while the table is not full. -/
theorem Numbered.exists_firstFree (inv : Numbered d) (stream : UInt64) :
    ∃ p, p < streamMapSize ∧
      keys d.streamMap (slotAt (hashOf streamMapMask stream) streamMapSize p) = none ∧
      ∀ q, q < p →
        keys d.streamMap (slotAt (hashOf streamMapMask stream) streamMapSize q) ≠ none := by
  have count := inv.count
  refine Library.exists_firstFree (fun i => (d.streamMap i).idx.toNat) (n := d.nStreams) ?_ ?_ ?_ _
  · simp only [maxStreams, streamMapSize] at count ⊢
    omega
  · intro i low some
    obtain ⟨n, below, idx⟩ := inv.number i low some
    rw [idx, Int.toNat_natCast]
    exact below
  · intro i j low low' some some' same
    obtain ⟨n, -, idx⟩ := inv.number i low some
    obtain ⟨m, -, idx'⟩ := inv.number j low' some'
    refine inv.distinct i j low low' some some' ?_
    simp only [idx, idx', Int.toNat_natCast] at same
    rw [idx, idx', same]

theorem streamBounceAlloc_eq_zero {s : OpendsStream} (none : (streamBounceAlloc s a).2 = 0) :
    ∃ buf desc, a.buf = some buf ∧ a.desc = .ok desc ∧
      (streamBounceAlloc s a).1.gate = s.gate ∧
      (streamBounceAlloc s a).1.bounceBuf = some buf ∧
      (streamBounceAlloc s a).1.bounceDescHost = some desc.1 := by
  cases desc : a.desc with
  | error rc =>
      simp only [streamBounceAlloc, desc] at none
      exact absurd none rc.2
  | ok desc' =>
      cases buf : a.buf with
      | none =>
          simp only [streamBounceAlloc, desc, buf] at none
          cases none
      | some buf' =>
          refine ⟨buf', desc', rfl, rfl, ?_⟩
          simp only [streamBounceAlloc, desc, buf, and_self]

/-- **Every registration has one of the effects.** -/
theorem Numbered.register_effect (inv : Numbered d) (stream : UInt64) (a : BounceAnswer) :
    Registers d stream a (d.register stream a).1 (d.register stream a).2 := by
  unfold StreamTable.register
  split
  · rename_i null
    exact .refused _ (.inl null)
  split
  · rename_i notReady
    exact .refused _ (.inr (.inl notReady))
  split
  · rename_i some' _ found
    refine .known some' fun missing => ?_
    have negative := get_eq_none_iff_neg.mp missing
    omega
  rename_i some' _ missing
  have none : d.get stream = none := get_eq_none_iff_neg.mpr (by omega)
  split
  · rename_i full
    exact .refused _ (.inr (.inr ⟨none, full⟩))
  rename_i room
  unfold StreamTable.registerNew
  simp only
  split
  · rename_i failed
    exact .noBounce _ _ _ none failed
  · rename_i went
    obtain ⟨p, inTable, free, occupied⟩ := inv.exists_firstFree stream
    obtain ⟨buf, desc, answered, answered', gate, bounce, host⟩ :=
      streamBounceAlloc_eq_zero (not_not.mp went)
    rw [dsStreamMapPut_of_firstFree streamMapMask_table inTable free occupied]
    simp only [lt_irrefl, if_false]
    exact .new p buf desc _ _ some' none (by omega) inTable free occupied answered answered' gate
      bounce host

/-- **A new stream gets the next number.** -/
theorem Numbered.of_new (inv : Numbered d) {p : Nat} {s : Nat → OpendsStream}
    {words : Nat → UInt32} (some' : stream ≠ 0) (missing : d.get stream = none)
    (room : d.nStreams < maxStreams) (inTable : p < streamMapSize)
    (free : keys d.streamMap (slotAt (hashOf streamMapMask stream) streamMapSize p) = none)
    (occupied : ∀ q, q < p →
      keys d.streamMap (slotAt (hashOf streamMapMask stream) streamMapSize q) ≠ none) :
    Numbered { d with
      streams := s
      streamWords := words
      streamMap := Function.update d.streamMap
        (slotAt (hashOf streamMapMask stream) streamMapSize p) ⟨stream, d.nStreams⟩
      nStreams := d.nStreams + 1 } := by
  have absent := (inv.get_eq_none_iff some').mp missing
  generalize slot : slotAt (hashOf streamMapMask stream) streamMapSize p = at' at free ⊢
  have entry : ∀ i, i ≠ at' → Function.update d.streamMap at' ⟨stream, d.nStreams⟩ i =
      d.streamMap i := fun i other => Function.update_of_ne other _ _
  have entry' : Function.update d.streamMap at' ⟨stream, (d.nStreams : Int)⟩ at' =
      ⟨stream, d.nStreams⟩ := Function.update_self ..
  -- A slot that holds a key other than the new one held it before.
  have old : ∀ i, i ≠ at' → keys (Function.update d.streamMap at' ⟨stream, d.nStreams⟩) i ≠ none →
      keys d.streamMap i ≠ none := by
    intro i other some
    rwa [keys_update _ _ some', Function.update_of_ne other] at some
  refine ⟨room, ?_, fun i low some => ?_, fun i j low low' some₁ some₂ idx => ?_⟩
  · simp only
    rw [keys_update _ _ some', ← slot]
    exact inv.chained.insert absent inTable (by rw [slot]; exact free) occupied
  · by_cases here : i = at'
    · subst here
      exact ⟨d.nStreams, Nat.lt_succ_self _, congrArg MapEntry.idx entry'⟩
    · obtain ⟨n, below, number⟩ := inv.number i low (old i here some)
      refine ⟨n, Nat.lt_succ_of_lt below, ?_⟩
      simp only [entry i here, number]
  · simp only at idx
    by_cases here : i = at'
    · by_cases there : j = at'
      · rw [here, there]
      · obtain ⟨n, below, number⟩ := inv.number j low' (old j there some₂)
        rw [here, entry', entry j there, number] at idx
        simp only at idx
        omega
    · by_cases there : j = at'
      · obtain ⟨n, below, number⟩ := inv.number i low (old i here some₁)
        rw [there, entry', entry i here, number] at idx
        simp only at idx
        omega
      · rw [entry i here, entry j there] at idx
        exact inv.distinct i j low low' (old i here some₁) (old j there some₂) idx

/-- **A registration keeps the numbers in order.** -/
theorem Numbered.register (inv : Numbered d) (stream : UInt64) (a : BounceAnswer) :
    Numbered (d.register stream a).1 := by
  have effect := inv.register_effect stream a
  generalize d.register stream a = out at effect ⊢
  obtain ⟨d', result⟩ := out
  cases effect with
  | refused | known => exact inv
  | noBounce e s words missing failed => exact ⟨inv.count, inv.chained, inv.number, inv.distinct⟩
  | new p buf desc s words some' missing room inTable free occupied =>
      exact inv.of_new some' missing room inTable free occupied

/-- A state past the registered ones is not theirs. -/
theorem Bounced.of_streams (bounced : Bounced d) (s : OpendsStream) (words : Nat → UInt32) :
    Bounced { d with
      streams := Function.update d.streams d.nStreams s, streamWords := words } := by
  have same : ∀ n, n < d.nStreams → Function.update d.streams d.nStreams s n = d.streams n :=
    fun n below => Function.update_of_ne (Nat.ne_of_lt below) _ _
  refine ⟨fun n below => ?_, fun m n below below' other => ?_⟩
  · simp only [same n below]
    exact bounced.gate n below
  · simp only [same m below, same n below']
    exact bounced.apart m n below below' other

/-- The state of a new stream has nothing in common with the others. -/
theorem Bounced.of_new (bounced : Bounced d) {s : OpendsStream} {words : Nat → UInt32}
    {map : StreamMap} (gate : s.gate = some d.nStreams)
    (apart : ∀ n, n < d.nStreams → Apart (d.streams n) s) :
    Bounced { d with
      streams := Function.update d.streams d.nStreams s
      streamWords := words
      streamMap := map
      nStreams := d.nStreams + 1 } := by
  have same : ∀ n, n < d.nStreams → Function.update d.streams d.nStreams s n = d.streams n :=
    fun n below => Function.update_of_ne (Nat.ne_of_lt below) _ _
  have new : Function.update d.streams d.nStreams s d.nStreams = s := Function.update_self ..
  refine ⟨fun n below => ?_, fun m n below below' other => ?_⟩
  · rcases Nat.lt_succ_iff_lt_or_eq.mp below with before | rfl
    · simp only [same n before]
      exact bounced.gate n before
    · simp only [new]
      exact gate
  · rcases Nat.lt_succ_iff_lt_or_eq.mp below with before | rfl
    · rcases Nat.lt_succ_iff_lt_or_eq.mp below' with before' | rfl
      · simp only [same m before, same n before']
        exact bounced.apart m n before before' other
      · simp only [same m before, new]
        exact apart m before
    · rcases Nat.lt_succ_iff_lt_or_eq.mp below' with before' | rfl
      · simp only [same n before', new]
        obtain ⟨gates, bufs, descs⟩ := apart n before'
        exact ⟨gates.symm, bufs.symm, descs.symm⟩
      · exact absurd rfl other

/-- **A registration keeps the states apart.** -/
theorem Bounced.register (bounced : Bounced d) (inv : Numbered d) (fresh : FreshBounce d a)
    (stream : UInt64) : Bounced (d.register stream a).1 := by
  have effect := inv.register_effect stream a
  generalize d.register stream a = out at effect ⊢
  obtain ⟨d', result⟩ := out
  cases effect with
  | refused | known => exact bounced
  | noBounce e s words missing failed => exact bounced.of_streams s words
  | new p buf desc s words some' missing room inTable free occupied answered answered' gate bounce
      host =>
      refine bounced.of_new gate fun n below => ?_
      obtain ⟨freshBuf, freshDesc⟩ := fresh n below
      refine ⟨?_, bounce ▸ freshBuf buf answered, host ▸ freshDesc desc answered'⟩
      rw [bounced.gate n below, gate]
      exact fun same => absurd (Option.some.inj same) (Nat.ne_of_lt below)

/-- **A registration changes no stream that is found**: it has its number and its state
as before. -/
theorem Numbered.register_keeps (inv : Numbered d) (stream : UInt64) (a : BounceAnswer)
    (some' : other ≠ 0) (found : d.get other = some n) :
    (d.register stream a).1.get other = some n ∧
      (d.register stream a).1.streams n = d.streams n := by
  have inv' := inv.register stream a
  have effect := inv.register_effect stream a
  obtain ⟨i, low, here, idx⟩ := (inv.get_eq_some_iff some').mp found
  have below : n < d.nStreams := by
    obtain ⟨m, below, idx'⟩ := inv.number i low (by rw [here]; exact nofun)
    omega
  generalize d.register stream a = out at effect inv' ⊢
  obtain ⟨d', result⟩ := out
  cases effect with
  | refused | known => exact ⟨found, rfl⟩
  | noBounce e s words missing failed => exact ⟨found, Function.update_of_ne (Nat.ne_of_lt below) _ _⟩
  | new p buf desc s words some₁ missing room inTable free occupied =>
      refine ⟨(inv'.get_eq_some_iff some').mpr ⟨i, low, ?_, ?_⟩,
        Function.update_of_ne (Nat.ne_of_lt below) _ _⟩
      · simp only
        rw [keys_update _ _ some₁]
        exact Grows.update free stream i other here
      · have old : i ≠ slotAt (hashOf streamMapMask stream) streamMapSize p := by
          rintro rfl
          rw [free] at here
          cases here
        simp only [Function.update_of_ne old]
        exact idx

/-- **A registration finds its own stream if it succeeds, and no other new one.** -/
theorem Numbered.register_found (inv : Numbered d) (some' : other ≠ 0) :
    (d.register stream a).1.get other ≠ none ↔
      d.get other ≠ none ∨ (other = stream ∧ (d.register stream a).2 = .ok ()) := by
  have inv' := inv.register stream a
  have effect := inv.register_effect stream a
  generalize d.register stream a = out at effect inv' ⊢
  obtain ⟨d', result⟩ := out
  cases effect with
  | refused e why => exact ⟨.inl, fun found => found.resolve_right (by simp)⟩
  | known some₁ found =>
      refine ⟨.inl, fun either => either.elim id ?_⟩
      rintro ⟨rfl, -⟩
      exact found
  | noBounce e s words missing failed => exact ⟨.inl, fun found => found.resolve_right (by simp)⟩
  | new p buf desc s words some₁ missing room inTable free occupied =>
      have seen : ∀ i, keys (Function.update d.streamMap
          (slotAt (hashOf streamMapMask stream) streamMapSize p) ⟨stream, d.nStreams⟩) i =
          some other ↔ keys d.streamMap i = some other ∨
            (i = slotAt (hashOf streamMapMask stream) streamMapSize p ∧ other = stream) := by
        intro i
        rw [keys_update _ _ some₁]
        by_cases here : i = slotAt (hashOf streamMapMask stream) streamMapSize p
        · rw [here, Function.update_self, free]
          simp [eq_comm]
        · rw [Function.update_of_ne here]
          simp [here]
      rw [Ne, Ne, inv'.get_eq_none_iff some', inv.get_eq_none_iff some']
      simp only [not_forall, not_not, seen]
      constructor
      · rintro ⟨i, low, here | ⟨-, rfl⟩⟩
        · exact .inl ⟨i, low, here⟩
        · exact .inr ⟨rfl, trivial⟩
      · rintro (⟨i, low, here⟩ | ⟨rfl, -⟩)
        · exact ⟨i, low, .inl here⟩
        · exact ⟨_, slotAt_lt (by decide), .inr ⟨rfl, rfl⟩⟩

/-- A registration that fails changes no lookup. -/
theorem Numbered.register_failed (inv : Numbered d) (failed : (d.register stream a).2 ≠ .ok ())
    (other : UInt64) : (d.register stream a).1.get other = d.get other := by
  have effect := inv.register_effect stream a
  generalize d.register stream a = out at effect failed ⊢
  obtain ⟨d', result⟩ := out
  cases effect with
  | refused | noBounce => rfl
  | known | new => exact absurd rfl failed

/-- The bounce slot of the registration is allocated. -/
def BounceSucceeds (a : BounceAnswer) : Prop := ∃ buf desc, a.buf = some buf ∧ a.desc = .ok desc

/-- **While there is room a registration succeeds**, and when there is none only those of
streams that are known. -/
theorem Numbered.register_ok_iff (inv : Numbered d) (ready : d.workersReady = true)
    (some' : stream ≠ 0) (bounce : BounceSucceeds a) :
    (d.register stream a).2 = .ok () ↔ d.get stream ≠ none ∨ d.nStreams < maxStreams := by
  have effect := inv.register_effect stream a
  generalize d.register stream a = out at effect ⊢
  obtain ⟨d', result⟩ := out
  cases effect with
  | refused e why =>
      refine ⟨nofun, fun either => absurd why ?_⟩
      rintro (null | notReady | ⟨missing, full⟩)
      · exact some' null
      · rw [ready] at notReady
        cases notReady
      · exact either.elim (fun found => found missing) fun room => by omega
  | known some₁ found => exact ⟨fun _ => .inl found, fun _ => rfl⟩
  | noBounce e s words missing failed =>
      obtain ⟨buf, desc, answered, answered'⟩ := bounce
      refine absurd ?_ failed
      simp only [streamBounceAlloc, answered, answered']
  | new p buf desc s words some₁ missing room => exact ⟨fun _ => .inr room, fun _ => rfl⟩

theorem register_ready (inv : Numbered d) (stream : UInt64) (a : BounceAnswer) :
    (d.register stream a).1.workersReady = d.workersReady := by
  have effect := inv.register_effect stream a
  generalize d.register stream a = out at effect ⊢
  obtain ⟨d', result⟩ := out
  cases effect with
  | refused | known | noBounce | new => rfl

end OpenDS.Driver
