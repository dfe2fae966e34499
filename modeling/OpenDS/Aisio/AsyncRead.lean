import OpenDS.Aisio.ReadRun

/-!
# Asynchronous reads of whole files

The result of a finished read counts the positions of the request that lie in
some extent (`Span.card_inside`). Below the end of the file that is all of them
exactly when no position of the request lies in a hole, so a read of a file
without holes is a read of the file, and a read that meets a hole reports fewer
bytes than it spans.
-/

set_option autoImplicit false

namespace OpenDS.Aisio

open OpenDS.Library ReadState

variable {d : Driver} {dev : Device} {extents : List Extent} {r : Span}

/-! ## The positions of a request inside the extents -/

/-- The file positions of the request that lie in some extent. -/
def Span.inside (r : Span) (extents : List Extent) : Finset Nat :=
  (Finset.Ico r.reqStart r.reqEnd).filter fun p => ∃ e ∈ extents, e.fileOffset ≤ p ∧ p < e.fileEnd

@[simp] theorem Span.mem_inside {p : Nat} : p ∈ r.inside extents ↔ r.InExtents extents p := by
  simp [Span.inside, Span.InExtents, and_assoc]

theorem Span.inside_cons (r : Span) (e : Extent) (rest : List Extent) :
    r.inside (e :: rest) =
      Finset.Ico (max r.reqStart e.fileOffset) (min r.reqEnd e.fileEnd) ∪ r.inside rest := by
  ext p
  simp only [Span.mem_inside, Finset.mem_union, Finset.mem_Ico, Span.InExtents]
  constructor
  · rintro ⟨start, stop, e', member, low, high⟩
    rcases List.mem_cons.mp member with rfl | later
    · exact .inl (by omega)
    · exact .inr ⟨start, stop, e', later, low, high⟩
  · rintro (here | ⟨start, stop, e', later, low, high⟩)
    · exact ⟨by omega, by omega, e, by simp, by omega, by omega⟩
    · exact ⟨start, stop, e', List.mem_cons_of_mem _ later, low, high⟩

/-- **The bytes a read plans are its positions inside the extents.** -/
theorem Span.card_inside (lay : Layout d extents) :
    (r.inside extents).card = (extents.map r.overlap).sum := by
  induction extents with
  | nil => simp [Span.inside]
  | cons e rest ih =>
      have apart : Disjoint (Finset.Ico (max r.reqStart e.fileOffset) (min r.reqEnd e.fileEnd))
          (r.inside rest) := by
        rw [Finset.disjoint_left]
        intro p here later
        rw [Finset.mem_Ico] at here
        obtain ⟨-, -, e', member, low, -⟩ := Span.mem_inside.mp later
        have after := lay.after e' member
        omega
      rw [Span.inside_cons, Finset.card_union_of_disjoint apart, ih lay.tail, Nat.card_Ico,
        List.map_cons, List.sum_cons, Span.overlap]

theorem endOfFile_cons (e e' : Extent) (rest : List Extent) :
    endOfFile (e :: e' :: rest) = endOfFile (e' :: rest) := by
  simp [endOfFile]

/-- No extent reaches past the end of the file. -/
theorem Layout.fileEnd_le (lay : Layout d extents) {e : Extent} (member : e ∈ extents) :
    e.fileEnd ≤ endOfFile extents := by
  induction extents generalizing e with
  | nil => cases member
  | cons first rest ih =>
      cases rest with
      | nil =>
          rw [List.mem_singleton.mp member]
          exact Nat.le_refl _
      | cons second rest =>
          rw [endOfFile_cons]
          rcases List.mem_cons.mp member with rfl | later
          · have next := lay.after second (List.mem_cons_self ..)
            have last := ih lay.tail (List.mem_cons_self ..)
            simp only [Extent.fileEnd] at *
            omega
          · exact ih lay.tail later

/-- The position lies below the end of the file and in no extent. -/
def InHole (extents : List Extent) (p : Nat) : Prop :=
  p < endOfFile extents ∧ ∀ e ∈ extents, ¬ (e.fileOffset ≤ p ∧ p < e.fileEnd)

/-- The part of the request below the end of the file meets no hole. -/
def Span.Dense (r : Span) (extents : List Extent) : Prop :=
  ∀ p, r.reqStart ≤ p → p < r.reqEnd → ¬ InHole extents p

theorem Span.inside_subset (lay : Layout d extents) :
    r.inside extents ⊆ Finset.Ico r.reqStart (min r.reqEnd (endOfFile extents)) := by
  intro p inside
  obtain ⟨start, stop, e, member, -, high⟩ := Span.mem_inside.mp inside
  have below := lay.fileEnd_le member
  rw [Finset.mem_Ico]
  omega

/-- A request lies in the extents up to the end of the file exactly when it
meets no hole. -/
theorem Span.dense_iff_inside (lay : Layout d extents) :
    r.Dense extents ↔
      r.inside extents = Finset.Ico r.reqStart (min r.reqEnd (endOfFile extents)) := by
  constructor
  · intro dense
    refine (Span.inside_subset lay).antisymm fun p between => ?_
    rw [Finset.mem_Ico] at between
    have outside := dense p (by omega) (by omega)
    by_contra missed
    refine outside ⟨by omega, fun e member within => missed ?_⟩
    exact Span.mem_inside.mpr ⟨by omega, by omega, e, member, within⟩
  · intro whole p start stop ⟨below, hole⟩
    have inside : p ∈ r.inside extents := by
      rw [whole, Finset.mem_Ico]
      omega
    obtain ⟨-, -, e, member, within⟩ := Span.mem_inside.mp inside
    exact hole e member within

/-- **The count of a read is the count of its span below the end of the file
exactly when it meets no hole.** -/
theorem Span.sum_overlap_eq_iff (lay : Layout d extents) :
    (extents.map r.overlap).sum = min r.reqEnd (endOfFile extents) - r.reqStart ↔
      r.Dense extents := by
  rw [Span.dense_iff_inside lay, ← Span.card_inside lay, ← Nat.card_Ico]
  constructor
  · intro count
    exact Finset.eq_of_subset_of_card_le (Span.inside_subset lay) (Nat.le_of_eq count.symm)
  · intro same
    rw [same]

theorem Span.sum_overlap_le (lay : Layout d extents) :
    (extents.map r.overlap).sum ≤ min r.reqEnd (endOfFile extents) - r.reqStart := by
  rw [← Span.card_inside lay, ← Nat.card_Ico]
  exact Finset.card_le_card (Span.inside_subset lay)

/-! ## Reads of a file -/

/-- The result of a read of the file: as many bytes as the request and the file
have, and these are the bytes of the file. -/
structure DeliversFile (d : Driver) (dev : Device) (extents : List Extent) (st st' : ReadState)
    (n : Int) : Prop where
  count : n = (min st.op.size (endOfFile extents - st.op.fileOffset.toNat) : Nat)
  data : ∀ k : Nat, k < n →
    st'.mem.load st.op.span.dstBase k = fileByte d dev extents (st.op.fileOffset.toNat + k)

/-- The offset of a read is an `off_t` that is not negative, and the range it
asks for does not wrap. -/
structure Ranged (st : ReadState) : Prop where
  nonneg : 0 ≤ st.op.fileOffset
  offT : st.op.fileOffset < 2 ^ 63
  noWrap : st.op.fileOffset.toNat + st.op.size < 2 ^ 64

theorem Ranged.reqStart {st : ReadState} (ranged : Ranged st) :
    st.op.span.reqStart = st.op.fileOffset.toNat :=
  u64_of_nonneg ranged.nonneg ranged.offT

theorem Ranged.reqEnd {st : ReadState} (ranged : Ranged st) :
    st.op.span.reqEnd = st.op.fileOffset.toNat + st.op.size := by
  change u64 st.op.fileOffset + st.op.size = _
  rw [u64_of_nonneg ranged.nonneg ranged.offT]

theorem Ranged.width {st : ReadState} (ranged : Ranged st) :
    min st.op.span.reqEnd (endOfFile extents) - st.op.span.reqStart =
      min st.op.size (endOfFile extents - st.op.fileOffset.toNat) := by
  rw [ranged.reqStart, ranged.reqEnd]
  omega

/-- **A finished read delivers the file exactly when its span meets no hole.** -/
theorem ReadOutcome.delivers_iff (lay : Layout d extents) (eof : endOfFile extents < 2 ^ 63)
    {st st' : ReadState} (ranged : Ranged st) (outcome : ReadOutcome d dev extents st st') {n : Int}
    (result : st'.op.result = some n) (accepted : n ≠ -OpError.invalidValue.code) :
    DeliversFile d dev extents st st' n ↔ st.op.span.Dense extents := by
  obtain ⟨counted, stamp⟩ := (outcome.completed n result).resolve_left accepted
  have bound := Span.sum_overlap_le (r := st.op.span) lay
  have count : n = ((extents.map st.op.span.overlap).sum : Nat) := by
    rw [counted]
    exact ssize_of_lt (by omega)
  constructor
  · intro delivers
    refine (Span.sum_overlap_eq_iff lay).mp ?_
    rw [ranged.width]
    have expected := delivers.count
    omega
  · intro dense
    have total := (Span.sum_overlap_eq_iff lay).mpr dense
    have inside := (Span.dense_iff_inside lay).mp dense
    rw [ranged.width] at total
    refine ⟨by rw [count, total], fun k small => ?_⟩
    have start := ranged.reqStart
    have stop := ranged.reqEnd
    have position : st.op.fileOffset.toNat + k ∈ st.op.span.inside extents := by
      rw [inside, Finset.mem_Ico]
      omega
    have address : st.op.span.dstBase.addr + k =
        st.op.span.addrOf (st.op.fileOffset.toNat + k) := by
      rw [Span.addrOf, start]
      omega
    have stored := (stamp (st.op.span.dstBase.addr + k)).1
      ⟨_, Span.mem_inside.mp position, address⟩
    rw [Memory.load, show st.op.span.dstBase.space = .user from rfl, stored, Span.target, start]
    congr 1
    omega

/-! ## Files without holes -/

/-- Each extent starts where the previous one ends. -/
def ContiguousFrom : Nat → List Extent → Prop
  | _, [] => True
  | start, e :: rest => e.fileOffset = start ∧ ContiguousFrom e.fileEnd rest

/-- The extent list of a file without holes. -/
structure HoleFree (d : Driver) (extents : List Extent) : Prop where
  contiguous : ContiguousFrom 0 extents
  whole : ∀ e ∈ extents.dropLast, d.lbaSize ∣ e.length

theorem ContiguousFrom.start_le {extents : List Extent} :
    ∀ {start : Nat}, ContiguousFrom start extents → ∀ e ∈ extents, start ≤ e.fileOffset := by
  induction extents with
  | nil =>
      intro start _ e member
      cases member
  | cons first rest ih =>
      intro start ⟨here, contiguous⟩ e member
      rcases List.mem_cons.mp member with rfl | later
      · omega
      · have after := ih contiguous e later
        simp only [Extent.fileEnd] at after
        omega

theorem ContiguousFrom.layout {extents : List Extent} :
    ∀ {start : Nat}, d.lbaSize ∣ start → ContiguousFrom start extents →
      (∀ e ∈ extents.dropLast, d.lbaSize ∣ e.length) → Layout d extents := by
  induction extents with
  | nil => exact fun _ _ _ => ⟨by simp, List.Pairwise.nil⟩
  | cons first rest ih =>
      intro start aligned ⟨here, contiguous⟩ whole
      cases rest with
      | nil => exact ⟨by simpa [here] using aligned, List.pairwise_singleton _ _⟩
      | cons second rest =>
          rw [List.dropLast_cons_of_ne_nil (by simp)] at whole
          have length := whole first (List.mem_cons_self ..)
          have later := ih (by rw [Extent.fileEnd, here]; exact Nat.dvd_add aligned length)
            contiguous fun e member => whole e (List.mem_cons_of_mem _ member)
          refine ⟨fun e member => ?_, List.Pairwise.cons (fun e member => ?_) later.ordered⟩
          · rcases List.mem_cons.mp member with rfl | member
            · rwa [here]
            · exact later.aligned e member
          · exact ⟨contiguous.start_le e member, length⟩

/-- A contiguous list covers every position up to the end of the file. -/
theorem ContiguousFrom.covers {extents : List Extent} :
    ∀ {start : Nat}, ContiguousFrom start extents → ∀ p, start ≤ p → p < endOfFile extents →
      ∃ e ∈ extents, e.fileOffset ≤ p ∧ p < e.fileEnd := by
  induction extents with
  | nil =>
      intro start _ p _ below
      exact absurd below (Nat.not_lt_zero p)
  | cons first rest ih =>
      intro start ⟨here, contiguous⟩ p low below
      by_cases inFirst : p < first.fileEnd
      · exact ⟨first, List.mem_cons_self .., by omega, inFirst⟩
      · cases rest with
        | nil => exact absurd below inFirst
        | cons second rest =>
            rw [endOfFile_cons] at below
            obtain ⟨e, member, within⟩ := ih contiguous p (by omega) below
            exact ⟨e, List.mem_cons_of_mem _ member, within⟩

theorem HoleFree.layout (dense : HoleFree d extents) : Layout d extents :=
  dense.contiguous.layout (Nat.dvd_zero _) dense.whole

theorem HoleFree.dense (dense : HoleFree d extents) (r : Span) : r.Dense extents := by
  rintro p - - ⟨below, hole⟩
  obtain ⟨e, member, within⟩ := dense.contiguous.covers p (Nat.zero_le p) below
  exact hole e member within

/-- The command reads the LBA. -/
def Command.Touches (c : Command) (lba : Nat) : Prop := c.slba ≤ lba ∧ lba ≤ c.slba + c.nlb

/-- The LBA holds bytes of the extent. -/
def Extent.Holds (d : Driver) (e : Extent) (lba : Nat) : Prop :=
  e.slba ≤ lba ∧ (lba - e.slba) * d.lbaSize < e.length

/-- A command with an origin stays inside the LBAs of its extent. -/
theorem Origin.holds (geo : d.Geometry) {c : Command}
    (origin : Origin d extents r c) {lba : Nat} (touched : c.Touches lba) :
    ∃ e ∈ extents, e.Holds d lba := by
  obtain ⟨e, member, q, low, high, start, stop, slba, shape⟩ := origin
  have lbaPos := geo.lbaSize_pos
  have length : e.fileEnd = e.fileOffset + e.length := rfl
  have whole := Nat.div_mul_le_self (q - e.fileOffset) d.lbaSize
  generalize (q - e.fileOffset) / d.lbaSize = index at slba whole
  obtain ⟨first, last⟩ := touched
  refine ⟨e, member, by omega, ?_⟩
  cases callback : c.callback with
  | bounce =>
      simp only [callback] at shape
      rw [show lba - e.slba = index by omega]
      omega
  | chunk =>
      simp only [callback, commandBytes] at shape
      have within := shape.2.1
      have scaled : (lba - e.slba) * d.lbaSize ≤ (index + c.nlb) * d.lbaSize :=
        Nat.mul_le_mul_right _ (by omega)
      rw [Nat.add_mul] at scaled
      rw [Nat.add_mul, Nat.one_mul] at within
      omega

/-- **An asynchronous read of a file without holes is a read of the file.**
However often the queue has no context or is busy, and in whatever order the
commands complete, the run does not get stuck and completes once its commands
have; it reads only LBAs of the file; and unless the request is rejected it
reports the bytes the file has in the range, leaves them at the destination and
writes no other byte of the caller's memory. -/
theorem asyncRead_correct (geo : d.Geometry) (good : dev.Good)
    (resolved : resolveExtents dev = .ok extents) (dense : HoleFree d extents)
    (eof : endOfFile extents < 2 ^ 63) {st : ReadState} (fresh : Submitted st)
    (async : st.op.mode = .async) (ranged : Ranged st) (polls : List (List Nat)) :
    ∃ st', ioThread d dev polls st = some st' ∧
      (∀ c ∈ st'.issued, ∀ lba, c.Touches lba → ∃ e ∈ extents, e.Holds d lba) ∧
      (∀ n, st'.op.result = some n → n ≠ -OpError.invalidValue.code →
        DeliversFile d dev extents st st' n ∧
          ∀ a, ¬ st.op.span.dstBase.Covers n.toNat .user a →
            st'.mem .user a = st.mem .user a) ∧
      (polls ≠ [] → ∀ more : List (List Nat), (∀ id ∈ st'.inflight, id ∈ more.flatten) →
        ∃ last, ioThread d dev (polls ++ more ++ [[]]) st = some last ∧
          last.op.result.isSome) := by
  have lay := dense.layout
  have noWrap : u64 st.op.fileOffset + st.op.size < 2 ^ 64 := by
    rw [u64_of_nonneg ranged.nonneg ranged.offT]
    exact ranged.noWrap
  obtain ⟨st', ran, outcome, completes⟩ :=
    ioThread_reads geo good resolved lay fresh async noWrap polls
  refine ⟨st', ran, fun c member lba => (outcome.origin c member).holds geo, ?_, completes⟩
  intro n result accepted
  have delivers := (outcome.delivers_iff lay eof ranged result accepted).mpr (dense.dense _)
  refine ⟨delivers, fun a outside => ?_⟩
  obtain ⟨-, stamp⟩ := (outcome.completed n result).resolve_left accepted
  refine (stamp a).2 ?_
  -- The stamped addresses are those of the delivered bytes.
  rintro ⟨p, inside, rfl⟩
  have position := Span.inside_subset lay (Span.mem_inside.mpr inside)
  rw [Finset.mem_Ico, ranged.reqStart, ranged.reqEnd] at position
  have count := delivers.count
  refine outside ⟨rfl, ?_, ?_⟩ <;> simp only [Span.addrOf, ranged.reqStart] <;> omega

/-- A read from inside the first of two extents over their boundary and past the
end of the file reports the bytes up to it. -/
theorem asyncRead_correct_two_extents :
    ∃ st', ioThread sectorDriver (.serving sectorDisk [⟨0, 8, 1024⟩, ⟨1024, 32, 300⟩])
        [[], [1, 0], [2], []] (submittedRead 100 2000) = some st' ∧
      ∀ n, st'.op.result = some n → n ≠ -OpError.invalidValue.code → n = 1224 := by
  obtain ⟨st', ran, -, delivered, -⟩ := asyncRead_correct sectorDriver_geometry
    (Device.serving_good sectorDisk [⟨0, 8, 1024⟩, ⟨1024, 32, 300⟩])
    (Device.serving_resolved sectorDisk _) ⟨⟨rfl, rfl, trivial⟩, by decide⟩ (by decide)
    (submittedRead_submitted 100 2000) rfl ⟨by decide, by decide, by decide⟩
    [[], [1, 0], [2], []]
  exact ⟨st', ran, fun n result accepted => (delivered n result accepted).1.count⟩

/-! ## Files with holes -/

/-- **A read delivers the file exactly when its span meets no hole.** The extent
list may have gaps, before, between or around the request. -/
theorem asyncRead_delivers_iff (geo : d.Geometry) (good : dev.Good)
    (resolved : resolveExtents dev = .ok extents) (lay : Layout d extents)
    (eof : endOfFile extents < 2 ^ 63) {st : ReadState} (fresh : Submitted st)
    (async : st.op.mode = .async) (ranged : Ranged st) {polls : List (List Nat)} {st' : ReadState}
    (ran : ioThread d dev polls st = some st') {n : Int} (result : st'.op.result = some n)
    (accepted : n ≠ -OpError.invalidValue.code) :
    DeliversFile d dev extents st st' n ↔ st.op.span.Dense extents := by
  have noWrap : u64 st.op.fileOffset + st.op.size < 2 ^ 64 := by
    rw [u64_of_nonneg ranged.nonneg ranged.offT]
    exact ranged.noWrap
  obtain ⟨st'', ran', outcome, -⟩ := ioThread_reads geo good resolved lay fresh async noWrap polls
  rw [ran] at ran'
  cases ran'
  exact outcome.delivers_iff lay eof ranged result accepted

/-- The file with a hole in its second LBA. -/
def sparseFile : List Extent := [⟨0, 8, 512⟩, ⟨1024, 9, 512⟩]

theorem sparseFile_layout : Layout sectorDriver sparseFile := by
  refine ⟨by decide, ?_⟩
  simp [sparseFile, sectorDriver, Extent.fileEnd]

/-- The read of the whole sparse file completes with the bytes of its extents. -/
theorem sparseFile_read :
    ∃ st', ioThread sectorDriver (.serving sectorDisk sparseFile) [[], [0, 1], []]
        (submittedRead 0 1536) = some st' ∧ st'.op.result = some 1024 := by
  have computed : (ioThread sectorDriver (.serving sectorDisk sparseFile) [[], [0, 1], []]
      (submittedRead 0 1536)).bind (·.op.result) = some 1024 := by decide
  exact Option.bind_eq_some_iff.mp computed

theorem sparseFile_hole : ¬ (submittedRead 0 1536).op.span.Dense sparseFile := fun dense =>
  dense 512 (by decide) (by decide) ⟨by decide, by decide⟩

/-- The read of the whole sparse file does not deliver it. -/
theorem asyncRead_delivers_iff_sparseFile :
    ∃ st', ioThread sectorDriver (.serving sectorDisk sparseFile) [[], [0, 1], []]
        (submittedRead 0 1536) = some st' ∧
      ¬ DeliversFile sectorDriver (.serving sectorDisk sparseFile) sparseFile
        (submittedRead 0 1536) st' 1024 := by
  obtain ⟨st', ran, result⟩ := sparseFile_read
  refine ⟨st', ran, fun delivers => sparseFile_hole ?_⟩
  exact (asyncRead_delivers_iff sectorDriver_geometry (Device.serving_good _ _)
    (Device.serving_resolved _ _) sparseFile_layout (by decide) (submittedRead_submitted _ _) rfl
    ⟨by decide, by decide, by decide⟩ ran result (by decide)).mp delivers

/-- A read over a hole counts the bytes of the extents and not those of the file. -/
theorem sparse_read_not_delivered :
    ¬ ∀ (d : Driver) (dev : Device) (extents : List Extent) (st st' : ReadState)
        (polls : List (List Nat)) (n : Int), d.Geometry → dev.Good →
        resolveExtents dev = .ok extents → Layout d extents → endOfFile extents < 2 ^ 63 →
        Submitted st → st.op.mode = .async → Ranged st → ¬ st.op.span.Dense extents →
        ioThread d dev polls st = some st' → st'.op.result = some n →
        n ≠ -OpError.invalidValue.code → DeliversFile d dev extents st st' n := by
  intro delivers
  obtain ⟨st', ran, result⟩ := sparseFile_read
  have whole := delivers _ _ _ _ st' _ _ sectorDriver_geometry (Device.serving_good _ _)
    (Device.serving_resolved _ _) sparseFile_layout (by decide) (submittedRead_submitted _ _) rfl
    ⟨by decide, by decide, by decide⟩ sparseFile_hole ran result (by decide)
  exact absurd whole.count (by decide)

end OpenDS.Aisio
