import OpenDS.Aisio.ReadAccounting

/-!
# What a read submits

The submission path cuts a request along the extents, the LBAs and the MDTS
chunks. This module says what comes out: the user addresses that the whole-LBA
commands and the bounce slots of a path cover are exactly those of the part of
the request inside the extents it walked, none is counted twice, every command
reads LBAs of an extent at the file position its destination stands for, and at
most one leading and one trailing partial LBA is staged.

The extent list may have gaps: what a read reports counts positions inside the
extents, not positions of the file.
-/

set_option autoImplicit false

namespace OpenDS.Aisio

open OpenDS.Library ReadState

/-! ## Geometry and layout -/

/-- What `open_device` establishes of the geometry, together with an MDTS of at
least one LBA. -/
structure Driver.Geometry (d : Driver) : Prop where
  lbaSize : d.lbaSize = 2 ^ d.lbaShift
  mdts : d.lbaSize ≤ d.mdtsNbytes

/-- The extents are sorted and disjoint, start at LBA boundaries of the file,
and only the last one may end inside an LBA. -/
structure Layout (d : Driver) (extents : List Extent) : Prop where
  aligned : ∀ e ∈ extents, d.lbaSize ∣ e.fileOffset
  ordered : extents.Pairwise fun e e' => e.fileEnd ≤ e'.fileOffset ∧ d.lbaSize ∣ e.length

/-- The end of the file: the end of its last extent. -/
def endOfFile (extents : List Extent) : Nat := (extents.getLast?.map Extent.fileEnd).getD 0

/-- The byte of the file at a position. A position in no extent lies in a hole
and reads as zero. -/
def fileByte (d : Driver) (dev : Device) (extents : List Extent) (p : Nat) : UInt8 :=
  match extents.find? fun e => e.fileOffset ≤ p ∧ p < e.fileEnd with
  | some e => dev.disk (e.slba + (p - e.fileOffset) / d.lbaSize) ((p - e.fileOffset) % d.lbaSize)
  | none => 0

variable {d : Driver} {dev : Device}

theorem Driver.Geometry.lbaSize_pos (geo : d.Geometry) : 0 < d.lbaSize := by
  rw [geo.lbaSize]
  exact Nat.two_pow_pos _

/-- `x & lba_mask` is the offset inside the LBA. -/
theorem Driver.Geometry.and_mask (geo : d.Geometry) (x : Nat) :
    x &&& (d.lbaSize - 1) = x % d.lbaSize := by
  rw [geo.lbaSize, Nat.and_two_pow_sub_one_eq_mod]

/-- `x >> lba_shift` counts the whole LBAs. -/
theorem Driver.Geometry.shiftRight (geo : d.Geometry) (x : Nat) :
    x >>> d.lbaShift = x / d.lbaSize := by
  rw [geo.lbaSize, Nat.shiftRight_eq_div_pow]

theorem Driver.Geometry.chunk_pos (geo : d.Geometry) : 0 < d.mdtsNbytes >>> d.lbaShift := by
  rw [geo.shiftRight]
  exact Nat.div_pos geo.mdts geo.lbaSize_pos

theorem Layout.tail {e : Extent} {rest : List Extent} (lay : Layout d (e :: rest)) :
    Layout d rest :=
  ⟨fun e' member => lay.aligned e' (List.mem_cons_of_mem _ member), lay.ordered.of_cons⟩

theorem Layout.after {e : Extent} {rest : List Extent} (lay : Layout d (e :: rest)) :
    ∀ e' ∈ rest, e.fileEnd ≤ e'.fileOffset :=
  fun _ member => (List.rel_of_pairwise_cons lay.ordered member).1

/-- A position inside an extent lies in no other one, so the file byte there is
the byte of that extent. -/
theorem fileByte_of_mem {extents : List Extent} (lay : Layout d extents) {e : Extent}
    (member : e ∈ extents) {p : Nat} (low : e.fileOffset ≤ p) (high : p < e.fileEnd) :
    fileByte d dev extents p =
      dev.disk (e.slba + (p - e.fileOffset) / d.lbaSize) ((p - e.fileOffset) % d.lbaSize) := by
  have found : extents.find? (fun e => e.fileOffset ≤ p ∧ p < e.fileEnd) = some e := by
    induction extents with
    | nil => cases member
    | cons first rest ih =>
        rcases List.mem_cons.mp member with rfl | later
        · simp [low, high]
        · have before := lay.after e later
          have outside : ¬ (first.fileOffset ≤ p ∧ p < first.fileEnd) := by omega
          simp only [List.find?_cons, outside, decide_false]
          exact ih lay.tail later
  simp only [fileByte, found]

/-! ## The effect of polling -/

/-- The device takes and finishes every command with success, and every
allocation and copy succeeds. -/
structure Device.Good (dev : Device) : Prop where
  takes : ∀ n, dev.takes n = true
  succeeds : ∀ n, dev.succeeds n = true
  bufAlloc : dev.bufAlloc.isSome
  copies : ∀ n, dev.copies n = true

/-- The device that takes and finishes every command on a file with the given
extents, without a single retry. -/
def Device.serving (disk : Nat → Nat → UInt8) (extents : List Extent) : Device where
  disk := disk
  getExtents _ := .ok extents
  retries _ := []
  takes _ := true
  succeeds _ := true
  bufAlloc := some 0
  copies _ := true

theorem Device.serving_good (disk : Nat → Nat → UInt8) (extents : List Extent) :
    (Device.serving disk extents).Good :=
  ⟨fun _ => rfl, fun _ => rfl, rfl, fun _ => rfl⟩

theorem Device.serving_resolved (disk : Nat → Nat → UInt8) (extents : List Extent) :
    resolveExtents (Device.serving disk extents) = .ok extents := rfl

theorem complete_err (good : dev.Good) (st : ReadState) (id : Nat) :
    (complete d dev st id).op.err = st.op.err := by
  rcases complete_cases d dev st id with same | ⟨c, -, -, changed⟩
  · rw [same]
  · rw [changed]
    cases c.callback <;> simp [chunkCb, bounceCb, good.succeeds]

theorem poke_err (good : dev.Good) (poked : List Nat) (st : ReadState) :
    (poke d dev poked st).op.err = st.op.err := by
  induction poked generalizing st with
  | nil => rfl
  | cons id rest ih => exact (ih _).trans (complete_err good st id)

@[simp] theorem addChunks_cancel (st : ReadState) : addChunks (-1) (addChunks 1 st) = st := by
  simp [addChunks]

theorem retryMiddle_eq (d : Driver) (dev : Device) (st : ReadState) (retry : Retry) :
    ∃ poked, retryMiddle d dev st retry = poke d dev poked st := by
  cases retry with
  | noCtx poked => exact ⟨poked, rfl⟩
  | busy poked => exact ⟨poked, by simp [retryMiddle]⟩

theorem retryBounce_eq (d : Driver) (dev : Device) (st : ReadState) (retry : Retry) :
    ∃ poked, retryBounce d dev st retry = poke d dev poked st := by
  cases retry with
  | noCtx poked => exact ⟨poked, rfl⟩
  | busy poked => exact ⟨poked, rfl⟩

theorem poke_append (first second : List Nat) (st : ReadState) :
    poke d dev second (poke d dev first st) = poke d dev (first ++ second) st := by
  simp [poke, List.foldl_append]

/-- Any number of passes that take no command amount to one poke. -/
theorem retries_eq_poke {step : ReadState → Retry → ReadState}
    (one : ∀ st retry, ∃ poked, step st retry = poke d dev poked st) (retries : List Retry)
    (st : ReadState) : ∃ poked, retries.foldl step st = poke d dev poked st := by
  induction retries generalizing st with
  | nil => exact ⟨[], rfl⟩
  | cons retry rest ih =>
      obtain ⟨first, stepped⟩ := one st retry
      obtain ⟨second, folded⟩ := ih (step st retry)
      exact ⟨first ++ second, by rw [List.foldl_cons, folded, stepped, poke_append]⟩

/-! ## Covered addresses -/

/-- A whole-LBA command or a bounce slot will deliver the byte at the user
address. -/
def ReadState.Covered (d : Driver) (st : ReadState) (a : Int) : Prop :=
  (∃ c ∈ st.issued, c.callback = .chunk ∧ c.dst.Covers (commandBytes d c) .user a) ∨
    ∃ s ∈ st.op.bounces, s.dst.Covers s.nbytes .user a

/-- The bytes of the whole-LBA commands in the log. -/
def ReadState.directBytes (d : Driver) (st : ReadState) : Nat :=
  (st.issued.map fun c => if c.callback = .chunk then commandBytes d c else 0).sum

/-- The bytes that the whole-LBA commands and the bounce slots will deliver. -/
def ReadState.planned (d : Driver) (st : ReadState) : Nat := st.directBytes d + st.bounceBytes

/-- The user address a file position is read to. -/
def Span.addrOf (r : Span) (p : Nat) : Int := r.dstBase.addr + p - r.reqStart

/-- The file byte a user address is to receive. -/
def Span.target (d : Driver) (dev : Device) (extents : List Extent) (r : Span) (a : Int) : UInt8 :=
  fileByte d dev extents (r.reqStart + (a - r.dstBase.addr).toNat)

/-- The command reads the extents at the file position its destination stands
for. -/
def Origin (d : Driver) (extents : List Extent) (r : Span) (c : Command) : Prop :=
  ∃ e ∈ extents, ∃ q, e.fileOffset ≤ q ∧ q < e.fileEnd ∧ r.reqStart ≤ q ∧ q < r.reqEnd ∧
    c.slba = e.slba + (q - e.fileOffset) / d.lbaSize ∧
    match c.callback with
    | .chunk => d.lbaSize ∣ q ∧ q + commandBytes d c ≤ min r.reqEnd e.fileEnd ∧
        c.dst = r.dstBase.add (q - r.reqStart)
    | .bounce => c.nlb = 0

section Paths

variable (d dev) (extents : List Extent) (r : Span) (original : Memory Space UInt8)

/-- What a part of the path leaves alone or only extends, whichever way it
ends. -/
structure Extends (st st' : ReadState) : Prop where
  inv : ReadInv d dev original (r.target d dev extents) st'
  mode : st'.op.mode = st.op.mode
  state : st'.op.state = st.op.state
  result : st'.op.result = st.op.result
  origin : ∀ c ∈ st'.issued, c ∈ st.issued ∨ Origin d extents r c

/-- A part of the path that goes on has planned the file positions from `lo` to
`hi`, filled `slots` bounce slots, and raised no error of its own. -/
structure Plans (lo hi slots : Nat) (st st' : ReadState) : Prop
    extends Extends d dev extents r original st st' where
  covered : ∀ a, st'.Covered d a ↔ st.Covered d a ∨ (r.addrOf lo ≤ a ∧ a < r.addrOf hi)
  planned : st'.planned d = st.planned d + (hi - lo)
  slots : st'.op.bounces.length = st.op.bounces.length + slots
  quiet : dev.Good → st'.op.err = st.op.err

/-- A part of the path that left through `out` has set an error. With a good
device it is the rejection of the request. -/
structure Stops (st st' : ReadState) : Prop
    extends Extends d dev extents r original st st' where
  failed : st'.op.err.isSome
  rejected : dev.Good → st'.op.err = some .invalidValue

end Paths

variable {extents : List Extent} {r : Span} {original : Memory Space UInt8}

theorem Extends.refl {st : ReadState} (inv : ReadInv d dev original (r.target d dev extents) st) :
    Extends d dev extents r original st st :=
  ⟨inv, rfl, rfl, rfl, fun _ member => .inl member⟩

theorem Extends.trans {st st' st'' : ReadState} (first : Extends d dev extents r original st st')
    (second : Extends d dev extents r original st' st'') :
    Extends d dev extents r original st st'' where
  inv := second.inv
  mode := second.mode.trans first.mode
  state := second.state.trans first.state
  result := second.result.trans first.result
  origin c member := (second.origin c member).elim (first.origin c) .inr

theorem Plans.refl {st : ReadState} (inv : ReadInv d dev original (r.target d dev extents) st)
    (lo : Nat) : Plans d dev extents r original lo lo 0 st st where
  toExtends := .refl inv
  covered a := ⟨.inl, fun h => h.elim id fun between => by omega⟩
  planned := by omega
  slots := rfl
  quiet _ := rfl

theorem Plans.trans {lo mid hi slots slots' : Nat} {st st' st'' : ReadState} (low : lo ≤ mid)
    (high : mid ≤ hi) (first : Plans d dev extents r original lo mid slots st st')
    (second : Plans d dev extents r original mid hi slots' st' st'') :
    Plans d dev extents r original lo hi (slots + slots') st st'' where
  toExtends := first.toExtends.trans second.toExtends
  covered a := by
    rw [second.covered, first.covered]
    simp only [Span.addrOf]
    constructor
    · rintro ((old | between) | between)
      · exact .inl old
      · exact .inr (by omega)
      · exact .inr (by omega)
    · rintro (old | between)
      · exact .inl (.inl old)
      · by_cases before : a < r.dstBase.addr + mid - r.reqStart
        · exact .inl (.inr (by omega))
        · exact .inr (by omega)
  planned := by rw [second.planned, first.planned]; omega
  slots := by rw [second.slots, first.slots]; omega
  quiet good := (second.quiet good).trans (first.quiet good)

theorem Stops.after {lo hi slots : Nat} {st st' st'' : ReadState}
    (first : Plans d dev extents r original lo hi slots st st')
    (second : Stops d dev extents r original st' st'') :
    Stops d dev extents r original st st'' where
  toExtends := first.toExtends.trans second.toExtends
  failed := second.failed
  rejected := second.rejected

/-- Pokes plan nothing. -/
theorem Plans.poke {st : ReadState} (inv : ReadInv d dev original (r.target d dev extents) st)
    (poked : List Nat) (lo : Nat) :
    Plans d dev extents r original lo lo 0 st (poke d dev poked st) where
  inv := inv.poke poked
  mode := (poke_frame d dev poked st).mode
  state := (poke_frame d dev poked st).state
  result := (poke_frame d dev poked st).result
  origin c member := by
    rw [(poke_frame d dev poked st).issued] at member
    exact .inl member
  covered a := by
    simp only [ReadState.Covered, (poke_frame d dev poked st).issued,
      (poke_frame d dev poked st).bounces]
    exact ⟨.inl, fun h => h.elim id fun between => by omega⟩
  planned := by
    simp only [ReadState.planned, ReadState.directBytes, ReadState.bounceBytes,
      (poke_frame d dev poked st).issued, (poke_frame d dev poked st).bounces]
    omega
  slots := by rw [(poke_frame d dev poked st).bounces]; rfl
  quiet good := poke_err good poked st

/-- Setting an error stops the path. -/
theorem Stops.fail {st : ReadState} (inv : ReadInv d dev original (r.target d dev extents) st)
    (e : OpError) (rejected : dev.Good → e = .invalidValue) :
    Stops d dev extents r original st (st.fail e) where
  inv := inv.fail e
  mode := rfl
  state := rfl
  result := rfl
  origin _ member := .inl member
  failed := rfl
  rejected good := by rw [rejected good]; rfl

/-! ## Taking one command -/

theorem Span.target_addr {q k : Nat} (start : r.reqStart ≤ q) :
    r.target d dev extents ((r.dstBase.add (q - r.reqStart)).addr + k) =
      fileByte d dev extents (q + k) := by
  simp only [Span.target, Ptr.add_addr]
  congr 1
  omega

theorem Span.addrOf_eq {q : Nat} (start : r.reqStart ≤ q) :
    (r.dstBase.add (q - r.reqStart)).addr = r.addrOf q := by
  simp only [Span.addrOf, Ptr.add_addr]
  omega

theorem offset_dvd (lay : Layout d extents) {e : Extent} (member : e ∈ extents) {q : Nat}
    (aligned : d.lbaSize ∣ q) : d.lbaSize ∣ q - e.fileOffset :=
  Nat.dvd_sub aligned (lay.aligned e member)

/-- **A whole-LBA command plans its file range.** -/
theorem Plans.takeChunk (geo : d.Geometry) (lay : Layout d extents)
    (user : r.dstBase.space = .user) {st : ReadState}
    (inv : ReadInv d dev original (r.target d dev extents) st) {e : Extent}
    (member : e ∈ extents) {q : Nat} {c : Command} (chunk : c.callback = .chunk)
    (low : e.fileOffset ≤ q) (start : r.reqStart ≤ q) (aligned : d.lbaSize ∣ q)
    (within : q + commandBytes d c ≤ min r.reqEnd e.fileEnd)
    (slba : c.slba = e.slba + (q - e.fileOffset) / d.lbaSize)
    (dst : c.dst = r.dstBase.add (q - r.reqStart)) :
    Plans d dev extents r original q (q + commandBytes d c) 0 st (take c (addChunks 1 st)) := by
  have bytesPos : 0 < commandBytes d c := Nat.mul_pos (Nat.succ_pos _) geo.lbaSize_pos
  have space : c.dst.space = .user := by rw [dst]; exact user
  have data : ∀ k, k < commandBytes d c →
      commandData d dev c k = r.target d dev extents (c.dst.addr + k) := by
    intro k bound
    obtain ⟨lbas, offset⟩ := offset_dvd lay member aligned
    have split : q + k - e.fileOffset = k + d.lbaSize * lbas := by omega
    rw [dst, Span.target_addr start, fileByte_of_mem lay member (by omega) (by omega), split,
      Nat.add_mul_div_left _ _ geo.lbaSize_pos, Nat.add_mul_mod_self_left, commandData, slba,
      offset, Nat.mul_div_cancel_left _ geo.lbaSize_pos]
    congr 1
    omega
  refine ⟨⟨inv.takeChunk c chunk space data, rfl, rfl, rfl, ?_⟩, ?_, ?_, rfl, fun _ => rfl⟩
  · intro c' logged
    rcases List.mem_append.mp logged with old | new
    · exact .inl old
    · rw [List.mem_singleton.mp new]
      refine .inr ⟨e, member, q, low, by omega, start, by omega, slba, ?_⟩
      simp only [chunk]
      exact ⟨aligned, within, dst⟩
  · intro a
    have here : c.dst.Covers (commandBytes d c) .user a ↔
        r.addrOf q ≤ a ∧ a < r.addrOf (q + commandBytes d c) := by
      simp only [Ptr.Covers, dst, Span.addrOf_eq start, Ptr.add_space, user, true_and]
      simp only [Span.addrOf]
      omega
    simp only [ReadState.Covered, ReadState.take, addChunks, List.mem_append, List.mem_singleton]
    constructor
    · rintro (⟨c', old | rfl, isChunk, covers⟩ | slot)
      · exact .inl (.inl ⟨c', old, isChunk, covers⟩)
      · exact .inr (here.mp covers)
      · exact .inl (.inr slot)
    · rintro ((⟨c', old, isChunk, covers⟩ | slot) | between)
      · exact .inl ⟨c', .inl old, isChunk, covers⟩
      · exact .inr slot
      · exact .inl ⟨c, .inr rfl, chunk, here.mpr between⟩
  · simp only [ReadState.planned, ReadState.directBytes, ReadState.bounceBytes, ReadState.take,
      addChunks, List.map_append, List.sum_append, List.map_cons, List.map_nil, List.sum_cons,
      List.sum_nil, chunk, if_true]
    omega

/-- **A bounce command with its slot plans its part of an LBA.** -/
theorem Plans.takeBounce (buf : Nat) (geo : d.Geometry) (lay : Layout d extents)
    (user : r.dstBase.space = .user) {st : ReadState}
    (inv : ReadInv d dev original (r.target d dev extents) st) {e : Extent}
    (member : e ∈ extents) {q nbytes : Nat} (low : e.fileOffset ≤ q)
    (start : r.reqStart ≤ q) (some : 0 < nbytes) (within : q + nbytes ≤ min r.reqEnd e.fileEnd)
    (oneLba : (q - e.fileOffset) % d.lbaSize + nbytes ≤ d.lbaSize) :
    let bounce : Ptr Space := ⟨.bounce buf, ((st.op.bounces.length * d.lbaSize : Nat) : Int)⟩
    Plans d dev extents r original q (q + nbytes) 1 st
      (fillSlot ⟨r.dstBase.add (q - r.reqStart), bounce.add ((q - e.fileOffset) % d.lbaSize), nbytes⟩
        (take ⟨.bounce, e.slba + (q - e.fileOffset) / d.lbaSize, 0, bounce⟩ st)) := by
  intro bounce
  have data : ∀ k, k < nbytes →
      commandData d dev ⟨.bounce, e.slba + (q - e.fileOffset) / d.lbaSize, 0, bounce⟩
          ((q - e.fileOffset) % d.lbaSize + k) =
        r.target d dev extents ((r.dstBase.add (q - r.reqStart)).addr + k) := by
    intro k bound
    have parts := Nat.mod_add_div (q - e.fileOffset) d.lbaSize
    have split : q + k - e.fileOffset = ((q - e.fileOffset) % d.lbaSize + k) +
        d.lbaSize * ((q - e.fileOffset) / d.lbaSize) := by omega
    have inside : (q - e.fileOffset) % d.lbaSize + k < d.lbaSize := by omega
    rw [Span.target_addr start, fileByte_of_mem lay member (by omega) (by omega), split,
      Nat.add_mul_div_left _ _ geo.lbaSize_pos, Nat.add_mul_mod_self_left, commandData,
      Nat.div_eq_of_lt inside, Nat.zero_add, Nat.add_zero]
  refine ⟨⟨?_, rfl, rfl, rfl, ?_⟩, ?_, ?_, by simp [fillSlot, ReadState.take], fun _ => rfl⟩
  · exact inv.takeBounce _ _ _ rfl (Nat.one_mul _) (by simp [bounce]) rfl user rfl oneLba data
  · intro c' logged
    rcases List.mem_append.mp logged with old | new
    · exact .inl old
    · rw [List.mem_singleton.mp new]
      exact .inr ⟨e, member, q, low, by omega, start, by omega, rfl, rfl⟩
  · intro a
    have here : (r.dstBase.add (q - r.reqStart)).Covers nbytes .user a ↔
        r.addrOf q ≤ a ∧ a < r.addrOf (q + nbytes) := by
      simp only [Ptr.Covers, Span.addrOf_eq start, Ptr.add_space, user, true_and]
      simp only [Span.addrOf]
      omega
    simp only [ReadState.Covered, fillSlot, ReadState.take, List.mem_append, List.mem_singleton]
    constructor
    · rintro (⟨c', old | rfl, isChunk, covers⟩ | ⟨s, old | rfl, covers⟩)
      · exact .inl (.inl ⟨c', old, isChunk, covers⟩)
      · cases isChunk
      · exact .inl (.inr ⟨s, old, covers⟩)
      · exact .inr (here.mp covers)
    · rintro ((⟨c', old, isChunk, covers⟩ | ⟨s, old, covers⟩) | between)
      · exact .inl ⟨c', .inl old, isChunk, covers⟩
      · exact .inr ⟨s, .inl old, covers⟩
      · exact .inr ⟨_, .inr rfl, here.mpr between⟩
  · simp [ReadState.planned, ReadState.directBytes, ReadState.bounceBytes, ReadState.take, fillSlot]
    omega

/-! ## The pieces of the submission path -/

/-- The chunk loop plans the LBAs from `lbasDone` on, however often the queue
has no context or is busy. -/
theorem submitReadMiddleLoop_plans (geo : d.Geometry) (lay : Layout d extents)
    (user : r.dstBase.space = .user) {e : Extent} (member : e ∈ extents) {pos middleLbas : Nat}
    (low : e.fileOffset ≤ pos) (start : r.reqStart ≤ pos) (aligned : d.lbaSize ∣ pos)
    (within : pos + middleLbas * d.lbaSize ≤ min r.reqEnd e.fileEnd) (remaining : Nat) :
    ∀ (fuel lbasDone : Nat) (st : ReadState),
      middleLbas - lbasDone ≤ fuel → lbasDone ≤ middleLbas →
      ReadInv d dev original (r.target d dev extents) st →
      (submitReadMiddleLoop d dev ⟨e.slba + (pos - e.fileOffset) / d.lbaSize,
          r.dstBase.add (pos - r.reqStart), remaining⟩ middleLbas fuel lbasDone st).Ends
        (Plans d dev extents r original (pos + lbasDone * d.lbaSize)
          (pos + middleLbas * d.lbaSize) 0 st)
        (Stops d dev extents r original st) := by
  intro fuel
  induction fuel with
  | zero =>
      intro lbasDone st enough notPast inv
      have done : lbasDone = middleLbas := by omega
      simp only [submitReadMiddleLoop, done, Nat.lt_irrefl, if_false, Submit.ends_ok]
      exact .refl inv _
  | succ fuel ih =>
      intro lbasDone st enough notPast inv
      by_cases more : lbasDone < middleLbas
      case neg =>
        have done : lbasDone = middleLbas := by omega
        simp only [submitReadMiddleLoop, done, Nat.lt_irrefl, if_false, Submit.ends_ok]
        exact .refl inv _
      simp only [submitReadMiddleLoop, if_pos more]
      obtain ⟨poked, polled⟩ := retries_eq_poke (retryMiddle_eq d dev)
        (dev.retries st.issued.length) st
      rw [polled]
      have waited := Plans.poke inv poked (pos + lbasDone * d.lbaSize)
      cases takes : dev.takes st.issued.length with
      | false =>
          simp only [Bool.false_eq_true, if_false, Submit.ends_out, addChunks_cancel]
          refine .after waited (.fail waited.inv _ fun good => ?_)
          rw [good.takes] at takes
          cases takes
      | true =>
          simp only [if_true]
          have chunkPos := geo.chunk_pos
          -- The chunk is the least of the rest, MDTS and `NVME_MAX_NLB`, and never empty.
          obtain ⟨m, chunk, mPos, mRest, mNlb⟩ : ∃ m,
              min (min (middleLbas - lbasDone) (d.mdtsNbytes >>> d.lbaShift)) nvmeMaxNlb = m ∧
                0 < m ∧ m ≤ middleLbas - lbasDone ∧ m ≤ 65536 :=
            ⟨_, rfl, by simp only [nvmeMaxNlb]; omega, by omega, by simp only [nvmeMaxNlb]; omega⟩
          rw [chunk]
          have nlb : (m + 65535) % 65536 = m - 1 := by omega
          rw [nlb]
          have bytes : commandBytes d ⟨.chunk, e.slba + (pos - e.fileOffset) / d.lbaSize + lbasDone,
              m - 1, (r.dstBase.add (pos - r.reqStart)).add (lbasDone * d.lbaSize)⟩ =
                m * d.lbaSize := by
            simp only [commandBytes]
            rw [Nat.sub_add_cancel mPos]
          have rest : lbasDone * d.lbaSize + m * d.lbaSize ≤ middleLbas * d.lbaSize := by
            rw [← Nat.add_mul]
            exact Nat.mul_le_mul_right _ (by omega)
          have dst : pos - r.reqStart + lbasDone * d.lbaSize =
              pos + lbasDone * d.lbaSize - r.reqStart := by omega
          have taken := Plans.takeChunk geo lay user waited.inv member
            (c := ⟨.chunk, e.slba + (pos - e.fileOffset) / d.lbaSize + lbasDone, m - 1,
              (r.dstBase.add (pos - r.reqStart)).add (lbasDone * d.lbaSize)⟩)
            (q := pos + lbasDone * d.lbaSize) rfl (by omega) (by omega)
            (Nat.dvd_add aligned (Nat.dvd_mul_left _ _)) (by rw [bytes]; omega)
            (by
              have shift : pos + lbasDone * d.lbaSize - e.fileOffset =
                  (pos - e.fileOffset) + d.lbaSize * lbasDone := by
                rw [Nat.mul_comm]; omega
              simp only
              rw [shift, Nat.add_mul_div_left _ _ geo.lbaSize_pos, Nat.add_assoc])
            (by simp only [Ptr.add_add, dst])
          rw [bytes] at taken
          have stepped := waited.trans (Nat.le_refl _) (Nat.le_add_right _ _) taken
          have next := ih (lbasDone + m) _ (by omega) (by omega) taken.inv
          have past : pos + (lbasDone + m) * d.lbaSize =
              pos + lbasDone * d.lbaSize + m * d.lbaSize := by
            rw [Nat.add_mul]; omega
          rw [past] at next
          refine next.mono (fun st' plans => ?_) (fun st' stops => .after stepped stops)
          exact stepped.trans (Nat.le_add_right _ _) (by omega) plans

/-- `submit_read_middle` plans the whole LBAs and moves the cursor past them. -/
theorem submitReadMiddle_plans (geo : d.Geometry) (lay : Layout d extents)
    (user : r.dstBase.space = .user) {e : Extent} (member : e ∈ extents) {pos : Nat}
    (middleLbas : Nat)
    (low : e.fileOffset ≤ pos) (start : r.reqStart ≤ pos) (aligned : d.lbaSize ∣ pos)
    (within : pos + middleLbas * d.lbaSize ≤ min r.reqEnd e.fileEnd) (remaining : Nat)
    {st : ReadState} (inv : ReadInv d dev original (r.target d dev extents) st) :
    (submitReadMiddle d dev ⟨e.slba + (pos - e.fileOffset) / d.lbaSize,
        r.dstBase.add (pos - r.reqStart), remaining⟩ middleLbas st).Ends
      (fun out => out.1 = ⟨e.slba + (pos + middleLbas * d.lbaSize - e.fileOffset) / d.lbaSize,
          r.dstBase.add (pos + middleLbas * d.lbaSize - r.reqStart),
          remaining - middleLbas * d.lbaSize⟩ ∧
        Plans d dev extents r original pos (pos + middleLbas * d.lbaSize) 0 st out.2)
      (Stops d dev extents r original st) := by
  have loop := submitReadMiddleLoop_plans geo lay user member
    low start aligned within remaining middleLbas 0 st (by omega) (by omega) inv
  rw [Nat.zero_mul, Nat.add_zero] at loop
  refine loop.bind fun st' plans => ?_
  have shift : pos + middleLbas * d.lbaSize - e.fileOffset =
      (pos - e.fileOffset) + d.lbaSize * middleLbas := by
    rw [Nat.mul_comm]; omega
  have dst : pos - r.reqStart + middleLbas * d.lbaSize =
      pos + middleLbas * d.lbaSize - r.reqStart := by omega
  refine ⟨?_, plans⟩
  rw [shift, Nat.add_mul_div_left _ _ geo.lbaSize_pos, Nat.add_assoc, Ptr.add_add, dst]

/-- The number of leading partial LBAs a mode can stage. -/
def FileOpMode.heads : FileOpMode → Nat
  | .stream _ => 0
  | .async => 1

/-- `submit_partial` plans its bytes while a bounce slot is left. It leaves
without planning where the mode does not stage partial LBAs. -/
theorem submitPartial_plans (geo : d.Geometry) (lay : Layout d extents)
    (user : r.dstBase.space = .user) {e : Extent} (member : e ∈ extents) (q nbytes : Nat)
    (low : e.fileOffset ≤ q) (start : r.reqStart ≤ q) (some : 0 < nbytes)
    (within : q + nbytes ≤ min r.reqEnd e.fileEnd)
    (oneLba : (q - e.fileOffset) % d.lbaSize + nbytes ≤ d.lbaSize) {st : ReadState}
    (room : st.op.bounces.length < st.op.mode.heads + 1)
    (inv : ReadInv d dev original (r.target d dev extents) st) :
    (submitPartial d dev (r.dstBase.add (q - r.reqStart))
        (e.slba + (q - e.fileOffset) / d.lbaSize) ((q - e.fileOffset) % d.lbaSize) nbytes st).Ends
      (fun st' => Plans d dev extents r original q (q + nbytes) 1 st st' ∧
        d.assumeAlignedOnly = false ∧
        ((q - e.fileOffset) % d.lbaSize ≠ 0 → st.op.mode.heads = 1))
      (Stops d dev extents r original st) := by
  -- The bounce read itself, into either buffer.
  have read : ∀ (buf : Nat) (st₀ : ReadState), st₀.op.bounces.length < 2 →
      ReadInv d dev original (r.target d dev extents) st₀ →
      (submitBounceRead d dev buf (r.dstBase.add (q - r.reqStart))
          (e.slba + (q - e.fileOffset) / d.lbaSize) ((q - e.fileOffset) % d.lbaSize) nbytes
          st₀).Ends
        (Plans d dev extents r original q (q + nbytes) 1 st₀)
        (Stops d dev extents r original st₀) := by
    intro buf st₀ slot inv₀
    have fits : ¬ (bounceSlots ≤ st₀.op.bounces.length ∨
        d.lbaSize < (q - e.fileOffset) % d.lbaSize + nbytes) := by
      simp only [bounceSlots]
      omega
    simp only [submitBounceRead, if_neg fits]
    obtain ⟨poked, polled⟩ := retries_eq_poke (retryBounce_eq d dev)
      (dev.retries st₀.issued.length) st₀
    rw [polled]
    have waited := Plans.poke inv₀ poked q
    cases takes : dev.takes st₀.issued.length with
    | false =>
        simp only [Bool.false_eq_true, if_false, Submit.ends_out]
        refine .after waited (.fail waited.inv _ fun good => ?_)
        rw [good.takes] at takes
        cases takes
    | true =>
        have slots := (poke_frame d dev poked st₀).bounces
        have taken := Plans.takeBounce buf geo lay user waited.inv member low start some
          within oneLba
        rw [slots] at taken
        simp only [if_true, Submit.ends_ok]
        exact waited.trans (Nat.le_refl _) (Nat.le_add_right _ _) taken
  unfold submitPartial
  cases aligned : d.assumeAlignedOnly with
  | true => exact Stops.fail inv _ fun _ => rfl
  | false =>
      simp only [Bool.false_eq_true, if_false]
      cases mode : st.op.mode with
      | async =>
          simp only [submitHostBounce]
          cases buffer : (st.op.bounceBuf <|> dev.bufAlloc) with
          | none =>
              refine Stops.fail inv _ fun good => ?_
              have allocated := good.bufAlloc
              cases held : st.op.bounceBuf with
              | none =>
                  have none : dev.bufAlloc = none := by rwa [held] at buffer
                  rw [none] at allocated
                  cases allocated
              | some buf =>
                  rw [held] at buffer
                  cases buffer
          | some buf =>
              rw [mode] at room
              have kept : ReadInv d dev original (r.target d dev extents)
                  { st with op := { st.op with bounceBuf := Option.some buf } } :=
                inv.congr rfl rfl rfl rfl rfl rfl rfl
              refine (read buf { st with op := { st.op with bounceBuf := Option.some buf } } room
                kept).mono (fun st' plans => ?_) (fun st' stops => ?_)
              · refine ⟨⟨⟨plans.inv, ?_, plans.state, plans.result, plans.origin⟩, plans.covered,
                  plans.planned, plans.slots, plans.quiet⟩, trivial, fun _ => rfl⟩
                exact plans.mode
              · exact ⟨⟨stops.inv, stops.mode, stops.state, stops.result, stops.origin⟩,
                  stops.failed, stops.rejected⟩
      | stream buf =>
          simp only [ne_eq]
          split
          · exact Stops.fail inv _ fun _ => rfl
          · rename_i srcOff
            rw [mode] at room
            have empty : st.op.bounces = [] :=
              List.eq_nil_of_length_eq_zero (by simp only [FileOpMode.heads] at room; omega)
            have srcZero : (q - e.fileOffset) % d.lbaSize = 0 := by omega
            have bounced := read buf st (by rw [empty]; decide) inv
            rw [srcZero] at bounced
            simp only [submitStreamBounce, empty, ne_eq, not_true_eq_false, if_false]
            refine bounced.bind fun st' plans => ?_
            refine ⟨⟨⟨plans.inv.congr rfl rfl rfl rfl rfl rfl rfl, plans.mode, plans.state,
              plans.result, plans.origin⟩, plans.covered, plans.planned, plans.slots, plans.quiet⟩,
              trivial, fun nonzero => absurd srcZero nonzero⟩

/-! ## One extent -/

/-- The offset of the start of a span inside its LBA. -/
def headOffset (d : Driver) (e : Extent) (spanStart : Nat) : Nat :=
  (spanStart - e.fileOffset) % d.lbaSize

/-- The first LBA boundary of the file after the leading partial LBA, or the end
of the span if it ends before. -/
def headEnd (d : Driver) (e : Extent) (spanStart spanEnd : Nat) : Nat :=
  if headOffset d e spanStart = 0 then spanStart
  else spanStart + min (d.lbaSize - headOffset d e spanStart) (spanEnd - spanStart)

/-- The cursor at a file position of an extent. -/
def cursorAt (d : Driver) (r : Span) (e : Extent) (pos spanEnd : Nat) : ReadCursor :=
  ⟨e.slba + (pos - e.fileOffset) / d.lbaSize, r.dstBase.add (pos - r.reqStart), spanEnd - pos⟩

/-- The head plans the leading partial LBA and leaves the cursor at an LBA
boundary or at the end of the span. -/
theorem submitHead_plans (geo : d.Geometry) (lay : Layout d extents)
    (user : r.dstBase.space = .user) {e : Extent} (member : e ∈ extents) {spanStart spanEnd : Nat}
    (low : e.fileOffset ≤ spanStart) (start : r.reqStart ≤ spanStart)
    (nonempty : spanStart < spanEnd) (within : spanEnd ≤ min r.reqEnd e.fileEnd) {st : ReadState}
    (room : headOffset d e spanStart ≠ 0 → st.op.bounces.length = 0)
    (inv : ReadInv d dev original (r.target d dev extents) st) :
    (submitHead d dev r e spanStart spanEnd st).Ends
      (fun out => out.1.remaining = spanEnd - headEnd d e spanStart spanEnd ∧
        (headEnd d e spanStart spanEnd < spanEnd →
          out.1 = cursorAt d r e (headEnd d e spanStart spanEnd) spanEnd) ∧
        Plans d dev extents r original spanStart (headEnd d e spanStart spanEnd)
          (if headOffset d e spanStart = 0 then 0 else 1) st out.2 ∧
        (headOffset d e spanStart ≠ 0 → st.op.mode.heads = 1))
      (Stops d dev extents r original st) := by
  have offset : (spanStart - e.fileOffset) % d.lbaSize = headOffset d e spanStart := rfl
  simp only [submitHead, geo.and_mask, geo.shiftRight, offset]
  by_cases head : headOffset d e spanStart = 0
  · simp only [head, ne_eq, not_true_eq_false, if_false, Submit.pure_eq, Submit.ends_ok, headEnd,
      if_true, cursorAt, false_implies, and_true, implies_true, true_and]
    exact .refl inv _
  have headLt : headOffset d e spanStart < d.lbaSize := Nat.mod_lt _ geo.lbaSize_pos
  simp only [ne_eq, head, not_false_eq_true, if_true]
  split
  · exact Stops.fail inv _ fun _ => rfl
  · have planned := submitPartial_plans geo lay user member spanStart
      (min (d.lbaSize - headOffset d e spanStart) (spanEnd - spanStart)) low start (by omega)
      (by omega) (by change headOffset d e spanStart + _ ≤ _; omega)
      (by rw [room head]; exact Nat.succ_pos _) inv
    refine planned.bind fun st' ends => ?_
    obtain ⟨plans, -, heads⟩ := ends
    simp only [Submit.pure_eq, Submit.ends_ok, headEnd, head, if_false, cursorAt]
    refine ⟨by omega, fun more => ?_, plans, fun _ => heads head⟩
    -- The head stops short of the end of the span, so it reaches the next LBA boundary.
    have parts := Nat.mod_add_div (spanStart - e.fileOffset) d.lbaSize
    change headOffset d e spanStart + _ = _ at parts
    rw [Nat.min_eq_left (by omega)] at more ⊢
    have boundary : spanStart + (d.lbaSize - headOffset d e spanStart) - e.fileOffset =
        d.lbaSize * ((spanStart - e.fileOffset) / d.lbaSize + 1) := by
      rw [Nat.mul_succ]; omega
    have dst : spanStart - r.reqStart + (d.lbaSize - headOffset d e spanStart) =
        spanStart + (d.lbaSize - headOffset d e spanStart) - r.reqStart := by omega
    rw [boundary, Nat.mul_div_cancel_left _ geo.lbaSize_pos, Ptr.add_add, dst, Nat.sub_sub,
      Nat.add_assoc]

/-- Where the head stops short of the end of the span, it stops at an LBA
boundary of the file. -/
theorem lbaSize_dvd_headEnd (geo : d.Geometry) (lay : Layout d extents) {e : Extent}
    (member : e ∈ extents) {spanStart spanEnd : Nat} (low : e.fileOffset ≤ spanStart)
    (more : headEnd d e spanStart spanEnd < spanEnd) :
    d.lbaSize ∣ headEnd d e spanStart spanEnd := by
  have parts := Nat.mod_add_div (spanStart - e.fileOffset) d.lbaSize
  change headOffset d e spanStart + _ = _ at parts
  obtain ⟨k, offset⟩ := lay.aligned e member
  unfold headEnd at more ⊢
  by_cases head : headOffset d e spanStart = 0
  · rw [if_pos head]
    refine ⟨(spanStart - e.fileOffset) / d.lbaSize + k, ?_⟩
    rw [Nat.mul_add]
    omega
  · rw [if_neg head] at more ⊢
    rw [Nat.min_eq_left (by omega)] at more ⊢
    refine ⟨(spanStart - e.fileOffset) / d.lbaSize + 1 + k, ?_⟩
    rw [Nat.mul_add, Nat.mul_add]
    have headLt : headOffset d e spanStart < d.lbaSize := Nat.mod_lt _ geo.lbaSize_pos
    omega

/-- The body plans the rest of the span, with a slot for a trailing partial LBA. -/
theorem submitBody_plans (geo : d.Geometry) (lay : Layout d extents)
    (user : r.dstBase.space = .user) {e : Extent} (member : e ∈ extents) {pos spanEnd : Nat}
    (low : e.fileOffset ≤ pos) (start : r.reqStart ≤ pos) (aligned : d.lbaSize ∣ pos)
    (notPast : pos ≤ spanEnd) (within : spanEnd ≤ min r.reqEnd e.fileEnd) {st : ReadState}
    (room : st.op.bounces.length ≤ st.op.mode.heads)
    (inv : ReadInv d dev original (r.target d dev extents) st) :
    (submitBody d dev (cursorAt d r e pos spanEnd) st).Ends
      (Plans d dev extents r original pos spanEnd (if d.lbaSize ∣ spanEnd then 0 else 1) st)
      (Stops d dev extents r original st) := by
  have lbaPos := geo.lbaSize_pos
  have tail : (spanEnd - pos) % d.lbaSize = 0 ↔ d.lbaSize ∣ spanEnd := by
    rw [← Nat.dvd_iff_mod_eq_zero, Nat.dvd_sub_iff_left notPast aligned]
  simp only [submitBody, geo.and_mask, geo.shiftRight, cursorAt]
  -- The whole LBAs end where the trailing partial LBA begins.
  have whole : (spanEnd - pos - (spanEnd - pos) % d.lbaSize) / d.lbaSize =
      (spanEnd - pos) / d.lbaSize := by
    have parts := Nat.mod_add_div (spanEnd - pos) d.lbaSize
    rw [show spanEnd - pos - (spanEnd - pos) % d.lbaSize =
      d.lbaSize * ((spanEnd - pos) / d.lbaSize) by omega, Nat.mul_div_cancel_left _ lbaPos]
  rw [whole]
  have parts := Nat.mod_add_div (spanEnd - pos) d.lbaSize
  rw [Nat.mul_comm] at parts
  have middle : (if (spanEnd - pos) / d.lbaSize ≠ 0 then
        submitReadMiddle d dev (cursorAt d r e pos spanEnd) ((spanEnd - pos) / d.lbaSize) st
      else return (cursorAt d r e pos spanEnd, st) : Submit (ReadCursor × ReadState)).Ends
      (fun out => out.1 = cursorAt d r e (spanEnd - (spanEnd - pos) % d.lbaSize) spanEnd ∧
        Plans d dev extents r original pos (spanEnd - (spanEnd - pos) % d.lbaSize) 0 st out.2)
      (Stops d dev extents r original st) := by
    have finish : pos + (spanEnd - pos) / d.lbaSize * d.lbaSize =
        spanEnd - (spanEnd - pos) % d.lbaSize := by omega
    by_cases none : (spanEnd - pos) / d.lbaSize = 0
    · rw [none, Nat.zero_mul] at finish
      simp only [none, ne_eq, not_true_eq_false, if_false, Submit.pure_eq, Submit.ends_ok]
      rw [← finish]
      exact ⟨rfl, .refl inv _⟩
    · simp only [ne_eq, none, not_false_eq_true, if_true]
      have planned := submitReadMiddle_plans geo lay user member
        ((spanEnd - pos) / d.lbaSize) low start aligned (by omega) (spanEnd - pos) inv
      rw [finish] at planned
      refine planned.mono (fun out ends => ⟨?_, ends.2⟩) fun _ stops => stops
      have rest : spanEnd - pos - (spanEnd - pos) / d.lbaSize * d.lbaSize =
          spanEnd - (spanEnd - (spanEnd - pos) % d.lbaSize) := by
        have tailLe := Nat.mod_le (spanEnd - pos) d.lbaSize
        generalize (spanEnd - pos) / d.lbaSize * d.lbaSize = middleBytes at parts
        omega
      rw [ends.1, cursorAt, rest]
  refine middle.bind fun out ends => ?_
  obtain ⟨c, st'⟩ := out
  obtain ⟨cursor, plans⟩ := ends
  simp only at cursor plans
  subst cursor
  by_cases ends : d.lbaSize ∣ spanEnd
  · have none := tail.mpr ends
    simp only [none, ne_eq, not_true_eq_false, if_false, Submit.pure_eq, Submit.ends_ok, ends,
      if_true]
    rwa [none] at plans
  · have some : (spanEnd - pos) % d.lbaSize ≠ 0 := fun zero => ends (tail.mp zero)
    simp only [ne_eq, some, not_false_eq_true, if_true, ends, if_false, cursorAt]
    have tailLt := Nat.mod_lt (spanEnd - pos) lbaPos
    -- The tail starts at an LBA boundary of its extent.
    have offset : (spanEnd - (spanEnd - pos) % d.lbaSize - e.fileOffset) % d.lbaSize = 0 := by
      rw [← Nat.dvd_iff_mod_eq_zero]
      refine offset_dvd lay member ?_
      have split : spanEnd - (spanEnd - pos) % d.lbaSize =
          pos + (spanEnd - pos) / d.lbaSize * d.lbaSize := by omega
      rw [split]
      exact Nat.dvd_add aligned (Nat.dvd_mul_left _ _)
    have partialTail := submitPartial_plans geo lay user member
      (spanEnd - (spanEnd - pos) % d.lbaSize) ((spanEnd - pos) % d.lbaSize)
      (by omega) (by omega) (by omega) (by omega) (by omega)
      (by rw [plans.slots, plans.mode]; omega) plans.inv
    rw [offset, Nat.sub_add_cancel (by omega)] at partialTail
    refine partialTail.mono (fun st'' tailEnds => ?_) fun _ stops => .after plans stops
    exact plans.trans (by omega) (by omega) tailEnds.1

/-- Nothing is left to do for an empty rest of a span. -/
theorem submitBody_empty (geo : d.Geometry) {c : ReadCursor} (empty : c.remaining = 0)
    (st : ReadState) : submitBody d dev c st = .ok st := by
  simp [submitBody, empty, geo.shiftRight]

/-- **One extent.** The part of the request in an extent is planned, with at
most one more bounce slot than the heads the mode stages, and with the last one
only where the part ends inside an LBA. -/
theorem submitSpan_plans (geo : d.Geometry) (lay : Layout d extents)
    (user : r.dstBase.space = .user) {e : Extent} (member : e ∈ extents) {spanStart spanEnd : Nat}
    (low : e.fileOffset ≤ spanStart) (start : r.reqStart ≤ spanStart)
    (nonempty : spanStart < spanEnd) (within : spanEnd ≤ min r.reqEnd e.fileEnd) {st : ReadState}
    (unstaged : headOffset d e spanStart ≠ 0 → st.op.bounces.length = 0)
    (room : st.op.bounces.length ≤ st.op.mode.heads)
    (inv : ReadInv d dev original (r.target d dev extents) st) :
    (submitSpan d dev r e spanStart spanEnd st).Ends
      (fun st' => (∃ slots, Plans d dev extents r original spanStart spanEnd slots st st') ∧
        (st'.op.bounces.length ≤ st'.op.mode.heads ∨
          (st'.op.bounces.length ≤ st'.op.mode.heads + 1 ∧ ¬ d.lbaSize ∣ spanEnd)))
      (Stops d dev extents r original st) := by
  have headLe : headEnd d e spanStart spanEnd ≤ spanEnd := by
    unfold headEnd
    split <;> omega
  have headGe : spanStart ≤ headEnd d e spanStart spanEnd := by
    unfold headEnd
    split <;> omega
  refine (submitHead_plans geo lay user member low start nonempty within unstaged inv).bind
    fun out ends => ?_
  obtain ⟨c, st'⟩ := out
  obtain ⟨remaining, cursor, plans, heads⟩ := ends
  simp only at remaining cursor plans
  have staged : st'.op.bounces.length ≤ st'.op.mode.heads := by
    rw [plans.slots, plans.mode]
    by_cases head : headOffset d e spanStart = 0
    · rw [if_pos head]
      exact room
    · rw [if_neg head, unstaged head, heads head]
  by_cases more : headEnd d e spanStart spanEnd < spanEnd
  · rw [cursor more]
    have aligned := lbaSize_dvd_headEnd geo lay member low more
    refine (submitBody_plans geo lay user member (by omega) (by omega) aligned headLe within staged
      plans.inv).mono (fun st'' body => ⟨⟨_, plans.trans headGe headLe body⟩, ?_⟩)
      fun _ stops => .after plans stops
    have slots := body.slots
    rw [body.mode]
    by_cases ends : d.lbaSize ∣ spanEnd
    · rw [if_pos ends] at slots
      exact .inl (by omega)
    · rw [if_neg ends] at slots
      exact .inr ⟨by omega, ends⟩
  · have finish : headEnd d e spanStart spanEnd = spanEnd := by omega
    rw [finish, Nat.sub_self] at remaining
    rw [finish] at plans
    simp only [submitBody_empty geo remaining, Submit.ends_ok]
    exact ⟨⟨_, plans⟩, .inl staged⟩

/-! ## The extent loop -/

/-- The file position belongs to the request and to one of the extents. -/
def Span.InExtents (r : Span) (extents : List Extent) (p : Nat) : Prop :=
  r.reqStart ≤ p ∧ p < r.reqEnd ∧ ∃ e ∈ extents, e.fileOffset ≤ p ∧ p < e.fileEnd

/-- The bytes of the request inside an extent. -/
def Span.overlap (r : Span) (e : Extent) : Nat :=
  min r.reqEnd e.fileEnd - max r.reqStart e.fileOffset

/-- What the extent loop plans, of the extents it has yet to walk. -/
structure Reads (d : Driver) (dev : Device) (extents : List Extent) (r : Span)
    (original : Memory Space UInt8) (walked : List Extent) (st st' : ReadState) : Prop
    extends Extends d dev extents r original st st' where
  covered : ∀ a, st'.Covered d a ↔
    st.Covered d a ∨ ∃ p, r.InExtents walked p ∧ a = r.addrOf p
  planned : st'.planned d = st.planned d + (walked.map r.overlap).sum
  slots : st'.op.bounces.length ≤ st'.op.mode.heads + 1
  quiet : dev.Good → st'.op.err = st.op.err

/-- The bounce slots that are left before an extent: none is filled, or a head
is staged and the request starts before, or the request is over. -/
def Room (r : Span) (rest : List Extent) (st : ReadState) : Prop :=
  st.op.bounces.length = 0 ∨
    (st.op.bounces.length ≤ st.op.mode.heads ∧ ∀ e ∈ rest, r.reqStart ≤ e.fileOffset) ∨
      (st.op.bounces.length ≤ st.op.mode.heads + 1 ∧ ∀ e ∈ rest, r.reqEnd ≤ e.fileOffset)

theorem Room.length_le {rest : List Extent} {st : ReadState} (room : Room r rest st) :
    st.op.bounces.length ≤ st.op.mode.heads + 1 := by
  rcases room with none | ⟨head, _⟩ | ⟨both, _⟩ <;> omega

/-- Extents that the request does not meet contribute nothing. -/
theorem Reads.refl {walked : List Extent} {st : ReadState}
    (inv : ReadInv d dev original (r.target d dev extents) st)
    (slots : st.op.bounces.length ≤ st.op.mode.heads + 1)
    (missed : ∀ e ∈ walked, min r.reqEnd e.fileEnd ≤ max r.reqStart e.fileOffset) :
    Reads d dev extents r original walked st st where
  toExtends := .refl inv
  covered a := by
    constructor
    · exact .inl
    · rintro (old | ⟨p, ⟨start, stop, e, member, low, high⟩, -⟩)
      · exact old
      · have gap := missed e member
        omega
  planned := by
    have zero : walked.map r.overlap = walked.map fun _ => 0 :=
      List.map_congr_left fun e member => Nat.sub_eq_zero_of_le (missed e member)
    simp [zero]
  slots := slots
  quiet _ := rfl

/-- Planning the part of the request in one extent and then the rest. -/
theorem Reads.cons {e : Extent} {rest : List Extent} {st st' st'' : ReadState} {slots : Nat}
    (first : Plans d dev extents r original (max r.reqStart e.fileOffset)
      (min r.reqEnd e.fileEnd) slots st st')
    (second : Reads d dev extents r original rest st' st'') :
    Reads d dev extents r original (e :: rest) st st'' where
  toExtends := first.toExtends.trans second.toExtends
  covered a := by
    rw [second.covered, first.covered]
    constructor
    · rintro ((old | between) | ⟨p, ⟨start, stop, e', member, within⟩, address⟩)
      · exact .inl old
      · simp only [Span.addrOf] at between ⊢
        refine .inr ⟨(a - r.dstBase.addr + r.reqStart).toNat, ⟨by omega, by omega, e, by simp, ?_⟩,
          by omega⟩
        omega
      · exact .inr ⟨p, ⟨start, stop, e', List.mem_cons_of_mem _ member, within⟩, address⟩
    · rintro (old | ⟨p, ⟨start, stop, e', member, low, high⟩, rfl⟩)
      · exact .inl (.inl old)
      · rcases List.mem_cons.mp member with rfl | later
        · simp only [Span.addrOf]
          exact .inl (.inr (by omega))
        · exact .inr ⟨p, ⟨start, stop, e', later, low, high⟩, rfl⟩
  planned := by
    rw [second.planned, first.planned]
    simp only [List.map_cons, List.sum_cons, Span.overlap]
    omega
  slots := second.slots
  quiet good := (second.quiet good).trans (first.quiet good)

/-- **The extent loop** plans exactly the bytes of the request inside the
extents, and never runs out of bounce slots. -/
theorem submitExtents_reads (geo : d.Geometry) (lay : Layout d extents)
    (user : r.dstBase.space = .user) :
    ∀ (walked : List Extent) (st : ReadState), (∀ e ∈ walked, e ∈ extents) →
      Layout d walked → Room r walked st →
      ReadInv d dev original (r.target d dev extents) st →
      (submitExtents d dev r walked st).Ends
        (Reads d dev extents r original walked st) (Stops d dev extents r original st) := by
  intro walked
  induction walked with
  | nil =>
      intro st _ _ room inv
      exact .refl inv room.length_le (by simp)
  | cons e rest ih =>
      intro st subset layout room inv
      have member := subset e (List.mem_cons_self ..)
      have subsetRest : ∀ e' ∈ rest, e' ∈ extents := fun e' later =>
        subset e' (List.mem_cons_of_mem _ later)
      have after := layout.after
      simp only [submitExtents]
      by_cases past : r.reqEnd ≤ e.fileOffset
      · rw [if_pos past]
        refine .refl inv room.length_le fun e' walked' => ?_
        rcases List.mem_cons.mp walked' with rfl | later
        · omega
        · have := after e' later
          simp only [Extent.fileEnd] at *
          omega
      rw [if_neg past]
      by_cases empty : min r.reqEnd e.fileEnd ≤ max r.reqStart e.fileOffset
      · rw [if_pos empty]
        have roomRest : Room r rest st := room.imp_right (.imp
          (.imp_right fun all e' later => all e' (List.mem_cons_of_mem _ later))
          (.imp_right fun all e' later => all e' (List.mem_cons_of_mem _ later)))
        refine (ih st subsetRest layout.tail roomRest inv).mono (fun st' reads => ?_)
          fun _ stops => stops
        refine ⟨reads.toExtends, fun a => ?_, ?_, reads.slots, reads.quiet⟩
        · rw [reads.covered]
          refine or_congr_right (exists_congr fun p => and_congr_left fun _ => ?_)
          constructor
          · rintro ⟨start, stop, e', later, within⟩
            exact ⟨start, stop, e', List.mem_cons_of_mem _ later, within⟩
          · rintro ⟨start, stop, e', walked', low, high⟩
            rcases List.mem_cons.mp walked' with rfl | later
            · omega
            · exact ⟨start, stop, e', later, low, high⟩
        · rw [reads.planned, List.map_cons, List.sum_cons, Span.overlap]
          omega
      rw [if_neg empty]
      -- A leading partial LBA means that the request starts inside this extent.
      have startsHere : headOffset d e (max r.reqStart e.fileOffset) ≠ 0 →
          e.fileOffset < r.reqStart := by
        intro head
        by_contra notBefore
        refine head ?_
        rw [headOffset, Nat.max_eq_right (by omega), Nat.sub_self, Nat.zero_mod]
      have unstaged : headOffset d e (max r.reqStart e.fileOffset) ≠ 0 →
          st.op.bounces.length = 0 := by
        intro head
        have here := startsHere head
        rcases room with none | ⟨_, all⟩ | ⟨_, all⟩
        · exact none
        · exact absurd (all e (List.mem_cons_self ..)) (by omega)
        · exact absurd (all e (List.mem_cons_self ..)) (by omega)
      have staged : st.op.bounces.length ≤ st.op.mode.heads := by
        rcases room with none | ⟨head, _⟩ | ⟨_, all⟩
        · omega
        · exact head
        · exact absurd (all e (List.mem_cons_self ..)) past
      refine (submitSpan_plans geo lay user member (by omega) (by omega) (by omega) (Nat.le_refl _)
        unstaged staged inv).bind fun st' ends => ?_
      obtain ⟨⟨slots, plans⟩, left⟩ := ends
      have roomRest : Room r rest st' := by
        rcases left with head | ⟨both, partialEnd⟩
        · refine .inr (.inl ⟨head, fun e' later => ?_⟩)
          have := after e' later
          omega
        · refine .inr (.inr ⟨both, fun e' later => ?_⟩)
          -- Only the last extent ends inside an LBA, so the request ends in this one.
          have ordered := List.rel_of_pairwise_cons layout.ordered later
          have whole : d.lbaSize ∣ e.fileEnd :=
            Nat.dvd_add (layout.aligned e (List.mem_cons_self ..)) ordered.2
          by_cases ends : e.fileEnd ≤ r.reqEnd
          · rw [Nat.min_eq_right ends] at partialEnd
            exact absurd whole partialEnd
          · omega
      exact (ih st' subsetRest layout.tail roomRest plans.inv).mono
        (fun st'' reads => .cons plans reads) fun _ stops => .after plans stops

end OpenDS.Aisio
