import OpenDS.Aisio.MiddleChunks
import OpenDS.Aisio.ReadTask
import OpenDS.Aisio.RestrictedReads

/-!
# The bounce slots of a read

The extent loop decides for each extent whether the part of the request in it has a leading
and a trailing partial LBA, and an operation has two bounce slots, the stream one LBA. The
slots suffice for every layout: only the first extent that the request meets can have a
leading partial LBA, as the later ones start at LBA boundaries, and only the last one a
trailing partial LBA (`planExtents_staged`). So the checks in `submit_bounce_read` and
`submit_stream_bounce` never fail (`bounces_suffice`).
-/

set_option autoImplicit false

namespace OpenDS.Aisio

open OpenDS.Library ReadState

variable {d : Driver} {dev : Device} {extents : List Extent} {r : Span}

/-! ## Staged items -/

/-- The item asks for a bounce slot. -/
def Item.stages : Item → Bool
  | .partialLba _ _ _ _ => true
  | .bounceRead _ _ _ _ _ => true
  | _ => false

/-- A leading partial LBA: it starts inside an LBA and does not leave it. -/
def Item.IsHead (d : Driver) : Item → Prop
  | .partialLba _ _ srcOff nbytes => 0 < srcOff ∧ 0 < nbytes ∧ srcOff + nbytes ≤ d.lbaSize
  | _ => False

/-- A trailing partial LBA: it starts at an LBA boundary and ends inside the LBA. -/
def Item.IsTail (d : Driver) : Item → Prop
  | .partialLba _ _ srcOff nbytes => srcOff = 0 ∧ 0 < nbytes ∧ nbytes < d.lbaSize
  | _ => False

/-- Only an asynchronous operation stages a head. -/
theorem Item.IsHead.refused {item : Item} {mode : FileOpMode} (head : item.IsHead d)
    (stream : mode ≠ .async) : item.Refused d mode := by
  cases item with
  | partialLba absDst slba srcOff nbytes => exact .inr ⟨stream, Nat.ne_of_gt head.1⟩
  | _ => exact head.elim

/-- At most one head, and at most one tail after it. -/
structure HeadAndTail (d : Driver) (heads tails : List Item) : Prop where
  one_head : heads.length ≤ 1
  one_tail : tails.length ≤ 1
  head : ∀ item ∈ heads, item.IsHead d
  tail : ∀ item ∈ tails, item.IsTail d

theorem planMiddle_staged (geo : d.Geometry) (c : ReadCursor) (middleLbas : Nat) :
    (planMiddle d c middleLbas).filter Item.stages = [] := by
  obtain ⟨cmds, items, -, -⟩ := planMiddle_tiles geo c middleLbas
  rw [items, List.filter_eq_nil_iff]
  intro item member
  obtain ⟨cmd, -, rfl⟩ := List.mem_map.mp member
  simp [Command.chunkItem, Item.stages]

/-- The rest of an extent stages what is left behind its last LBA boundary. -/
theorem planBody_staged (geo : d.Geometry) (c : ReadCursor) :
    ∃ absDst slba, (planBody d c).filter Item.stages =
      if c.remaining % d.lbaSize ≠ 0 then [.partialLba absDst slba 0 (c.remaining % d.lbaSize)]
      else [] := by
  have middle : ∀ middleLbas, (if middleLbas ≠ 0 then planMiddle d c middleLbas
      else []).filter Item.stages = [] := by
    intro middleLbas
    split
    · exact planMiddle_staged geo c middleLbas
    · rfl
  simp only [planBody, List.filter_append, middle, List.nil_append, geo.and_mask]
  split
  · exact ⟨_, _, rfl⟩
  · exact ⟨c.absDst, c.curSlba, rfl⟩

/-- **The part of the request in one extent stages at most one head and one tail.** A head
means that it starts past the start of the extent, a tail that it ends inside an LBA. -/
theorem planSpan_staged (geo : d.Geometry) {e : Extent} (aligned : d.lbaSize ∣ e.fileOffset)
    {spanStart spanEnd : Nat} (low : e.fileOffset ≤ spanStart) (nonempty : spanStart < spanEnd) :
    ∃ heads tails, (planSpan d r e spanStart spanEnd).filter Item.stages = heads ++ tails ∧
      HeadAndTail d heads tails ∧ (heads ≠ [] → e.fileOffset < spanStart) ∧
      (tails ≠ [] → ¬ d.lbaSize ∣ spanEnd) := by
  have lbaPos := geo.lbaSize_pos
  -- What is staged behind the head, for any cursor that stands at an LBA boundary.
  have rest : ∀ c : ReadCursor, (d.lbaSize ∣ spanEnd → c.remaining % d.lbaSize = 0) →
      ∃ tails, (planBody d c).filter Item.stages = tails ∧ tails.length ≤ 1 ∧
        (∀ item ∈ tails, item.IsTail d) ∧ (tails ≠ [] → ¬ d.lbaSize ∣ spanEnd) := by
    intro c whole
    obtain ⟨absDst, slba, staged⟩ := planBody_staged geo c
    refine ⟨_, staged, ?_⟩
    by_cases tail : c.remaining % d.lbaSize = 0
    · rw [if_neg (not_not.mpr tail)]
      exact ⟨Nat.zero_le _, List.forall_mem_nil _, fun some => absurd rfl some⟩
    · rw [if_pos tail]
      refine ⟨Nat.le_refl _, fun item member => ?_, fun _ => mt whole tail⟩
      rw [List.mem_singleton.mp member]
      exact ⟨rfl, Nat.pos_of_ne_zero tail, Nat.mod_lt _ lbaPos⟩
  rw [planSpan, List.filter_append]
  by_cases off : (spanStart - e.fileOffset) % d.lbaSize = 0
  · -- The span starts at an LBA boundary.
    have start : d.lbaSize ∣ spanStart :=
      (Nat.dvd_sub_iff_left low aligned).mp (Nat.dvd_of_mod_eq_zero off)
    simp only [planHead, geo.and_mask, off, ne_eq, not_true_eq_false, if_false]
    obtain ⟨tails, staged, one, tail, ends⟩ := rest
      ⟨e.slba + (spanStart - e.fileOffset) >>> d.lbaShift,
        r.dstBase.add (spanStart - r.reqStart), spanEnd - spanStart⟩
      fun whole => Nat.mod_eq_zero_of_dvd (Nat.dvd_sub whole start)
    exact ⟨[], tails, staged, ⟨Nat.zero_le _, one, List.forall_mem_nil _, tail⟩,
      fun some => absurd rfl some, ends⟩
  · have inside := Nat.mod_lt (spanStart - e.fileOffset) lbaPos
    have past : e.fileOffset < spanStart := by
      refine lt_of_le_of_ne low fun same => off ?_
      rw [← same, Nat.sub_self, Nat.zero_mod]
    -- Past the head the cursor stands at an LBA boundary, or at the end of the span.
    have boundary : d.lbaSize ∣ spanStart +
        (d.lbaSize - (spanStart - e.fileOffset) % d.lbaSize) := by
      have parts := Nat.mod_add_div (spanStart - e.fileOffset) d.lbaSize
      have split : spanStart + (d.lbaSize - (spanStart - e.fileOffset) % d.lbaSize) =
          e.fileOffset + (d.lbaSize * ((spanStart - e.fileOffset) / d.lbaSize) + d.lbaSize) := by
        omega
      rw [split]
      exact Nat.dvd_add aligned (Nat.dvd_add (Nat.dvd_mul_right _ _) (Nat.dvd_refl _))
    simp only [planHead, geo.and_mask, ne_eq, off, not_false_eq_true, if_true]
    have left : d.lbaSize ∣ spanEnd → (spanEnd - spanStart -
        min (d.lbaSize - (spanStart - e.fileOffset) % d.lbaSize) (spanEnd - spanStart)) %
          d.lbaSize = 0 := by
      intro whole
      rcases Nat.le_total (d.lbaSize - (spanStart - e.fileOffset) % d.lbaSize)
        (spanEnd - spanStart) with more | less
      · rw [Nat.min_eq_left more, Nat.sub_sub]
        exact Nat.mod_eq_zero_of_dvd (Nat.dvd_sub whole boundary)
      · rw [Nat.min_eq_right less, Nat.sub_self, Nat.zero_mod]
    split
    · obtain ⟨tails, staged, one, tail, ends⟩ := rest ⟨_, _, _⟩ left
      exact ⟨[], tails, congrArg ([] ++ ·) staged,
        ⟨Nat.zero_le _, one, List.forall_mem_nil _, tail⟩,
        fun some => absurd rfl some, ends⟩
    · obtain ⟨tails, staged, one, tail, ends⟩ := rest ⟨_, _, _⟩ left
      refine ⟨_, tails, congrArg (_ ++ ·) staged, ⟨Nat.le_refl _, one, fun item member => ?_, tail⟩,
        fun _ => past, ends⟩
      rw [List.mem_singleton.mp member]
      refine ⟨Nat.pos_of_ne_zero off, ?_, ?_⟩
      · omega
      · omega

/-- A request that is over asks for nothing of the later extents. -/
theorem planExtents_over (ended : ∀ e ∈ extents, r.reqEnd ≤ e.fileOffset) :
    planExtents d r extents = [] := by
  cases extents with
  | nil => rfl
  | cons e rest => rw [planExtents, if_pos (ended e (List.mem_cons_self ..))]

/-- **A request stages at most one head and one tail**, however many extents it meets. A head
means that it starts past the start of an extent. -/
theorem planExtents_staged (geo : d.Geometry) (lay : Layout d extents) :
    ∃ heads tails, (planExtents d r extents).filter Item.stages = heads ++ tails ∧
      HeadAndTail d heads tails ∧ (heads ≠ [] → ∃ e ∈ extents, e.fileOffset < r.reqStart) := by
  have none : HeadAndTail d [] [] :=
    ⟨Nat.zero_le _, Nat.zero_le _, List.forall_mem_nil _, List.forall_mem_nil _⟩
  induction extents with
  | nil => exact ⟨[], [], rfl, none, fun some => absurd rfl some⟩
  | cons e rest ih =>
      rw [planExtents]
      split
      · exact ⟨[], [], rfl, none, fun some => absurd rfl some⟩
      simp only
      obtain ⟨heads', tails', later, shape', starts'⟩ := ih lay.tail
      split
      · refine ⟨heads', tails', later, shape', fun some => ?_⟩
        obtain ⟨e', member, before⟩ := starts' some
        exact ⟨e', List.mem_cons_of_mem _ member, before⟩
      rename_i meets
      rw [Nat.not_le] at meets
      obtain ⟨heads, tails, here, shape, starts, ends⟩ := planSpan_staged (r := r) geo
        (lay.aligned e (List.mem_cons_self ..)) (Nat.le_max_right r.reqStart e.fileOffset) meets
      have inside : heads ≠ [] → ∃ e' ∈ e :: rest, e'.fileOffset < r.reqStart := fun some =>
        ⟨e, List.mem_cons_self .., by have := starts some; omega⟩
      rw [List.filter_append, here]
      by_cases tail : tails = []
      · -- The request starts before the end of this extent, so no later one has a head.
        have noHead : heads' = [] := by
          by_contra some
          obtain ⟨e', member, before⟩ := starts' some
          have after := lay.after e' member
          omega
        refine ⟨heads, tails', ?_, ⟨shape.one_head, shape'.one_tail, shape.head, shape'.tail⟩, inside⟩
        rw [tail, List.append_nil, later, noHead, List.nil_append]
      · -- Only the last extent ends inside an LBA, so the request ends in this one.
        have ended : ∀ e' ∈ rest, r.reqEnd ≤ e'.fileOffset := by
          intro e' member
          have ordered := List.rel_of_pairwise_cons lay.ordered member
          have whole : d.lbaSize ∣ e.fileEnd :=
            Nat.dvd_add (lay.aligned e (List.mem_cons_self ..)) ordered.2
          by_contra more
          refine ends tail ?_
          rw [Nat.min_eq_right (by omega)]
          exact whole
        refine ⟨heads, tails, ?_, shape, inside⟩
        rw [planExtents_over ended, List.filter_nil, List.append_nil]

/-! ## The slots of a run -/

/-- The buffer that an operation reads its partial LBAs into. -/
def FileOp.bounceBuffer (op : FileOp) : Option Nat :=
  match op.mode with
  | .stream buf => some buf
  | .async => op.bounceBuf

theorem bounceBuffer_eq {op op' : FileOp} (mode : op'.mode = op.mode)
    (buf : op'.bounceBuf = op.bounceBuf) : op'.bounceBuffer = op.bounceBuffer := by
  rw [FileOp.bounceBuffer, FileOp.bounceBuffer, mode, buf]

/-- A part of a bounce allocation: one LBA for each slot. -/
def slotLba (d : Driver) (buf slot : Nat) : Ptr Space :=
  ⟨.bounce buf, ((slot * d.lbaSize : Nat) : Int)⟩

/-- The commands that read partial LBAs. -/
def ReadState.bounceReads (st : ReadState) : List Command :=
  st.issued.filter fun cmd => cmd.callback = .bounce

/-- The filled slots are the first ones of the buffer of the operation: each is read by its own
command into its own LBA, and copied from there. -/
structure ReadState.InSlots (d : Driver) (buf : Nat) (st : ReadState) : Prop where
  own : st.op.bounces ≠ [] → st.op.bounceBuffer = some buf
  reads : st.bounceReads.map (fun cmd => (cmd.dst, cmd.nlb)) =
    (List.range st.op.bounces.length).map (fun slot => (slotLba d buf slot, 0))
  copies : ∀ i slot, st.op.bounces[i]? = some slot →
    ∃ off, slot.src = (slotLba d buf i).add off ∧ off + slot.nbytes ≤ d.lbaSize

theorem ReadState.InSlots.congr {buf : Nat} {st st' : ReadState} (slots : st.InSlots d buf)
    (buffer : st'.op.bounceBuffer = st.op.bounceBuffer) (reads : st'.bounceReads = st.bounceReads)
    (bounces : st'.op.bounces = st.op.bounces) : st'.InSlots d buf := by
  refine ⟨?_, ?_, ?_⟩
  · rw [bounces, buffer]
    exact slots.own
  · rw [reads, bounces]
    exact slots.reads
  · rw [bounces]
    exact slots.copies

theorem ReadState.InSlots.unfilled {buf : Nat} {st : ReadState} (empty : st.op.bounces = [])
    (unread : st.bounceReads = []) : st.InSlots d buf := by
  refine ⟨fun some => absurd empty some, ?_, fun i slot found => ?_⟩
  · rw [unread, empty]
    rfl
  · rw [empty] at found
    cases found

/-- What a partial LBA is read into once it is entered is the buffer of the operation. -/
theorem Entered.bounceBuffer {alloc : Option Nat} {srcOff buf : Nat} {st st' : ReadState}
    (entered : Entered st alloc srcOff buf st') : st'.op.bounceBuffer = some buf ∧
      (∀ held, st.op.bounceBuffer = some held → held = buf) ∧
      st'.op.bounces = st.op.bounces ∧ st'.issued = st.issued := by
  cases entered with
  | stream own =>
      have buffer : st.op.bounceBuffer = some buf := by
        rw [FileOp.bounceBuffer, own]
      refine ⟨buffer, fun held same => ?_, rfl, rfl⟩
      rw [buffer] at same
      exact (Option.some.inj same).symm
  | host own found =>
      refine ⟨by simp [FileOp.bounceBuffer, own], fun held same => ?_, rfl, rfl⟩
      simp only [FileOp.bounceBuffer, own] at same
      rw [same] at found
      exact Option.some.inj found

/-- The queue has taken the command of a partial LBA. -/
theorem bounceRead_fills {buf : Nat} {absDst : Ptr Space} {slba srcOff nbytes : Nat}
    {st st' : ReadState} (ran : bounceRead d dev buf absDst slba srcOff nbytes st = .ok st') :
    st'.op.bounceBuffer = st.op.bounceBuffer ∧
      st'.issued = st.issued ++ [⟨.bounce, slba, 0, slotLba d buf st.op.bounces.length⟩] ∧
      st'.op.bounces = st.op.bounces ++
        [⟨absDst, (slotLba d buf st.op.bounces.length).add srcOff, nbytes⟩] := by
  obtain ⟨poked, polled⟩ := retries_eq_poke (retryBounce_eq d dev)
    (dev.retries st.issued.length) st
  have frame := poke_frame d dev poked st
  simp only [bounceRead, bounceLoop, polled] at ran
  split at ran
  · cases ran
    refine ⟨?_, ?_, ?_⟩
    · rw [describe_op]
      exact bounceBuffer_eq frame.mode frame.bounceBuf
    · rw [describe_issued]
      exact congrArg (· ++ _) frame.issued
    · rw [describe_op]
      exact congrArg (· ++ _) frame.bounces
  · cases ran

/-- **A partial LBA is read into the next slot.** -/
theorem ReadState.InSlots.read {buf buf' : Nat} {absDst : Ptr Space} {slba srcOff nbytes : Nat}
    {st st' : ReadState} (slots : st.InSlots d buf)
    (same : ∀ held, st.op.bounceBuffer = some held → held = buf')
    (buffer : st'.op.bounceBuffer = some buf')
    (log : st'.issued = st.issued ++ [⟨.bounce, slba, 0, slotLba d buf' st.op.bounces.length⟩])
    (filled : st'.op.bounces = st.op.bounces ++
      [⟨absDst, (slotLba d buf' st.op.bounces.length).add srcOff, nbytes⟩])
    (oneLba : srcOff + nbytes ≤ d.lbaSize) : st'.InSlots d buf' := by
  -- The slots filled before lie in the same buffer.
  have before : st.InSlots d buf' := by
    by_cases empty : st.op.bounces = []
    · have reads := slots.reads
      rw [empty] at reads
      exact .unfilled empty (List.map_eq_nil_iff.mp reads)
    · exact same buf (slots.own empty) ▸ slots
  refine ⟨fun _ => buffer, ?_, fun i slot found => ?_⟩
  · rw [filled, List.length_append, List.length_singleton, List.range_succ, List.map_append,
      ← before.reads, ReadState.bounceReads, log, List.filter_append, List.map_append]
    rfl
  · rw [filled] at found
    rcases Nat.lt_trichotomy i st.op.bounces.length with old | rfl | past
    · rw [List.getElem?_append_left old] at found
      exact before.copies i slot found
    · rw [List.getElem?_concat_length] at found
      cases found
      exact ⟨srcOff, rfl, oneLba⟩
    · rw [List.getElem?_eq_none (by simpa using past)] at found
      cases found

/-- **An item that goes on fills the next slot if it stages a partial LBA**, and none
otherwise. -/
theorem runItem_slots {buf : Nat} {item : Item} {st st' : ReadState}
    (ran : runItem d dev item st = .ok st')
    (planned : item.stages → item.IsHead d ∨ item.IsTail d) (slots : st.InSlots d buf) :
    ∃ buf', st'.InSlots d buf' ∧
      st'.op.bounces.length = st.op.bounces.length + if item.stages then 1 else 0 := by
  cases item with
  | chunk slba nlb dst =>
      obtain ⟨poked, polled⟩ := retries_eq_poke (retryMiddle_eq d dev)
        (dev.retries st.issued.length) st
      have frame := poke_frame d dev poked st
      simp only [runItem, submitChunk, polled] at ran
      split at ran
      · cases ran
        refine ⟨buf, slots.congr ?_ ?_ frame.bounces, congrArg List.length frame.bounces⟩
        · exact bounceBuffer_eq frame.mode frame.bounceBuf
        · rw [ReadState.bounceReads, ReadState.bounceReads]
          change List.filter _ ((poke d dev poked st).issued ++ [_]) = _
          rw [frame.issued, List.filter_append]
          exact List.append_nil _
      · cases ran
  | partialLba absDst slba srcOff nbytes =>
      simp only [runItem, submitPartial_eq] at ran
      obtain ⟨⟨buf', entered⟩, passed, ran⟩ := Submit.bind_eq_ok.mp ran
      obtain ⟨how, -, oneLba⟩ := enterPartial_ok passed
      obtain ⟨buffer, same, bounces, issued⟩ := how.bounceBuffer
      obtain ⟨kept, log, filled⟩ := bounceRead_fills ran
      rw [bounces] at log filled
      rw [issued] at log
      refine ⟨buf', slots.read same (kept.trans buffer) log filled oneLba, ?_⟩
      rw [filled, List.length_append]
      rfl
  | bounceRead buf' absDst slba srcOff nbytes =>
      rcases planned rfl with bad | bad
      · exact bad.elim
      · exact bad.elim
  | reject e => cases ran
  | spin => cases ran

/-- **The slots of a path that goes on**: one for each partial LBA of its items. -/
theorem runItems_slots {buf : Nat} {items : List Item} {st st' : ReadState}
    (ran : runItems d dev items st = .ok st')
    (planned : ∀ item ∈ items, item.stages → item.IsHead d ∨ item.IsTail d)
    (slots : st.InSlots d buf) :
    ∃ buf', st'.InSlots d buf' ∧
      st'.op.bounces.length = st.op.bounces.length + (items.filter Item.stages).length := by
  induction items generalizing buf st with
  | nil =>
      cases ran
      exact ⟨buf, slots, rfl⟩
  | cons first rest ih =>
      obtain ⟨mid, step, ran⟩ := Submit.bind_eq_ok.mp ran
      obtain ⟨buf₁, slots₁, length₁⟩ := runItem_slots step
        (planned first (List.mem_cons_self ..)) slots
      obtain ⟨buf₂, slots₂, length₂⟩ := ih ran
        (fun item later => planned item (List.mem_cons_of_mem _ later)) slots₁
      refine ⟨buf₂, slots₂, ?_⟩
      rw [length₂, length₁, List.filter_cons]
      split
      · rw [List.length_cons]
        omega
      · rfl

theorem runItems_mode {items : List Item} {st st' : ReadState}
    (ran : runItems d dev items st = .ok st') : st'.op.mode = st.op.mode := by
  induction items generalizing st with
  | nil =>
      cases ran
      rfl
  | cons first rest ih =>
      obtain ⟨mid, step, ran⟩ := Submit.bind_eq_ok.mp ran
      exact (ih ran).trans (runItem_ok step).2

/-- A path that leaves does so at one of its items. -/
theorem runItems_left {items : List Item} {st st' : ReadState}
    (left : runItems d dev items st = .out st') :
    ∃ before item after mid, items = before ++ item :: after ∧
      runItems d dev before st = .ok mid ∧ runItem d dev item mid = .out st' := by
  induction items generalizing st with
  | nil => cases left
  | cons first rest ih =>
      rcases Submit.bind_eq_out.mp left with here | ⟨mid, step, left⟩
      · exact ⟨[], first, rest, st, rfl, rfl, here⟩
      · obtain ⟨before, item, after, last, rfl, ran, out⟩ := ih left
        exact ⟨first :: before, item, after, last, rfl, Submit.bind_eq_ok.mpr ⟨mid, step, ran⟩, out⟩

/-! ## No slot is missing -/

/-- No check of `submit_bounce_read` and `submit_stream_bounce` fails for a partial LBA, and
its slot lies in the allocation: a slot is left, the bytes lie in one LBA, and a stream
operation, whose buffer holds one LBA, has filled none. -/
structure BounceFits (d : Driver) (st : ReadState) (srcOff nbytes : Nat) : Prop where
  slot : st.op.bounces.length < bounceSlots
  one_lba : srcOff + nbytes ≤ d.lbaSize
  first : st.op.mode ≠ .async → srcOff = 0 → st.op.bounces = []

/-- The number of LBAs in the bounce allocation of an operation. -/
def FileOpMode.bounceLbas : FileOpMode → Nat
  | .stream _ => 1
  | .async => bounceSlots

/-- **What a part of the plan has staged.** Before a partial LBA there is a slot for it, and
never are more slots filled than the allocation has LBAs. -/
theorem staged_before {mode : FileOpMode} {heads tails before after : List Item}
    (shape : HeadAndTail d heads tails)
    (staged : (before ++ after).filter Item.stages = heads ++ tails)
    (allowed : ∀ item ∈ before, ¬ item.Refused d mode) :
    (before.filter Item.stages).length ≤ mode.bounceLbas ∧
      ((∃ item rest, after = item :: rest ∧ item.stages) →
        (before.filter Item.stages).length < bounceSlots ∧
          (mode ≠ .async → before.filter Item.stages = [])) := by
  rw [List.filter_append] at staged
  have total := congrArg List.length staged
  rw [List.length_append, List.length_append] at total
  have oneHead := shape.one_head
  have oneTail := shape.one_tail
  -- In a stream operation the head is refused, so nothing has been staged before it.
  have stream : mode ≠ .async →
      (before.filter Item.stages).length + (after.filter Item.stages).length ≤ 1 ∨
        before.filter Item.stages = [] := by
    intro own
    cases heads with
    | nil =>
        rw [List.length_nil] at total
        exact .inl (by omega)
    | cons first others =>
        cases same : before.filter Item.stages with
        | nil => exact .inr rfl
        | cons item rest =>
            rw [same] at staged
            have member : first ∈ before := by
              have filtered : item ∈ before.filter Item.stages := by
                rw [same]
                exact List.mem_cons_self ..
              rw [← (List.cons.inj staged).1]
              exact (List.mem_filter.mp filtered).1
            have head := shape.head first (List.mem_cons_self ..)
            exact absurd (head.refused own) (allowed first member)
  refine ⟨?_, ?_⟩
  · cases mode with
    | async =>
        change _ ≤ 2
        omega
    | stream buf =>
        change _ ≤ 1
        rcases stream FileOpMode.noConfusion with few | none
        · omega
        · rw [none]
          exact Nat.zero_le _
  · rintro ⟨item, rest, rfl, stages⟩
    rw [List.filter_cons_of_pos stages, List.length_cons] at total stream
    refine ⟨?_, fun own => ?_⟩
    · change _ < 2
      omega
    · rcases stream own with few | none
      · exact List.eq_nil_of_length_eq_zero (by omega)
      · exact none

/-- With a slot left, entering a partial LBA fails with `OPENDS_INTERNAL_ERROR` for want of a
buffer only. -/
theorem enterPartial_internal {alloc : Option Nat} {srcOff nbytes : Nat} {st st' : ReadState}
    (left : enterPartial d alloc srcOff nbytes st = .out st')
    (internal : st'.op.err = some .internalError) (fits : BounceFits d st srcOff nbytes) :
    st.op.mode = .async ∧ alloc = none := by
  have passes : ∀ {buf : Nat} {st₀ : ReadState}, st₀.op.bounces = st.op.bounces →
      checkBounce d buf srcOff nbytes st₀ ≠ .out st' := by
    intro buf st₀ same failed
    have slot := fits.slot
    have oneLba := fits.one_lba
    rw [checkBounce, same, if_neg (by omega)] at failed
    cases failed
  have invalid : ∀ {st₀ : ReadState}, st₀.fail .invalidValue ≠ st' := by
    rintro st₀ rfl
    cases internal
  unfold enterPartial at left
  split at left
  · exact absurd (Submit.out.inj left) invalid
  cases own : st.op.mode with
  | stream buf =>
      simp only [own] at left
      split_ifs at left with head filled
      · exact absurd (Submit.out.inj left) invalid
      · refine absurd (fits.first ?_ (not_not.mp head)) filled
        rw [own]
        exact FileOpMode.noConfusion
      · exact absurd left (passes rfl)
  | async =>
      refine ⟨rfl, ?_⟩
      simp only [own] at left
      split at left
      · rename_i missing
        cases alloc with
        | none => rfl
        | some buf => cases held : st.op.bounceBuf <;> simp [held] at missing
      · exact absurd left (passes rfl)

/-- The plan rejects nothing with `OPENDS_INTERNAL_ERROR`. -/
theorem planExtents_reject (geo : d.Geometry) {e : OpError}
    (member : .reject e ∈ planExtents d r extents) : e = .invalidValue := by
  have body : ∀ c : ReadCursor, .reject e ∉ planBody d c := by
    intro c bad
    rw [planBody, List.mem_append] at bad
    rcases bad with middle | tail
    · split at middle
      · obtain ⟨cmds, items, -, -⟩ := planMiddle_tiles geo c
          ((c.remaining - (c.remaining &&& (d.lbaSize - 1))) >>> d.lbaShift)
        rw [items] at middle
        obtain ⟨cmd, -, same⟩ := List.mem_map.mp middle
        cases same
      · cases middle
    · split at tail
      · cases List.mem_singleton.mp tail
      · cases tail
  induction extents with
  | nil => cases member
  | cons first rest ih =>
      rw [planExtents] at member
      split at member
      · cases member
      · simp only at member
        split at member
        · exact ih member
        · rcases List.mem_append.mp member with here | later
          · rcases List.mem_append.mp here with head | other
            · rw [planHead] at head
              simp only at head
              split at head
              · split at head
                · cases List.mem_singleton.mp head
                  rfl
                · cases List.mem_singleton.mp head
              · cases head
            · exact absurd other (body _)
          · exact ih later

/-- An item that leaves with `OPENDS_INTERNAL_ERROR` has found no buffer to allocate. -/
theorem runItem_internal {item : Item} {st left : ReadState}
    (out : runItem d dev item st = .out left) (internal : left.op.err = some .internalError)
    (fits : ∀ absDst slba srcOff nbytes, item = .partialLba absDst slba srcOff nbytes →
      BounceFits d st srcOff nbytes)
    (rejects : ∀ e, item = .reject e → e = .invalidValue) :
    st.op.mode = .async ∧ dev.bufAlloc = none := by
  have device : left.op.err ≠ some .deviceDriverError := by
    rw [internal]
    decide
  cases item with
  | chunk slba nlb dst =>
      have ends := @submitChunk_ends d dev ⟨.chunk, slba, nlb, dst⟩ rfl st
      change submitChunk d dev slba nlb dst st = _ at out
      rw [out] at ends
      exact absurd ends.2.2 device
  | partialLba absDst slba srcOff nbytes =>
      simp only [runItem, submitPartial_eq] at out
      rcases Submit.bind_eq_out.mp out with refused | ⟨entered, -, failed⟩
      · exact enterPartial_internal refused internal (fits absDst slba srcOff nbytes rfl)
      · exact absurd (bounceRead_out failed) device
  | bounceRead buf absDst slba srcOff nbytes => exact absurd (bounceRead_out out) device
  | reject e =>
      cases rejects e rfl
      cases out
      cases internal
  | spin => cases out

/-- No subtraction in the body of the extent loop goes below zero, for the part
`[spanStart, spanEnd)` of the request: the head, the whole LBAs and the tail add up to it. -/
structure NoUnderflow (d : Driver) (r : Span) (e : Extent) (spanStart spanEnd : Nat) : Prop where
  off_in_ext : e.fileOffset ≤ spanStart
  buf_off : r.reqStart ≤ spanStart
  remaining : spanStart ≤ spanEnd
  head_bytes : (spanStart - e.fileOffset) &&& (d.lbaSize - 1) < d.lbaSize
  past_head : (planHead d r e spanStart spanEnd).2.remaining +
    (if (spanStart - e.fileOffset) &&& (d.lbaSize - 1) ≠ 0 then
      min (d.lbaSize - ((spanStart - e.fileOffset) &&& (d.lbaSize - 1))) (spanEnd - spanStart)
    else 0) = spanEnd - spanStart
  tail_bytes : ∀ c : ReadCursor, c.remaining &&& (d.lbaSize - 1) ≤ c.remaining
  middle : ∀ c : ReadCursor,
    ((c.remaining - (c.remaining &&& (d.lbaSize - 1))) >>> d.lbaShift) * d.lbaSize +
      (c.remaining &&& (d.lbaSize - 1)) = c.remaining

theorem noUnderflow (geo : d.Geometry) (r : Span) {e : Extent} {spanStart spanEnd : Nat}
    (offInExt : e.fileOffset ≤ spanStart) (bufOff : r.reqStart ≤ spanStart)
    (remaining : spanStart ≤ spanEnd) : NoUnderflow d r e spanStart spanEnd where
  off_in_ext := offInExt
  buf_off := bufOff
  remaining := remaining
  head_bytes := by
    rw [geo.and_mask]
    exact Nat.mod_lt _ geo.lbaSize_pos
  past_head := by
    simp only [planHead]
    split
    · have least := Nat.min_le_right
        (d.lbaSize - ((spanStart - e.fileOffset) &&& (d.lbaSize - 1))) (spanEnd - spanStart)
      split <;> exact Nat.sub_add_cancel least
    · rfl
  tail_bytes c := by
    rw [geo.and_mask]
    exact Nat.mod_le _ _
  middle c := by
    rw [geo.and_mask, geo.shiftRight]
    have parts := Nat.div_add_mod c.remaining d.lbaSize
    have whole : c.remaining - c.remaining % d.lbaSize =
        d.lbaSize * (c.remaining / d.lbaSize) := by omega
    rw [whole, Nat.mul_div_cancel_left _ geo.lbaSize_pos, Nat.mul_comm]
    exact parts

/-- The bounce slots of an operation suffice for a request. -/
structure SlotsSuffice (d : Driver) (dev : Device) (r : Span) (extents : List Extent)
    (st : ReadState) : Prop where
  /-- The extent loop is its items, run in order. -/
  loop : submitExtents d dev r extents st = runItems d dev (planExtents d r extents) st
  /-- At most one head is staged, and at most one tail after it. -/
  partials : ∃ heads tails,
    (planExtents d r extents).filter Item.stages = heads ++ tails ∧ HeadAndTail d heads tails
  /-- Whenever `submit_partial` is called there is room. -/
  fits : ∀ before absDst slba srcOff nbytes after mid,
    planExtents d r extents = before ++ .partialLba absDst slba srcOff nbytes :: after →
    runItems d dev before st = .ok mid → BounceFits d mid srcOff nbytes
  /-- Each filled slot is an LBA of its own in the allocation. -/
  slots : ∀ before after mid, planExtents d r extents = before ++ after →
    runItems d dev before st = .ok mid →
    mid.op.bounces.length ≤ st.op.mode.bounceLbas ∧ ∃ buf, mid.InSlots d buf
  /-- A stream operation stages a tail only. -/
  tail_only : ∀ before after mid, planExtents d r extents = before ++ after →
    runItems d dev before st = .ok mid → st.op.mode ≠ .async →
    ∀ item ∈ before, item.stages → item.IsTail d
  /-- `OPENDS_INTERNAL_ERROR` means that there was no buffer to allocate. -/
  internal : ∀ left, submitExtents d dev r extents st = .out left →
    left.op.err = some .internalError → st.op.mode = .async ∧ dev.bufAlloc = none

/-- **The bounce slots suffice**, for every layout, request and mode and whatever the device
answers: a read stages at most one leading and one trailing partial LBA, no check for a free
slot fails, every slot lies in its own part of the allocation, and no subtraction of the
extent loop goes below zero. -/
theorem bounces_suffice (geo : d.Geometry) (lay : Layout d extents) (dev : Device) (r : Span)
    {st : ReadState} (empty : st.op.bounces = []) (unread : st.bounceReads = []) :
    SlotsSuffice d dev r extents st ∧
      ∀ e ∈ extents, max r.reqStart e.fileOffset < min r.reqEnd e.fileEnd →
        NoUnderflow d r e (max r.reqStart e.fileOffset) (min r.reqEnd e.fileEnd) := by
  obtain ⟨heads, tails, staged, shape, -⟩ := planExtents_staged (r := r) geo lay
  have planned : ∀ item ∈ planExtents d r extents, item.stages → item.IsHead d ∨ item.IsTail d := by
    intro item member stages
    have filtered := List.mem_filter.mpr ⟨member, stages⟩
    rw [staged] at filtered
    exact (List.mem_append.mp filtered).imp (shape.head item) (shape.tail item)
  have start : st.InSlots d 0 := .unfilled empty unread
  -- What a part of the plan has filled.
  have filled : ∀ {before after : List Item} {mid : ReadState},
      planExtents d r extents = before ++ after → runItems d dev before st = .ok mid →
      mid.op.mode = st.op.mode ∧ (∃ buf, mid.InSlots d buf) ∧
        mid.op.bounces.length = (before.filter Item.stages).length ∧
        (before.filter Item.stages).length ≤ st.op.mode.bounceLbas ∧
        ((∃ item rest, after = item :: rest ∧ item.stages) →
          (before.filter Item.stages).length < bounceSlots ∧
            (st.op.mode ≠ .async → before.filter Item.stages = [])) := by
    intro before after mid plan ran
    obtain ⟨buf, slots, length⟩ := runItems_slots ran
      (fun item member => planned item (plan ▸ List.mem_append_left _ member)) start
    rw [empty, List.length_nil, Nat.zero_add] at length
    exact ⟨runItems_mode ran, ⟨buf, slots⟩, length,
      staged_before shape (plan ▸ staged) (runItems_ok ran)⟩
  have fits : ∀ before absDst slba srcOff nbytes after mid,
      planExtents d r extents = before ++ .partialLba absDst slba srcOff nbytes :: after →
      runItems d dev before st = .ok mid → BounceFits d mid srcOff nbytes := by
    intro before absDst slba srcOff nbytes after mid plan ran
    obtain ⟨mode, -, length, -, room⟩ := filled plan ran
    obtain ⟨slot, first⟩ := room ⟨_, _, rfl, rfl⟩
    refine ⟨length ▸ slot, ?_, fun own _ => ?_⟩
    · rcases planned (.partialLba absDst slba srcOff nbytes)
        (plan ▸ List.mem_append_right _ (List.mem_cons_self ..)) rfl with head | tail
      · exact head.2.2
      · have offset := tail.1
        have bytes := tail.2.2
        omega
    · rw [first (mode ▸ own)] at length
      exact List.eq_nil_of_length_eq_zero length
  refine ⟨⟨submitExtents_eq d dev r extents st, ⟨heads, tails, staged, shape⟩, fits, ?_, ?_, ?_⟩, ?_⟩
  · intro before after mid plan ran
    obtain ⟨-, slots, length, most, -⟩ := filled plan ran
    exact ⟨length ▸ most, slots⟩
  · intro before after mid plan ran own item member stages
    refine (planned item (plan ▸ List.mem_append_left _ member) stages).resolve_left fun head => ?_
    exact runItems_ok ran item member (head.refused own)
  · intro left out internal
    rw [submitExtents_eq] at out
    obtain ⟨before, item, after, mid, plan, ran, here⟩ := runItems_left out
    rw [← (filled plan ran).1]
    refine runItem_internal here internal (fun absDst slba srcOff nbytes same => ?_) fun e same => ?_
    · exact fits before absDst slba srcOff nbytes after mid (same ▸ plan) ran
    · subst same
      have member : .reject e ∈ planExtents d r extents := by
        rw [plan]
        exact List.mem_append_right _ (List.mem_cons_self ..)
      exact planExtents_reject geo member
  · exact fun e _ meets => noUnderflow geo r (Nat.le_max_right _ _) (Nat.le_max_left _ _)
      (Nat.le_of_lt meets)

/-- A read over two extents that fills both slots: its head in the first LBA of the file, its
tail in the last one. -/
theorem bounces_suffice_both :
    SlotsSuffice sectorDriver (.serving sectorDisk []) ⟨100, 1200, ⟨.user, 0⟩⟩
        [⟨0, 8, 1024⟩, ⟨1024, 32, 300⟩] (submittedRead 100 1100) ∧
      (submitExtents sectorDriver (.serving sectorDisk []) ⟨100, 1200, ⟨.user, 0⟩⟩
        [⟨0, 8, 1024⟩, ⟨1024, 32, 300⟩] (submittedRead 100 1100)).finalState.map
          (·.op.bounces.length) = some 2 :=
  ⟨(bounces_suffice sectorDriver_geometry ⟨by decide, by decide⟩ _ _ rfl rfl).1, by decide⟩

end OpenDS.Aisio
