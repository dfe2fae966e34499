import OpenDS.Aisio.ReadRun

/-!
# Alignment of the direct reads

A whole-LBA command goes straight to the caller's buffer, so its destination must
lie on a 4-byte boundary. The distance of that destination from the base is the
distance of an LBA boundary from the start of the request: either all direct
commands of a request are aligned or none is (`Origin.aligned_iff`).

`start_read_op` looks for the misalignment where the request starts mid-LBA in an
extent, among the bytes of that extent only. A request that has its whole LBAs in
a later extent passes (`alignmentKept_iff`).
-/

set_option autoImplicit false

namespace OpenDS.Aisio

open OpenDS.Library ReadState

variable {d : Driver} {dev : Device} {extents : List Extent} {r : Span}

/-- The part of the request in the extent holds a whole LBA. -/
def Span.WholeLba (d : Driver) (r : Span) (e : Extent) : Prop :=
  ∃ q, d.lbaSize ∣ q ∧ max r.reqStart e.fileOffset ≤ q ∧ q + d.lbaSize ≤ min r.reqEnd e.fileEnd

/-- A whole-LBA command reads whole LBAs of an extent. -/
theorem Origin.wholeLba {c : Command} (origin : Origin d extents r c) (chunk : c.callback = .chunk) :
    ∃ e ∈ extents, r.WholeLba d e := by
  obtain ⟨e, member, q, low, high, start, stop, -, shape⟩ := origin
  simp only [chunk, commandBytes, Nat.add_mul, Nat.one_mul] at shape
  obtain ⟨aligned, within, -⟩ := shape
  exact ⟨e, member, q, aligned, by omega, by omega⟩

/-- **All direct commands of a request are as aligned as its start.** -/
theorem Origin.aligned_iff {c : Command} (origin : Origin d extents r c)
    (chunk : c.callback = .chunk) (four : 4 ∣ d.lbaSize) (base : (4 : Int) ∣ r.dstBase.addr) :
    (4 : Int) ∣ c.dst.addr ↔ 4 ∣ r.reqStart := by
  obtain ⟨e, member, q, low, high, start, stop, -, shape⟩ := origin
  simp only [chunk] at shape
  obtain ⟨aligned, -, dst⟩ := shape
  have boundary : 4 ∣ q := Nat.dvd_trans four aligned
  rw [dst, Ptr.add_addr]
  omega

/-! ## Runs of a read, whatever the device answers -/

/-- After the dispatch no command is added to the log. -/
theorem ioThread_issued (polls : List (List Nat)) {st st' : ReadState}
    (dispatched : st.op.state ≠ .pending) (ran : ioThread d dev polls st = some st') :
    st'.issued = st.issued := by
  induction polls generalizing st with
  | nil =>
      cases ran
      rfl
  | cons poked rest ih =>
      obtain ⟨mid, passed, later⟩ := Option.bind_eq_some_iff.mp ran
      have kept : mid.issued = st.issued ∧ mid.op.state ≠ .pending := by
        cases state : st.op.state with
        | pending => exact absurd state dispatched
        | free =>
            simp only [ioPass, state, Option.map_some, Option.some.injEq] at passed
            subst passed
            exact ⟨(poke_frame d dev poked st).issued,
              by rw [(poke_frame d dev poked st).state, state]; decide⟩
        | inFlight =>
            simp only [ioPass, state, Option.map_some, Option.some.injEq, reapInFlight] at passed
            subst passed
            rw [(poke_frame d dev poked _).issued, (poke_frame d dev poked _).state]
            split
            · exact ⟨completeReadOp_issued dev st, by rw [(completeReadOp_state dev st).1]; decide⟩
            · exact ⟨rfl, by rw [state]; decide⟩
      rw [ih kept.2 later, kept.1]

/-- Every command of a read has an origin in its extents, whatever the device
answers. -/
theorem ioThread_origin (geo : d.Geometry) (resolved : resolveExtents dev = .ok extents)
    (lay : Layout d extents) {st : ReadState} (fresh : Submitted st)
    (noWrap : u64 st.op.fileOffset + st.op.size < 2 ^ 64) {polls : List (List Nat)}
    {st' : ReadState} (ran : ioThread d dev polls st = some st') :
    ∀ c ∈ st'.issued, Origin d extents st.op.span c := by
  obtain ⟨st₁, dispatch, inFlight, extended, -⟩ := dispatch_reads geo resolved lay fresh noWrap
  cases polls with
  | nil =>
      cases ran
      rw [fresh.issued]
      simp
  | cons poked rest =>
      simp only [ioThread, ioPass, fresh.pending, dispatch, Option.map_some,
        Option.bind_some] at ran
      have issued := ioThread_issued rest
        (by rw [(poke_frame d dev poked st₁).state, inFlight]; decide) ran
      intro c member
      rw [issued, (poke_frame d dev poked st₁).issued] at member
      refine (extended.origin c member).resolve_left ?_
      rw [show (dispatched st).issued = [] from fresh.issued]
      exact List.not_mem_nil

/-- A read that is rejected before its first command issues none, and completes
with the rejection on the second pass. -/
theorem ioThread_rejected {st : ReadState} (fresh : Submitted st)
    (rejected : startReadOp d dev (dispatched st) = .out ((dispatched st).fail .invalidValue)) :
    (∀ polls st', ioThread d dev polls st = some st' → st'.issued = []) ∧
      ∀ polls : List (List Nat), 2 ≤ polls.length → ∃ st', ioThread d dev polls st = some st' ∧
        st'.op.result = some (-OpError.invalidValue.code) := by
  have dispatch : dispatchPending d dev st = some ((dispatched st).fail .invalidValue) := by
    rw [dispatchPending_eq, rejected]
    rfl
  have idle : ((dispatched st).fail .invalidValue).inflight = [] := fresh.inflight
  have first : ∀ poked, ioPass d dev st poked = some ((dispatched st).fail .invalidValue) := by
    intro poked
    simp only [ioPass, fresh.pending, dispatch, Option.map_some, poke_nil idle]
  refine ⟨fun polls st' ran => ?_, fun polls two => ?_⟩
  · cases polls with
    | nil =>
        cases ran
        exact fresh.issued
    | cons poked rest =>
        simp only [ioThread, first, Option.bind_some] at ran
        rw [ioThread_issued rest (by simp [ReadState.fail, dispatched]) ran]
        exact fresh.issued
  · obtain ⟨poked, others, rfl⟩ := List.exists_cons_of_length_pos (Nat.lt_of_succ_lt two)
    obtain ⟨poked', rest, rfl⟩ :=
      List.exists_cons_of_length_pos (l := others) (Nat.lt_of_succ_lt_succ two)
    have completed := completeReadOp_inflight dev ((dispatched st).fail .invalidValue)
    have state := completeReadOp_state dev ((dispatched st).fail .invalidValue)
    have result : (completeReadOp dev ((dispatched st).fail .invalidValue)).op.result =
        some (-OpError.invalidValue.code) := completeReadOp_failed dev rfl
    rw [idle] at completed
    generalize reaped : completeReadOp dev ((dispatched st).fail .invalidValue) = done at *
    have second : ioPass d dev ((dispatched st).fail .invalidValue) poked' = some done := by
      change some (ReadState.poke d dev poked' (reapInFlight dev _)) = _
      rw [reapInFlight, if_pos ⟨rfl, rfl⟩, reaped, poke_nil completed]
    -- A completed operation is left alone.
    have settled : ∀ rest : List (List Nat), ioThread d dev rest done = some done := by
      intro rest
      induction rest with
      | nil => rfl
      | cons poked rest ih =>
          simp only [ioThread, ioPass, state.1, Option.map_some, poke_nil completed,
            Option.bind_some, ih]
    refine ⟨done, ?_, result⟩
    simp only [ioThread, first, second, Option.bind_some, settled]

/-! ## The check that catches a misaligned request -/

theorem and_dword_mask (x : Nat) : x &&& (nvmePrpOffsetAlign - 1) = x % 4 :=
  Nat.and_two_pow_sub_one_eq_mod x 2

/-- The start of a request inside an LBA is an offset from the boundary below. -/
theorem headOffset_spec (geo : d.Geometry) (lay : Layout d extents) {e : Extent}
    (member : e ∈ extents) {s : Nat} (low : e.fileOffset ≤ s) :
    ∃ below, d.lbaSize ∣ below ∧ s = below + headOffset d e s ∧ headOffset d e s < d.lbaSize := by
  obtain ⟨k, offset⟩ := lay.aligned e member
  have parts := Nat.div_add_mod (s - e.fileOffset) d.lbaSize
  refine ⟨d.lbaSize * (k + (s - e.fileOffset) / d.lbaSize), Nat.dvd_mul_right _ _, ?_,
    Nat.mod_lt _ geo.lbaSize_pos⟩
  rw [Nat.mul_add, headOffset]
  omega

/-- The first boundary after a position inside an LBA lies at or below every later one. -/
theorem boundary_le (geo : d.Geometry) (offset : Nat) {below q : Nat} (aligned : d.lbaSize ∣ below)
    (inside : 0 < offset) (boundary : d.lbaSize ∣ q) (after : below + offset ≤ q) :
    below + d.lbaSize ≤ q := by
  obtain ⟨j, rfl⟩ := aligned
  obtain ⟨k, rfl⟩ := boundary
  have lbaPos := geo.lbaSize_pos
  have later : j < k := Nat.lt_of_mul_lt_mul_left (a := d.lbaSize) (by omega)
  have scaled := Nat.mul_le_mul_left d.lbaSize later
  rw [Nat.mul_succ] at scaled
  exact scaled

/-- The head of a request that is misaligned for the whole LBAs of its own
extent is rejected, as is any head when reads are assumed aligned. -/
theorem submitHead_rejects (dev : Device) (geo : d.Geometry) (four : 4 ∣ d.lbaSize) (lay : Layout d extents)
    {e : Extent} (member : e ∈ extents) (low : e.fileOffset ≤ r.reqStart)
    (misaligned : ¬ 4 ∣ r.reqStart) (caught : d.assumeAlignedOnly = true ∨ r.WholeLba d e)
    (st : ReadState) :
    submitHead d dev r e r.reqStart (min r.reqEnd e.fileEnd) st =
      .out (st.fail .invalidValue) := by
  obtain ⟨below, aligned, start, inLba⟩ := headOffset_spec geo lay member low
  have boundary : 4 ∣ below := Nat.dvd_trans four aligned
  have head : headOffset d e r.reqStart ≠ 0 := by
    intro zero
    rw [zero] at start
    omega
  have offset : (r.reqStart - e.fileOffset) % d.lbaSize = headOffset d e r.reqStart := rfl
  simp only [submitHead, geo.and_mask, geo.shiftRight, and_dword_mask, offset, ne_eq, head,
    not_false_eq_true, if_true]
  split
  · rfl
  · rename_i passes
    rcases caught with all | ⟨q, whole, after, within⟩
    · simp only [submitPartial, all, if_true, Submit.out_bind]
    · -- A whole LBA past the head means that the head ends at the next boundary.
      have next := boundary_le geo (headOffset d e r.reqStart) aligned (by omega) whole
        (by omega)
      refine absurd ⟨by omega, ?_⟩ passes
      · rw [Nat.min_eq_left (a := d.lbaSize - headOffset d e r.reqStart) (by omega)]
        omega

/-- The extent loop reaches the extent the request starts in, and is rejected
there. -/
theorem submitExtents_rejects (geo : d.Geometry) (four : 4 ∣ d.lbaSize) {e : Extent}
    (low : e.fileOffset ≤ r.reqStart) (high : r.reqStart < e.fileEnd)
    (nonempty : r.reqStart < r.reqEnd) (misaligned : ¬ 4 ∣ r.reqStart)
    (caught : d.assumeAlignedOnly = true ∨ r.WholeLba d e) (walked : List Extent)
    (lay : Layout d walked) (member : e ∈ walked) (st : ReadState) :
    submitExtents d dev r walked st = .out (st.fail .invalidValue) := by
  induction walked with
  | nil => cases member
  | cons first rest ih =>
      rcases List.mem_cons.mp member with rfl | later
      · have rejected := submitHead_rejects dev geo four lay member low misaligned caught st
        rw [submitExtents, if_neg (by omega)]
        simp only [Nat.max_eq_left low]
        rw [if_neg (by omega), submitSpan, rejected]
        rfl
      · have before := lay.after e later
        have length : first.fileOffset ≤ first.fileEnd := Nat.le_add_right _ _
        rw [submitExtents, if_neg (by omega)]
        simp only
        rw [if_pos (by omega), ih lay.tail later]

/-! ## Requests that pass the check -/

/-- The log of the later state keeps every command. -/
def Grows (st st' : ReadState) : Prop := st.issued ⊆ st'.issued

/-- A whole-LBA command was taken. -/
def ReadState.HasDirect (st : ReadState) : Prop := ∃ c ∈ st.issued, c.callback = .chunk

theorem Grows.hasDirect {st st' : ReadState} (grows : Grows st st') (direct : st.HasDirect) :
    st'.HasDirect :=
  direct.imp fun _ taken => ⟨grows taken.1, taken.2⟩

theorem Grows.trans {st st' st'' : ReadState} (first : Grows st st') (second : Grows st' st'') :
    Grows st st'' :=
  fun _ member => second (first member)

theorem Grows.of_issued {st st' : ReadState} (same : st'.issued = st.issued) : Grows st st' :=
  fun _ member => same ▸ member

theorem Grows.poke_take (d : Driver) (dev : Device) {st : ReadState} (poked : List Nat) (c : Command) :
    Grows st (take c (addChunks 1 (ReadState.poke d dev poked st))) := by
  intro c' member
  refine List.mem_append_left _ ?_
  change c' ∈ (ReadState.poke d dev poked st).issued
  rwa [(poke_frame d dev poked st).issued]

/-- The chunk loop takes a command where there is a whole LBA left, and a good
device makes it reach its end. -/
theorem submitReadMiddleLoop_grows (geo : d.Geometry) (c : ReadCursor) (middleLbas : Nat) :
    ∀ (fuel lbasDone : Nat) (st : ReadState), middleLbas - lbasDone ≤ fuel →
      (submitReadMiddleLoop d dev c middleLbas fuel lbasDone st).Ends
        (fun st' => Grows st st' ∧ (lbasDone < middleLbas → st'.HasDirect))
        (fun st' => Grows st st' ∧ ¬ dev.Good) := by
  intro fuel
  induction fuel with
  | zero =>
      intro lbasDone st enough
      have done : ¬ lbasDone < middleLbas := by omega
      simp only [submitReadMiddleLoop, if_neg done, Submit.ends_ok]
      exact ⟨.of_issued rfl, fun more => absurd more done⟩
  | succ fuel ih =>
      intro lbasDone st enough
      by_cases more : lbasDone < middleLbas
      case neg =>
        simp only [submitReadMiddleLoop, if_neg more, Submit.ends_ok]
        exact ⟨.of_issued rfl, fun less => absurd less more⟩
      simp only [submitReadMiddleLoop, if_pos more]
      obtain ⟨poked, polled⟩ := retries_eq_poke (retryMiddle_eq d dev)
        (dev.retries st.issued.length) st
      rw [polled]
      cases takes : dev.takes st.issued.length with
      | false =>
          simp only [Bool.false_eq_true, if_false, Submit.ends_out]
          refine ⟨.of_issued (poke_frame d dev poked st).issued, fun good => ?_⟩
          rw [good.takes] at takes
          cases takes
      | true =>
          simp only [if_true]
          have chunkPos := geo.chunk_pos
          have some : 0 < min (min (middleLbas - lbasDone) (d.mdtsNbytes >>> d.lbaShift))
              nvmeMaxNlb := by
            simp only [nvmeMaxNlb]
            omega
          refine (ih _ _ (by omega)).mono (fun st' ends => ?_) fun st' stops => ?_
          · exact ⟨(Grows.poke_take d dev poked _).trans ends.1, fun _ => ends.1.hasDirect
              ⟨_, List.mem_append_right _ (List.mem_singleton.mpr rfl), rfl⟩⟩
          · exact ⟨(Grows.poke_take d dev poked _).trans stops.1, stops.2⟩

theorem submitBounceRead_grows (buf : Nat) (absDst : Ptr Space) (slba srcOff nbytes : Nat)
    (st : ReadState) :
    (submitBounceRead d dev buf absDst slba srcOff nbytes st).Ends (Grows st)
      (fun st' => Grows st st' ∧ (dev.Good → st.op.bounces.length < bounceSlots →
        ¬ srcOff + nbytes ≤ d.lbaSize)) := by
  unfold submitBounceRead
  split
  · rename_i full
    exact ⟨.of_issued rfl, fun _ room fits => by omega⟩
  · obtain ⟨poked, polled⟩ := retries_eq_poke (retryBounce_eq d dev)
      (dev.retries st.issued.length) st
    simp only [polled]
    cases takes : dev.takes st.issued.length with
    | false =>
        simp only [Bool.false_eq_true, if_false, Submit.ends_out]
        refine ⟨.of_issued (poke_frame d dev poked st).issued, fun good => ?_⟩
        rw [good.takes] at takes
        cases takes
    | true =>
        simp only [if_true, Submit.ends_ok]
        exact Grows.poke_take d dev poked _

/-- A partial LBA of an asynchronous read is staged by a good device while a
slot is left, unless reads are assumed aligned. -/
theorem submitPartial_grows (dev : Device) (absDst : Ptr Space) (slba srcOff nbytes : Nat) (st : ReadState) :
    (submitPartial d dev absDst slba srcOff nbytes st).Ends (Grows st)
      (fun st' => Grows st st' ∧ (dev.Good → st.op.mode = .async → d.assumeAlignedOnly = false →
        st.op.bounces.length < bounceSlots → ¬ srcOff + nbytes ≤ d.lbaSize)) := by
  unfold submitPartial
  cases aligned : d.assumeAlignedOnly with
  | true => exact ⟨.of_issued rfl, fun _ _ off => by cases off⟩
  | false =>
      simp only [Bool.false_eq_true, if_false]
      cases mode : st.op.mode with
      | stream buf =>
          simp only [ne_eq]
          split
          · exact ⟨.of_issued rfl, fun _ async => by cases async⟩
          · unfold submitStreamBounce
            split
            · exact ⟨.of_issued rfl, fun _ async => by cases async⟩
            · refine ((submitBounceRead_grows _ _ _ _ _ st).mono (fun _ grows => grows)
                fun _ stops => ⟨stops.1, fun _ async => by cases async⟩).bind fun st' grows => ?_
              exact grows
      | async =>
          simp only [submitHostBounce]
          cases buffer : (st.op.bounceBuf <|> dev.bufAlloc) with
          | none =>
              refine ⟨.of_issued rfl, fun good => ?_⟩
              have allocated := good.bufAlloc
              cases held : st.op.bounceBuf <;> simp [held] at buffer
              rw [buffer] at allocated
              cases allocated
          | some buf =>
              exact (submitBounceRead_grows buf absDst slba srcOff nbytes
                { st with op := { st.op with bounceBuf := some buf } }).mono (fun _ grows => grows)
                fun _ stops => ⟨stops.1, fun good _ _ => stops.2 good⟩

/-- The body of an extent takes a direct command for its whole LBAs. -/
theorem submitBody_grows (dev : Device) (geo : d.Geometry) (c : ReadCursor) (st : ReadState) :
    (submitBody d dev c st).Ends
      (fun st' => Grows st st' ∧ (d.lbaSize ≤ c.remaining → st'.HasDirect))
      (fun st' => Grows st st' ∧ (dev.Good → d.lbaSize ≤ c.remaining → st'.HasDirect)) := by
  have lbaPos := geo.lbaSize_pos
  have parts := Nat.mod_add_div c.remaining d.lbaSize
  have middleLbas : (c.remaining - c.remaining % d.lbaSize) / d.lbaSize =
      c.remaining / d.lbaSize := by
    rw [show c.remaining - c.remaining % d.lbaSize = d.lbaSize * (c.remaining / d.lbaSize) by omega,
      Nat.mul_div_cancel_left _ lbaPos]
  simp only [submitBody, geo.and_mask, geo.shiftRight, middleLbas]
  have middle : (if c.remaining / d.lbaSize ≠ 0 then
        submitReadMiddle d dev c (c.remaining / d.lbaSize) st
      else return (c, st) : Submit (ReadCursor × ReadState)).Ends
      (fun out => Grows st out.2 ∧ (d.lbaSize ≤ c.remaining → out.2.HasDirect))
      (fun st' => Grows st st' ∧ (dev.Good → d.lbaSize ≤ c.remaining → st'.HasDirect)) := by
    split
    · rename_i some
      refine ((submitReadMiddleLoop_grows geo c _ _ 0 st (Nat.sub_le _ _)).mono (fun _ ends => ends)
        fun st' stops => ⟨stops.1, fun good => absurd good stops.2⟩).bind fun st' ends => ?_
      exact ⟨ends.1, fun _ => ends.2 (Nat.pos_of_ne_zero some)⟩
    · rename_i none
      exact ⟨.of_issued rfl, fun whole => absurd (Nat.div_pos whole lbaPos).ne' none⟩
  refine middle.bind fun out ends => ?_
  obtain ⟨c', st'⟩ := out
  obtain ⟨grows, direct⟩ := ends
  simp only
  split
  · refine (submitPartial_grows dev _ _ _ _ _).mono (fun st'' later => ?_) fun st'' stops => ?_
    · exact ⟨grows.trans later, fun whole => later.hasDirect (direct whole)⟩
    · exact ⟨grows.trans stops.1, fun _ whole => stops.1.hasDirect (direct whole)⟩
  · exact ⟨grows, direct⟩

/-- The head of an extent keeps the log. -/
theorem submitHead_grows (e : Extent) (spanStart spanEnd : Nat) (st : ReadState) :
    (submitHead d dev r e spanStart spanEnd st).Ends (fun out => Grows st out.2)
      (Grows st) := by
  simp only [submitHead]
  split
  · split
    · exact .of_issued rfl
    · exact ((submitPartial_grows dev _ _ _ _ st).mono (fun _ grows => grows)
        fun _ stops => stops.1).bind fun _ grows => grows
  · exact .of_issued rfl

theorem submitSpan_grows (geo : d.Geometry) (e : Extent) (spanStart spanEnd : Nat)
    (st : ReadState) : (submitSpan d dev r e spanStart spanEnd st).Ends (Grows st) (Grows st) :=
  (submitHead_grows e spanStart spanEnd st).bind fun out grows =>
    (submitBody_grows dev geo out.1 out.2).mono (fun _ ends => grows.trans ends.1)
      fun _ stops => grows.trans stops.1

theorem submitExtents_grows (geo : d.Geometry) (walked : List Extent) (st : ReadState) :
    (submitExtents d dev r walked st).Ends (Grows st) (Grows st) := by
  induction walked generalizing st with
  | nil => exact .of_issued rfl
  | cons e rest ih =>
      simp only [submitExtents]
      split
      · exact .of_issued rfl
      · split
        · exact ih st
        · exact (submitSpan_grows geo e _ _ st).bind fun st' grows =>
            (ih st').mono (fun _ later => grows.trans later) fun _ later => grows.trans later

/-- A part that starts at an LBA boundary of its extent has no head. -/
theorem submitHead_aligned (dev : Device) (r : Span) (geo : d.Geometry) (e : Extent)
    {spanStart : Nat} (spanEnd : Nat) (aligned : headOffset d e spanStart = 0) (st : ReadState) :
    ∃ c, submitHead d dev r e spanStart spanEnd st = .ok (c, st) ∧
      c.remaining = spanEnd - spanStart := by
  have offset : (spanStart - e.fileOffset) % d.lbaSize = 0 := aligned
  simp only [submitHead, geo.and_mask, offset, ne_eq, not_true_eq_false, if_false]
  exact ⟨_, rfl, rfl⟩

/-- **Extents past the start of the request are read directly**, whatever the
alignment of the request. -/
theorem submitExtents_direct (geo : d.Geometry) (good : dev.Good) (walked : List Extent) :
    Layout d walked → (∀ e ∈ walked, r.reqStart ≤ e.fileOffset) →
      (∃ e ∈ walked, r.WholeLba d e) → ∀ st,
        (submitExtents d dev r walked st).Ends ReadState.HasDirect ReadState.HasDirect := by
  induction walked with
  | nil =>
      rintro - - ⟨e, member, -⟩
      cases member
  | cons e rest ih =>
      intro lay after whole st
      have start := after e (List.mem_cons_self ..)
      have later := ih lay.tail fun e' member => after e' (List.mem_cons_of_mem _ member)
      have lbaPos := geo.lbaSize_pos
      obtain ⟨e', member, q, aligned, low, high⟩ := whole
      have reached : e.fileOffset < r.reqEnd := by
        rcases List.mem_cons.mp member with rfl | member
        · omega
        · have before := lay.after e' member
          have length : e.fileOffset ≤ e.fileEnd := Nat.le_add_right _ _
          omega
      simp only [submitExtents]
      rw [if_neg (by omega), Nat.max_eq_right start]
      by_cases empty : min r.reqEnd e.fileEnd ≤ e.fileOffset
      · rw [if_pos empty]
        rcases List.mem_cons.mp member with rfl | member
        · omega
        · exact later ⟨e', member, q, aligned, low, high⟩ st
      rw [if_neg empty]
      obtain ⟨c, head, remaining⟩ := submitHead_aligned dev r geo e (min r.reqEnd e.fileEnd)
        (show headOffset d e e.fileOffset = 0 by rw [headOffset, Nat.sub_self, Nat.zero_mod]) st
      rw [submitSpan, head, Submit.ok_bind]
      have body := submitBody_grows dev geo c st
      by_cases holds : d.lbaSize ≤ c.remaining
      · refine (body.mono (fun st' ends => ends.2 holds)
          fun st' stops => stops.2 good holds).bind fun st' direct => ?_
        exact (submitExtents_grows geo rest st').mono (fun _ grows => grows.hasDirect direct)
          fun _ grows => grows.hasDirect direct
      · -- The extent is shorter than an LBA, so it is the last one.
        exfalso
        rcases List.mem_cons.mp member with rfl | member
        · omega
        · obtain ⟨before, k, length⟩ := List.rel_of_pairwise_cons lay.ordered member
          have ends : e.fileEnd = e.fileOffset + e.length := rfl
          cases k with
          | zero => omega
          | succ k =>
              rw [Nat.mul_succ] at length
              omega

/-- **A request that meets no whole LBA in the extent it starts in passes the
check**, and reads the whole LBAs of later extents directly. -/
theorem submitExtents_passes (geo : d.Geometry) (good : dev.Good) (walked : List Extent) :
    Layout d walked →
      (∀ e ∈ walked, e.fileOffset ≤ r.reqStart → r.reqStart < e.fileEnd →
        d.assumeAlignedOnly = false ∧ ¬ r.WholeLba d e) →
      (∃ e ∈ walked, r.WholeLba d e) → ∀ st, st.op.mode = .async → st.op.bounces = [] →
        (submitExtents d dev r walked st).Ends ReadState.HasDirect ReadState.HasDirect := by
  induction walked with
  | nil =>
      rintro - - ⟨e, member, -⟩
      cases member
  | cons e rest ih =>
      intro lay uncaught whole st async unstaged
      have first := List.mem_cons_self (a := e) (l := rest)
      have length : e.fileOffset ≤ e.fileEnd := Nat.le_add_right _ _
      by_cases after : r.reqStart ≤ e.fileOffset
      · refine submitExtents_direct geo good _ lay (fun e' member => ?_) whole st
        rcases List.mem_cons.mp member with rfl | member
        · exact after
        · have before := lay.after e' member
          omega
      obtain ⟨e', member, q, aligned, low, high⟩ := whole
      have lbaPos := geo.lbaSize_pos
      by_cases beyond : e.fileEnd ≤ r.reqStart
      · rw [submitExtents, if_neg (by omega)]
        simp only
        rw [if_pos (by omega)]
        refine ih lay.tail (fun e' member => uncaught e' (List.mem_cons_of_mem _ member)) ?_ st async
          unstaged
        rcases List.mem_cons.mp member with rfl | member
        · omega
        · exact ⟨e', member, q, aligned, low, high⟩
      -- The request starts inside this extent, which holds no whole LBA of it.
      obtain ⟨notAssumed, none⟩ := uncaught e first (by omega) (by omega)
      have member : e' ∈ rest := by
        rcases List.mem_cons.mp member with rfl | member
        · exact absurd ⟨q, aligned, low, high⟩ none
        · exact member
      obtain ⟨before, lbas⟩ := List.rel_of_pairwise_cons lay.ordered member
      have wholeEnd : d.lbaSize ∣ e.fileEnd := Nat.dvd_add (lay.aligned e first) lbas
      obtain ⟨below, boundary, start, inLba⟩ :=
        headOffset_spec geo lay first (s := r.reqStart) (by omega)
      have ends : min r.reqEnd e.fileEnd = e.fileEnd := by omega
      have reaches := boundary_le geo 1 boundary (by omega) wholeEnd (by omega)
      have head : headOffset d e r.reqStart ≠ 0 := by
        intro zero
        exact none ⟨below, boundary, by omega, by omega⟩
      have exact : e.fileEnd = below + d.lbaSize := by
        by_contra more
        have next : d.lbaSize ∣ below + d.lbaSize := Nat.dvd_add boundary (Nat.dvd_refl _)
        have room := boundary_le geo 1 next (by omega) wholeEnd (by omega)
        exact none ⟨below + d.lbaSize, next, by omega, by omega⟩
      have offset : (r.reqStart - e.fileOffset) % d.lbaSize = headOffset d e r.reqStart := rfl
      rw [submitExtents, if_neg (by omega)]
      simp only [Nat.max_eq_left (Nat.le_of_lt (Nat.lt_of_not_le after)), ends]
      rw [if_neg beyond]
      simp only [submitSpan, submitHead, geo.and_mask, geo.shiftRight, offset, ne_eq, head,
        not_false_eq_true, if_true]
      have headBytes : min (d.lbaSize - headOffset d e r.reqStart) (e.fileEnd - r.reqStart) =
          e.fileEnd - r.reqStart := by omega
      rw [headBytes, Nat.sub_self, if_neg (by omega)]
      have later : ∀ st', (submitExtents d dev r rest st').Ends ReadState.HasDirect
          ReadState.HasDirect :=
        submitExtents_direct geo good rest lay.tail
          (fun e'' later => by have := lay.after e'' later; omega)
          ⟨e', member, q, aligned, low, high⟩
      -- The head is staged, and nothing is left of the part in this extent.
      have staged := submitPartial_grows (d := d) dev (r.dstBase.add (r.reqStart - r.reqStart))
        (e.slba + (r.reqStart - e.fileOffset) / d.lbaSize) (headOffset d e r.reqStart)
        (e.fileEnd - r.reqStart) st
      cases head : submitPartial d dev (r.dstBase.add (r.reqStart - r.reqStart))
          (e.slba + (r.reqStart - e.fileOffset) / d.lbaSize) (headOffset d e r.reqStart)
          (e.fileEnd - r.reqStart) st with
      | ok st' =>
          simp only [Submit.ok_bind, Submit.pure_eq]
          rw [submitBody_empty geo rfl]
          exact later st'
      | out st' =>
          rw [head] at staged
          exact absurd (by omega) (staged.2 good async notAssumed (by rw [unstaged]; decide))
      | spin =>
          rw [head] at staged
          exact staged.elim

/-! ## The documented rule -/

/-- The rule of `opends.h` for one read: the device gets 4-byte-aligned
destinations only, and a read that starts off a 4-byte boundary and covers a
whole LBA past the first is rejected. -/
structure RuleKept (d : Driver) (dev : Device) (extents : List Extent) (st : ReadState) :
    Prop where
  direct : ∀ polls st', ioThread d dev polls st = some st' →
    ∀ c ∈ st'.issued, c.callback = .chunk → (4 : Int) ∣ c.dst.addr
  rejected : ¬ 4 ∣ st.op.span.reqStart → (∃ e ∈ extents, st.op.span.WholeLba d e) →
    ∀ polls : List (List Nat), 2 ≤ polls.length → ∃ st', ioThread d dev polls st = some st' ∧
      st'.op.result = some (-OpError.invalidValue.code)

/-- `start_read_op` rejects the request before it walks the extents. -/
def RejectedUpFront (d : Driver) (st : ReadState) : Prop :=
  d.mdtsNbytes >>> d.lbaShift = 0 ∨ 2 ^ 64 ≤ u64 st.op.fileOffset + st.op.size

/-- The requests the check deals with: those that are rejected up front, those
that are aligned or meet no whole LBA, and those that start inside an extent
where the head is refused, because reads are assumed aligned or because that
extent itself holds a whole LBA of the request. -/
def CheckSuffices (d : Driver) (extents : List Extent) (st : ReadState) : Prop :=
  RejectedUpFront d st ∨ 4 ∣ st.op.span.reqStart ∨
    (∀ e ∈ extents, ¬ st.op.span.WholeLba d e) ∨
      ∃ e ∈ extents, e.fileOffset ≤ st.op.span.reqStart ∧ st.op.span.reqStart < e.fileEnd ∧
        (d.assumeAlignedOnly = true ∨ st.op.span.WholeLba d e)

theorem four_dvd_lbaSize (power : d.lbaSize = 2 ^ d.lbaShift) (four : 4 ≤ d.lbaSize) :
    4 ∣ d.lbaSize := by
  have shift : 2 ≤ d.lbaShift := by
    by_contra small
    have bound : d.lbaSize < 2 ^ 2 := by
      rw [power]
      exact Nat.pow_lt_pow_right (by decide) (by omega)
    omega
  rw [power]
  exact Nat.pow_dvd_pow 2 shift

/-- Past the checks up front the geometry has room for a chunk. -/
theorem geometry_of_not_rejected (power : d.lbaSize = 2 ^ d.lbaShift) {st : ReadState}
    (passes : ¬ RejectedUpFront d st) :
    d.Geometry ∧ u64 st.op.fileOffset + st.op.size < 2 ^ 64 := by
  simp only [RejectedUpFront, not_or, Nat.shiftRight_eq_div_pow, ← power] at passes
  refine ⟨⟨power, ?_⟩, by omega⟩
  by_contra small
  exact passes.1 (Nat.div_eq_of_lt (by omega))

theorem startReadOp_up_front (power : d.lbaSize = 2 ^ d.lbaShift) {st : ReadState}
    (rejected : RejectedUpFront d st) :
    startReadOp d dev (dispatched st) = .out ((dispatched st).fail .invalidValue) := by
  have lbaPos : d.lbaSize ≠ 0 := by
    rw [power]
    exact (Nat.two_pow_pos _).ne'
  rw [startReadOp, if_neg lbaPos]
  split
  · rfl
  · rename_i chunk
    have wraps := rejected.resolve_left chunk
    rw [if_pos]
    change 2 ^ 64 - 1 - u64 st.op.fileOffset < st.op.size
    have bound := u64_lt st.op.fileOffset
    omega

/-- The check keeps the rule where it suffices, whatever the device answers. -/
theorem RuleKept.of_checkSuffices (power : d.lbaSize = 2 ^ d.lbaShift) (four : 4 ≤ d.lbaSize)
    (lay : Layout d extents) {st : ReadState} (fresh : Submitted st)
    (dst : (4 : Int) ∣ st.op.bufBase + st.op.bufOffset)
    (resolved : resolveExtents dev = .ok extents) (dealt : CheckSuffices d extents st) :
    RuleKept d dev extents st := by
  -- A read that is rejected before its first command keeps both parts of the rule.
  have kept : startReadOp d dev (dispatched st) = .out ((dispatched st).fail .invalidValue) →
      RuleKept d dev extents st := by
    intro rejects
    obtain ⟨none, completes⟩ := ioThread_rejected fresh rejects
    refine ⟨fun polls st' ran c member => ?_, fun _ _ => completes⟩
    rw [none polls st' ran] at member
    cases member
  by_cases upFront : RejectedUpFront d st
  · exact kept (startReadOp_up_front power upFront)
  obtain ⟨geo, noWrap⟩ := geometry_of_not_rejected power upFront
  have dvd := four_dvd_lbaSize power four
  have origin : ∀ polls st', ioThread d dev polls st = some st' →
      ∀ c ∈ st'.issued, Origin d extents st.op.span c :=
    fun _ _ ran => ioThread_origin geo resolved lay fresh noWrap ran
  by_cases aligned : 4 ∣ st.op.span.reqStart
  · exact ⟨fun polls st' ran c member chunk =>
      ((origin polls st' ran c member).aligned_iff chunk dvd dst).mpr aligned, fun off => absurd aligned off⟩
  by_cases none : ∀ e ∈ extents, ¬ st.op.span.WholeLba d e
  · refine ⟨fun polls st' ran c member chunk => ?_, fun _ meets =>
      absurd meets (by simpa using none)⟩
    obtain ⟨e, inFile, whole⟩ := (origin polls st' ran c member).wholeLba chunk
    exact absurd whole (none e inFile)
  · obtain ⟨e, member, low, high, caught⟩ :=
      ((dealt.resolve_left upFront).resolve_left aligned).resolve_left none
    have nonempty : st.op.span.reqStart < st.op.span.reqEnd := by
      by_contra empty
      refine none fun e _ whole => ?_
      obtain ⟨q, -, start, stop⟩ := whole
      have lbaPos := geo.lbaSize_pos
      omega
    refine kept ?_
    rw [startReadOp_eq geo resolved noWrap]
    exact submitExtents_rejects geo dvd low high nonempty aligned caught extents lay member _

/-- **The alignment rule is kept exactly where the check suffices.** Whatever the
extents and the request, every device behaviour keeps the rule if the check
deals with the request, and otherwise some device gets a misaligned
destination. -/
theorem alignmentRule_iff (power : d.lbaSize = 2 ^ d.lbaShift) (four : 4 ≤ d.lbaSize)
    (lay : Layout d extents) {st : ReadState} (fresh : Submitted st) (async : st.op.mode = .async)
    (dst : (4 : Int) ∣ st.op.bufBase + st.op.bufOffset) :
    (∀ dev, resolveExtents dev = .ok extents → RuleKept d dev extents st) ↔
      CheckSuffices d extents st := by
  constructor
  · intro kept
    by_contra misses
    simp only [CheckSuffices, not_or] at misses
    obtain ⟨upFront, misaligned, meets, uncaught⟩ := misses
    obtain ⟨geo, noWrap⟩ := geometry_of_not_rejected power upFront
    have good := Device.serving_good (fun _ _ => 0) extents
    have resolved := Device.serving_resolved (fun _ _ => 0) extents
    -- The device that serves every command gets a direct one for this request.
    have direct := submitExtents_passes (r := st.op.span) geo good extents lay
      (fun e member low high => by
        have missed : ¬ (d.assumeAlignedOnly = true ∨ st.op.span.WholeLba d e) :=
          fun caught => uncaught ⟨e, member, low, high, caught⟩
        rw [not_or] at missed
        exact ⟨Bool.eq_false_iff.mpr missed.1, missed.2⟩)
      (by
        by_contra none
        exact meets fun e member whole => none ⟨e, member, whole⟩)
      (dispatched st) async rfl
    rw [← startReadOp_eq geo resolved noWrap] at direct
    obtain ⟨st₁, final, ⟨c, member, chunk⟩ | ⟨c, member, chunk⟩⟩ := direct.finalState
    all_goals
      have ran : ioThread d (Device.serving (fun _ _ => 0) extents) [[]] st = some st₁ := by
        simp only [ioThread, ioPass, fresh.pending, dispatchPending_eq, final, Option.map_some,
          Option.bind_some, ReadState.poke, List.foldl_nil]
      have origin := ioThread_origin geo resolved lay fresh noWrap ran c member
      have reached := (kept _ resolved).direct [[]] st₁ ran c member chunk
      exact misaligned ((origin.aligned_iff chunk (four_dvd_lbaSize power four) dst).mp reached)
  · exact fun dealt dev resolved =>
      .of_checkSuffices power four lay fresh dst resolved dealt

/-- The file whose first extent is one LBA. -/
def splitFile : List Extent := [⟨0, 8, 512⟩, ⟨512, 32, 1024⟩]

theorem splitFile_layout : Layout sectorDriver splitFile := by
  refine ⟨by decide, ?_⟩
  simp [splitFile, sectorDriver, Extent.fileEnd]

/-- A read from the second byte over the boundary is accepted, and its whole LBA
goes to the 511th byte of the destination. -/
theorem splitFile_read :
    ∃ st', ioThread sectorDriver (.serving sectorDisk splitFile) [[], [0, 1, 2], []]
        (submittedRead 1 1500) = some st' ∧ st'.op.result = some 1500 ∧
      ∃ c ∈ st'.issued, c.callback = .chunk ∧ c.dst.addr = 511 := by
  have computed : (ioThread sectorDriver (.serving sectorDisk splitFile) [[], [0, 1, 2], []]
      (submittedRead 1 1500)).any (fun st' => st'.op.result = some 1500 ∧
        ∃ c ∈ st'.issued, c.callback = .chunk ∧ c.dst.addr = 511) = true := by decide
  obtain ⟨st', ran, facts⟩ := Option.any_eq_true _ _ |>.mp computed
  exact ⟨st', ran, by simpa using facts⟩

/-- The same read of a file in one extent keeps the rule: it is rejected. -/
theorem alignmentRule_iff_one_extent :
    RuleKept sectorDriver (.serving sectorDisk [⟨0, 8, 1536⟩]) [⟨0, 8, 1536⟩]
      (submittedRead 1 1500) :=
  (alignmentRule_iff rfl (by decide) ⟨by decide, List.pairwise_singleton _ _⟩
    (submittedRead_submitted 1 1500) rfl (by decide)).mpr
    (.inr (.inr (.inr ⟨_, List.mem_singleton.mpr rfl, by decide, by decide,
      .inr ⟨512, by decide, by decide, by decide⟩⟩))) _ (Device.serving_resolved _ _)

/-- The rule is not kept on every device and file. -/
theorem misaligned_read_accepted :
    ¬ ∀ (d : Driver) (dev : Device) (extents : List Extent) (st : ReadState), d.Geometry →
        4 ≤ d.lbaSize → dev.Good → resolveExtents dev = .ok extents → Layout d extents →
        Submitted st → st.op.mode = .async → (4 : Int) ∣ st.op.bufBase + st.op.bufOffset →
        RuleKept d dev extents st := by
  intro kept
  have rule := kept sectorDriver _ splitFile (submittedRead 1 1500) sectorDriver_geometry
    (by decide) (Device.serving_good sectorDisk _) (Device.serving_resolved _ _) splitFile_layout
    (submittedRead_submitted _ _) rfl (by decide)
  obtain ⟨st', ran, -, c, member, chunk, address⟩ := splitFile_read
  have aligned := rule.direct _ st' ran c member chunk
  rw [address] at aligned
  exact absurd aligned (by decide)

end OpenDS.Aisio
