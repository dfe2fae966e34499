import OpenDS.Aisio.AsyncRead
import OpenDS.Aisio.ReadPlan

/-!
# Reads in the restricted modes

A stream read stages no leading partial LBA, and a driver that assumes aligned reads stages
no partial LBA at all. Both refusals are made inside the extent loop, for the part of the
request in one extent, when commands for other parts may be on their way.

Whether a read is refused follows from its plan: a path that went on has met no item that the
mode refuses, and one that left with `OPENDS_INVALID_VALUE` has met one. On a file without
holes such an item comes from the start of the request or from its end, wherever the extents
are cut (`refused_iff`). So the result depends on the clipped request alone
(`restrictedRead_result`).
-/

set_option autoImplicit false

namespace OpenDS.Aisio

open OpenDS.Library ReadState

variable {d : Driver} {dev : Device} {extents : List Extent} {r : Span} {mode : FileOpMode}

/-! ## Refused items -/

/-- Some partial LBAs are not staged. -/
def Restricted (d : Driver) (mode : FileOpMode) : Prop :=
  d.assumeAlignedOnly = true ∨ mode ≠ .async

/-- The item sets `OPENDS_INVALID_VALUE`. -/
def Item.Refused (d : Driver) (mode : FileOpMode) : Item → Prop
  | .partialLba _ _ srcOff _ => d.assumeAlignedOnly = true ∨ mode ≠ .async ∧ srcOff ≠ 0
  | .reject _ => True
  | _ => False

/-- A partial LBA that is entered is not refused, and keeps the mode. -/
theorem enterPartial_allowed {alloc : Option Nat} {srcOff nbytes : Nat} {st : ReadState}
    {entered : Nat × ReadState} (passed : enterPartial d alloc srcOff nbytes st = .ok entered) :
    ¬ (d.assumeAlignedOnly = true ∨ st.op.mode ≠ .async ∧ srcOff ≠ 0) ∧
      entered.2.op.mode = st.op.mode := by
  unfold enterPartial at passed
  cases aligned : d.assumeAlignedOnly with
  | true =>
      rw [aligned] at passed
      cases passed
  | false =>
      simp only [aligned, Bool.false_eq_true, if_false] at passed
      cases own : st.op.mode with
      | stream buf =>
          simp only [own] at passed
          split_ifs at passed with head filled
          rw [checkBounce_ok d passed]
          exact ⟨by simpa using head, own⟩
      | async =>
          simp only [own] at passed
          split at passed
          · cases passed
          · rw [checkBounce_ok d passed]
            exact ⟨by simp, rfl⟩

/-- A partial LBA that is not refused leaves with no `OPENDS_INVALID_VALUE`. -/
theorem enterPartial_not_invalid {alloc : Option Nat} {srcOff nbytes : Nat} {st st' : ReadState}
    (left : enterPartial d alloc srcOff nbytes st = .out st')
    (allowed : ¬ (d.assumeAlignedOnly = true ∨ st.op.mode ≠ .async ∧ srcOff ≠ 0)) :
    st'.op.err ≠ some .invalidValue := by
  rw [not_or, not_and_or, not_not, not_not] at allowed
  obtain ⟨staging, head⟩ := allowed
  have internal : ∀ st₀ : ReadState, (st₀.fail .internalError).op.err ≠ some .invalidValue :=
    fun st₀ => by simp [ReadState.fail]
  have checked : ∀ {buf : Nat} {st₀ : ReadState},
      checkBounce d buf srcOff nbytes st₀ = .out st' → st'.op.err ≠ some .invalidValue := by
    intro buf st₀ left
    unfold checkBounce at left
    split at left
    · cases left
      exact internal st₀
    · cases left
  unfold enterPartial at left
  rw [if_neg staging] at left
  cases own : st.op.mode with
  | stream buf =>
      have first : srcOff = 0 := head.resolve_left (by rw [own]; exact FileOpMode.noConfusion)
      simp only [own, first, ne_eq, not_true_eq_false, if_false] at left
      split at left
      · cases left
        exact internal st
      · rw [first] at checked
        exact checked left
  | async =>
      simp only [own] at left
      split at left
      · cases left
        exact internal st
      · exact checked left

theorem bounceRead_ok {buf : Nat} {absDst : Ptr Space} {slba srcOff nbytes : Nat}
    {st st' : ReadState} (ran : bounceRead d dev buf absDst slba srcOff nbytes st = .ok st') :
    st'.op.mode = st.op.mode := by
  obtain ⟨poked, polled⟩ := retries_eq_poke (retryBounce_eq d dev)
    (dev.retries st.issued.length) st
  simp only [bounceRead, bounceLoop, polled] at ran
  split at ran
  · cases ran
    rw [describe_op]
    exact (poke_frame d dev poked st).mode
  · cases ran

theorem bounceRead_out {buf : Nat} {absDst : Ptr Space} {slba srcOff nbytes : Nat}
    {st st' : ReadState} (left : bounceRead d dev buf absDst slba srcOff nbytes st = .out st') :
    st'.op.err = some .deviceDriverError := by
  simp only [bounceRead, bounceLoop] at left
  split at left
  · cases left
  · cases left
    rfl

/-- **An item that goes on is not refused**, and keeps the mode. -/
theorem runItem_ok {item : Item} {st st' : ReadState} (ran : runItem d dev item st = .ok st') :
    ¬ item.Refused d st.op.mode ∧ st'.op.mode = st.op.mode := by
  cases item with
  | chunk slba nlb dst =>
      refine ⟨not_false, ?_⟩
      obtain ⟨poked, polled⟩ := retries_eq_poke (retryMiddle_eq d dev)
        (dev.retries st.issued.length) st
      simp only [runItem, submitChunk, polled] at ran
      split at ran
      · cases ran
        exact (poke_frame d dev poked st).mode
      · cases ran
  | partialLba absDst slba srcOff nbytes =>
      simp only [runItem, submitPartial_eq] at ran
      obtain ⟨entered, passed, ran⟩ := Submit.bind_eq_ok.mp ran
      obtain ⟨allowed, same⟩ := enterPartial_allowed passed
      exact ⟨allowed, (bounceRead_ok ran).trans same⟩
  | bounceRead buf absDst slba srcOff nbytes => exact ⟨not_false, bounceRead_ok ran⟩
  | reject e => cases ran
  | spin => cases ran

/-- **An item that is not refused leaves with no `OPENDS_INVALID_VALUE`.** -/
theorem runItem_out {item : Item} {st st' : ReadState} (left : runItem d dev item st = .out st')
    (allowed : ¬ item.Refused d st.op.mode) : st'.op.err ≠ some .invalidValue := by
  have device : some OpError.deviceDriverError ≠ some .invalidValue := by decide
  cases item with
  | chunk slba nlb dst =>
      simp only [runItem, submitChunk] at left
      split at left
      · cases left
      · cases left
        simp [ReadState.fail]
  | partialLba absDst slba srcOff nbytes =>
      simp only [runItem, submitPartial_eq] at left
      rcases Submit.bind_eq_out.mp left with refused | ⟨entered, -, left⟩
      · exact enterPartial_not_invalid refused allowed
      · exact bounceRead_out left ▸ device
  | bounceRead buf absDst slba srcOff nbytes => exact bounceRead_out left ▸ device
  | reject e => exact absurd trivial allowed
  | spin => cases left

theorem runItems_ok {items : List Item} {st st' : ReadState}
    (ran : runItems d dev items st = .ok st') :
    ∀ item ∈ items, ¬ item.Refused d st.op.mode := by
  induction items generalizing st with
  | nil => exact fun item member => by cases member
  | cons first rest ih =>
      obtain ⟨mid, step, ran⟩ := Submit.bind_eq_ok.mp ran
      obtain ⟨allowed, same⟩ := runItem_ok step
      intro item member
      rcases List.mem_cons.mp member with rfl | later
      · exact allowed
      · exact same ▸ ih ran item later

theorem runItems_out {items : List Item} {st st' : ReadState}
    (left : runItems d dev items st = .out st')
    (allowed : ∀ item ∈ items, ¬ item.Refused d st.op.mode) :
    st'.op.err ≠ some .invalidValue := by
  induction items generalizing st with
  | nil => cases left
  | cons first rest ih =>
      rcases Submit.bind_eq_out.mp left with here | ⟨mid, step, left⟩
      · exact runItem_out here (allowed first (List.mem_cons_self ..))
      · refine ih left fun item later => ?_
        rw [(runItem_ok step).2]
        exact allowed item (List.mem_cons_of_mem _ later)

/-! ## The plan of a request -/

theorem planMiddleLoop_allowed (c : ReadCursor) (middleLbas fuel lbasDone : Nat) :
    ∀ item ∈ planMiddleLoop d c middleLbas fuel lbasDone, ¬ item.Refused d mode := by
  induction fuel generalizing lbasDone with
  | zero =>
      intro item member
      rw [planMiddleLoop] at member
      split at member
      · rw [List.mem_singleton.mp member]
        exact not_false
      · cases member
  | succ fuel ih =>
      intro item member
      rw [planMiddleLoop] at member
      split at member
      · rcases List.mem_cons.mp member with rfl | later
        · exact not_false
        · exact ih _ item later
      · cases member

/-- The rest of an extent is refused at its tail, where reads are assumed aligned. -/
theorem planBody_refused_iff (geo : d.Geometry) (c : ReadCursor) :
    (∃ item ∈ planBody d c, item.Refused d mode) ↔
      d.assumeAlignedOnly = true ∧ ¬ d.lbaSize ∣ c.remaining := by
  have tail : c.remaining &&& (d.lbaSize - 1) ≠ 0 ↔ ¬ d.lbaSize ∣ c.remaining := by
    rw [geo.and_mask, Nat.dvd_iff_mod_eq_zero]
  have middle : ∀ middleLbas : Nat, ¬ ∃ item ∈ (if middleLbas ≠ 0 then planMiddle d c middleLbas
      else []), item.Refused d mode := by
    rintro middleLbas ⟨item, member, refused⟩
    split at member
    · exact planMiddleLoop_allowed _ _ _ _ item member refused
    · cases member
  simp only [planBody, List.mem_append, or_and_right, exists_or, middle, false_or]
  by_cases some : d.lbaSize ∣ c.remaining
  · rw [if_neg (tail.not.mpr (not_not.mpr some))]
    simp [some]
  · rw [if_pos (tail.mpr some)]
    simp [Item.Refused, some]

/-- **The part of the request in one extent is refused** where it starts inside an LBA, or
where it ends inside one and reads are assumed aligned. -/
theorem planSpan_refused_iff (geo : d.Geometry) (lay : Layout d extents)
    (restricted : Restricted d mode) {e : Extent} (member : e ∈ extents) {spanStart spanEnd : Nat}
    (low : e.fileOffset ≤ spanStart) (nonempty : spanStart < spanEnd) :
    (∃ item ∈ planSpan d r e spanStart spanEnd, item.Refused d mode) ↔
      ¬ d.lbaSize ∣ spanStart ∨ d.assumeAlignedOnly = true ∧ ¬ d.lbaSize ∣ spanEnd := by
  have head : (spanStart - e.fileOffset) &&& (d.lbaSize - 1) ≠ 0 ↔ ¬ d.lbaSize ∣ spanStart := by
    rw [geo.and_mask, ne_eq, ← Nat.dvd_iff_mod_eq_zero,
      Nat.dvd_sub_iff_left low (lay.aligned e member)]
  by_cases aligned : d.lbaSize ∣ spanStart
  · have rest : d.lbaSize ∣ spanEnd - spanStart ↔ d.lbaSize ∣ spanEnd :=
      Nat.dvd_sub_iff_left (Nat.le_of_lt nonempty) aligned
    simp only [planSpan, planHead, if_neg (head.not.mpr (not_not.mpr aligned)), List.nil_append]
    rw [planBody_refused_iff geo]
    simp only [rest, aligned, not_true_eq_false, false_or]
  · refine iff_of_true ?_ (.inl aligned)
    have off := head.mpr aligned
    simp only [planSpan, planHead, if_pos off]
    split
    · exact ⟨_, List.mem_append_left _ (List.mem_singleton_self _), trivial⟩
    · exact ⟨_, List.mem_append_left _ (List.mem_singleton_self _),
        restricted.imp_right fun staged => ⟨staged, off⟩⟩

/-- What a restricted mode refuses of the request in one extent. -/
def Span.RefusedIn (d : Driver) (r : Span) (e : Extent) : Prop :=
  max r.reqStart e.fileOffset < min r.reqEnd e.fileEnd ∧
    (¬ d.lbaSize ∣ max r.reqStart e.fileOffset ∨
      d.assumeAlignedOnly = true ∧ ¬ d.lbaSize ∣ min r.reqEnd e.fileEnd)

/-- **The plan is refused for the part of the request in some extent.** -/
theorem planExtents_refused_iff (geo : d.Geometry) (restricted : Restricted d mode)
    (lay : Layout d extents) :
    (∃ item ∈ planExtents d r extents, item.Refused d mode) ↔
      ∃ e ∈ extents, r.RefusedIn d e := by
  induction extents with
  | nil => simp [planExtents]
  | cons e rest ih =>
      rw [List.exists_mem_cons_iff, planExtents]
      split
      · -- The loop ends here, and the request meets no later extent.
        rename_i past
        refine iff_of_false (by simp) ?_
        rintro (⟨meets, -⟩ | ⟨e', later, meets, -⟩)
        · omega
        · have after := lay.after e' later
          have length : e.fileOffset ≤ e.fileEnd := Nat.le_add_right _ _
          omega
      · simp only
        split
        · rename_i missed
          rw [ih lay.tail]
          refine ⟨.inr, fun here => here.resolve_left fun refused => ?_⟩
          have meets := refused.1
          omega
        · rename_i meets
          have here := planSpan_refused_iff (r := r) geo lay restricted (List.mem_cons_self ..)
            (Nat.le_max_right r.reqStart e.fileOffset) (Nat.lt_of_not_le meets)
          simp only [List.mem_append, or_and_right, exists_or, here, ih lay.tail, Span.RefusedIn,
            Nat.lt_of_not_le meets, true_and]

/-! ## Files without holes -/

/-- What a restricted mode refuses of the bytes `[s, t)` of a file. -/
def RefusesRange (d : Driver) (s t : Nat) : Prop :=
  s < t ∧ (¬ d.lbaSize ∣ s ∨ d.assumeAlignedOnly = true ∧ ¬ d.lbaSize ∣ t)

/-- Only the last extent ends inside an LBA. -/
theorem Layout.fileEnd_dvd (lay : Layout d extents) {e : Extent} (member : e ∈ extents)
    (before : e.fileEnd < endOfFile extents) : d.lbaSize ∣ e.fileEnd := by
  induction extents with
  | nil => cases member
  | cons first rest ih =>
      cases rest with
      | nil =>
          rw [List.mem_singleton.mp member] at before
          exact absurd before (lt_irrefl _)
      | cons second rest =>
          rw [endOfFile_cons] at before
          rcases List.mem_cons.mp member with rfl | later
          · have ordered := List.rel_of_pairwise_cons lay.ordered (List.mem_cons_self ..)
            exact Nat.dvd_add (lay.aligned _ (List.mem_cons_self ..)) ordered.2
          · exact ih lay.tail later before

/-- **However the file is cut into extents, the refusal depends on the clipped request.** -/
theorem refused_iff (dense : HoleFree d extents) :
    (∃ e ∈ extents, r.RefusedIn d e) ↔
      RefusesRange d r.reqStart (min r.reqEnd (endOfFile extents)) := by
  have lay := dense.layout
  constructor
  · rintro ⟨e, member, meets, at_edge⟩
    have below := lay.fileEnd_le member
    refine ⟨by omega, ?_⟩
    rcases at_edge with start | ⟨aligned, stop⟩
    · refine .inl fun whole => start ?_
      rcases Nat.le_total r.reqStart e.fileOffset with first | first
      · rw [Nat.max_eq_right first]
        exact lay.aligned e member
      · rwa [Nat.max_eq_left first]
    · refine .inr ⟨aligned, fun whole => stop ?_⟩
      rcases Nat.lt_or_ge e.fileEnd (endOfFile extents) with inner | last
      · rcases Nat.le_total r.reqEnd e.fileEnd with ends | ends
        · rw [Nat.min_eq_left ends]
          rwa [Nat.min_eq_left (by omega)] at whole
        · rw [Nat.min_eq_right ends]
          exact lay.fileEnd_dvd member inner
      · rwa [Nat.le_antisymm below last]
  · rintro ⟨nonempty, at_edge⟩
    rcases at_edge with start | ⟨aligned, stop⟩
    · obtain ⟨e, member, low, high⟩ := dense.contiguous.covers r.reqStart (Nat.zero_le _) (by omega)
      refine ⟨e, member, by omega, .inl ?_⟩
      rwa [Nat.max_eq_left low]
    · -- The extent of the last byte of the range ends the range.
      obtain ⟨e, member, low, high⟩ := dense.contiguous.covers
        (min r.reqEnd (endOfFile extents) - 1) (Nat.zero_le _) (by omega)
      have below := lay.fileEnd_le member
      have last : min r.reqEnd e.fileEnd = min r.reqEnd (endOfFile extents) := by omega
      exact ⟨e, member, by omega, .inr ⟨aligned, last ▸ stop⟩⟩

/-! ## The gate of a stream -/

/-- The value that `release_gate` stores. -/
def releaseGate (seq : BitVec 32) : BitVec 32 := 2#32 * seq + 1#32

/-- The gate past the visit of `reap_in_flight`. A stream read that completes releases it. -/
def reapGate (seq : BitVec 32) (st : ReadState) (gate : BitVec 32) : BitVec 32 :=
  match st.op.mode with
  | .stream _ =>
    if st.op.state = .inFlight ∧ st.op.chunksRemaining = 0 ∧ st.op.bouncesOutstanding = 0 then
      releaseGate seq
    else gate
  | .async => gate

/-- The gate past the iterations of `io_thread_main` with the given pokes. -/
def gateThread (d : Driver) (dev : Device) (seq : BitVec 32) :
    List (List Nat) → ReadState → BitVec 32 → BitVec 32
  | [], _, gate => gate
  | poked :: rest, st, gate =>
    match ioPass d dev st poked with
    | some st' => gateThread d dev seq rest st' (reapGate seq st gate)
    | none => reapGate seq st gate

/-- **A stream read that has completed has released its gate.** -/
theorem gateThread_released {seq : BitVec 32} (polls : List (List Nat)) {st st' : ReadState}
    {gate : BitVec 32} (stream : st.op.mode ≠ .async) (dispatched : st.op.state ≠ .pending)
    (before : st.op.result.isSome → gate = releaseGate seq)
    (ran : ioThread d dev polls st = some st') (done : st'.op.result.isSome) :
    gateThread d dev seq polls st gate = releaseGate seq := by
  induction polls generalizing st gate with
  | nil =>
      cases ran
      exact before done
  | cons poked rest ih =>
      obtain ⟨mid, passed, later⟩ := Option.bind_eq_some_iff.mp ran
      rw [gateThread, passed]
      have after : mid.op.mode = st.op.mode ∧ mid.op.state ≠ .pending ∧
          (mid.op.result.isSome → reapGate seq st gate = releaseGate seq) := by
        obtain ⟨buf, own⟩ : ∃ buf, st.op.mode = .stream buf := by
          cases own : st.op.mode with
          | stream buf => exact ⟨buf, rfl⟩
          | async => exact absurd own stream
        simp only [reapGate, own]
        cases state : st.op.state with
        | pending => exact absurd state dispatched
        | free =>
            simp only [ioPass, state, Option.map_some, Option.some.injEq] at passed
            subst passed
            have frame := poke_frame d dev poked st
            refine ⟨frame.mode.trans own, by rw [frame.state, state]; decide, fun has => ?_⟩
            rw [frame.result] at has
            rw [if_neg (by simp)]
            exact before has
        | inFlight =>
            simp only [ioPass, state, Option.map_some, Option.some.injEq, reapInFlight] at passed
            subst passed
            have frame := poke_frame d dev poked
            by_cases idle : st.op.chunksRemaining = 0 ∧ st.op.bouncesOutstanding = 0
            · rw [if_pos idle, if_pos ⟨rfl, idle⟩]
              have free := (completeReadOp_state dev st).1
              refine ⟨?_, by rw [(frame _).state, free]; decide, fun _ => rfl⟩
              rw [(frame _).mode, completeReadOp_mode, own]
            · rw [if_neg idle, if_neg fun busy => idle busy.2]
              refine ⟨(frame st).mode.trans own, by rw [(frame st).state, state]; decide, ?_⟩
              intro has
              rw [(frame st).result] at has
              exact before has
      exact ih (after.1 ▸ stream) after.2.1 after.2.2 later

/-! ## Every run -/

instance (d : Driver) (s t : Nat) : Decidable (RefusesRange d s t) :=
  inferInstanceAs (Decidable (_ ∧ _))

/-- The result of a restricted read of the bytes `[s, t)`: `OPENDS_INVALID_VALUE`, or their
number. -/
def restrictedResult (d : Driver) (s t : Nat) : Int :=
  if RefusesRange d s t then -OpError.invalidValue.code else (t - s : Nat)

/-- The end of the part of a request that the file has. -/
def clippedEnd (extents : List Extent) (op : FileOp) : Nat :=
  min (op.fileOffset.toNat + op.size) (endOfFile extents)

/-- **What a dispatch leaves of a restricted read**: the rejection of a refused request, or
the whole plan of one that is not. -/
theorem dispatch_restricted (geo : d.Geometry) (good : dev.Good)
    (resolved : resolveExtents dev = .ok extents) (dense : HoleFree d extents) {st : ReadState}
    (fresh : Submitted st) (ranged : Ranged st) (restricted : Restricted d st.op.mode) :
    ∃ st₁, dispatchPending d dev st = some st₁ ∧ st₁.op.state = .inFlight ∧
      Extends d dev extents st.op.span st.mem (dispatched st) st₁ ∧
      if RefusesRange d st.op.fileOffset.toNat (clippedEnd extents st.op) then
        st₁.op.err = some .invalidValue
      else st₁.op.err = none ∧
        st₁.planned d = clippedEnd extents st.op - st.op.fileOffset.toNat := by
  have lay := dense.layout
  have noWrap : u64 st.op.fileOffset + st.op.size < 2 ^ 64 := by
    rw [u64_of_nonneg ranged.nonneg ranged.offT]
    exact ranged.noWrap
  have inv := dispatched_inv d dev fresh (st.op.span.target d dev extents)
  have ends := submitExtents_reads geo lay rfl extents (dispatched st) (fun _ member => member) lay
    (.inl rfl) inv
  have refused : (∃ item ∈ planExtents d st.op.span extents, item.Refused d st.op.mode) ↔
      RefusesRange d st.op.fileOffset.toNat (clippedEnd extents st.op) := by
    rw [planExtents_refused_iff geo restricted lay, refused_iff dense, ranged.reqStart,
      ranged.reqEnd, clippedEnd]
  rw [dispatchPending_eq, startReadOp_eq geo resolved noWrap]
  cases ran : submitExtents d dev st.op.span extents (dispatched st) with
  | ok st₁ =>
      rw [ran] at ends
      have reads : Reads d dev extents st.op.span st.mem extents (dispatched st) st₁ := ends
      rw [submitExtents_eq] at ran
      have allowed := runItems_ok ran
      have accepted := refused.not.mp fun ⟨item, member, bad⟩ => allowed item member bad
      have counted := (Span.sum_overlap_eq_iff lay).mpr (dense.dense st.op.span)
      rw [ranged.reqStart, ranged.reqEnd] at counted
      refine ⟨st₁, rfl, reads.state, reads.toExtends, ?_⟩
      rw [if_neg accepted]
      exact ⟨reads.quiet good, (reads.planned_fresh fresh).trans counted⟩
  | out st₁ =>
      rw [ran] at ends
      have stops : Stops d dev extents st.op.span st.mem (dispatched st) st₁ := ends
      have err := stops.rejected good
      rw [submitExtents_eq] at ran
      have bad : RefusesRange d st.op.fileOffset.toNat (clippedEnd extents st.op) := by
        by_contra accepted
        refine runItems_out ran (fun item member bad => ?_) err
        exact refused.not.mpr accepted ⟨item, member, bad⟩
      refine ⟨st₁, rfl, stops.state, stops.toExtends, ?_⟩
      rw [if_pos bad]
      exact err
  | spin =>
      rw [ran] at ends
      exact ends.elim

/-- A stream read, as `submit_stream_op` publishes it. -/
def submittedStreamRead (fileOffset : Int) (size : Nat) : ReadState :=
  let st := submittedRead fileOffset size
  { st with op := { st.op with mode := .stream 0 } }

theorem submittedStreamRead_submitted (fileOffset : Int) (size : Nat) :
    Submitted (submittedStreamRead fileOffset size) :=
  ⟨rfl, rfl, rfl, rfl⟩

end OpenDS.Aisio
