import OpenDS.Aisio.ReadCover

/-!
# The plan of a read

Which commands a read submits, and in which order, follows from its request and the
extents alone; the device decides how far the submission gets. The extent loop of
`start_read_op` is therefore a list of items, one for each command and one for each
rejection, and `submitExtents_eq` says that the loop is this list, run in order.

A partial LBA is an item twice: as `submit_partial` is called for it, and past the
checks and the allocation of a bounce buffer, when `submit_bounce_read` asks the queue
to take the command.
-/

set_option autoImplicit false

namespace OpenDS.Aisio

open OpenDS.Library ReadState

/-! ## Items -/

/-- One thing `start_read_op` has to do. -/
inductive Item where
  /-- A command of `submit_read_middle`. -/
  | chunk (slba nlb : Nat) (dst : Ptr Space)
  /-- A call of `submit_partial`. -/
  | partialLba (absDst : Ptr Space) (slba srcOff nbytes : Nat)
  /-- The loop of `submit_bounce_read`, into a buffer. -/
  | bounceRead (buf : Nat) (absDst : Ptr Space) (slba srcOff nbytes : Nat)
  /-- A check that fails. -/
  | reject (e : OpError)
  /-- A loop that does not end. -/
  | spin
  deriving DecidableEq, Repr

/-- The item asks the queue to take a command. -/
def Item.waits : Item → Bool
  | .chunk _ _ _ => true
  | .bounceRead _ _ _ _ _ => true
  | _ => false

/-- One turn of the `while` loop of `submit_read_middle`. -/
def submitChunk (d : Driver) (dev : Device) (slba nlb : Nat) (dst : Ptr Space) (st : ReadState) :
    Submit ReadState :=
  let n := st.issued.length
  let st := (dev.retries n).foldl (retryMiddle d dev) st
  let st := addChunks 1 st
  if dev.takes n then .ok (take ⟨.chunk, slba, nlb, dst⟩ st)
  else .out ((addChunks (-1) st).fail .deviceDriverError)

/-- The check at the head of `submit_bounce_read`. -/
def checkBounce (d : Driver) (buf srcOff nbytes : Nat) (st : ReadState) : Submit (Nat × ReadState) :=
  if bounceSlots ≤ st.op.bounces.length ∨ d.lbaSize < srcOff + nbytes then
    .out (st.fail .internalError)
  else .ok (buf, st)

/-- `submit_partial` up to the loop of `submit_bounce_read`: the buffer it reads into. -/
def enterPartial (d : Driver) (alloc : Option Nat) (srcOff nbytes : Nat) (st : ReadState) :
    Submit (Nat × ReadState) :=
  if d.assumeAlignedOnly then .out (st.fail .invalidValue)
  else match st.op.mode with
    | .stream buf =>
      if srcOff ≠ 0 then .out (st.fail .invalidValue)
      else if st.op.bounces ≠ [] then .out (st.fail .internalError)
      else checkBounce d buf srcOff nbytes st
    | .async => match st.op.bounceBuf <|> alloc with
      | none => .out (st.fail .internalError)
      | some buf =>
        checkBounce d buf srcOff nbytes { st with op := { st.op with bounceBuf := some buf } }

/-- The loop of `submit_bounce_read`, and what follows it. -/
def bounceLoop (d : Driver) (dev : Device) (buf : Nat) (absDst : Ptr Space)
    (slba srcOff nbytes : Nat) (st : ReadState) : Submit ReadState :=
  let slot := st.op.bounces.length
  let bounce : Ptr Space := ⟨.bounce buf, ((slot * d.lbaSize : Nat) : Int)⟩
  let n := st.issued.length
  let st := (dev.retries n).foldl (retryBounce d dev) st
  if dev.takes n then
    let st := take ⟨.bounce, slba, 0, bounce⟩ st
    .ok { st with op := { st.op with
      bounces := st.op.bounces ++ [⟨absDst, bounce.add srcOff, nbytes⟩]
      bouncesOutstanding := st.op.bouncesOutstanding + 1
      bytesAcc := st.op.bytesAcc + nbytes } }
  else .out (st.fail .deviceDriverError)

/-- The end of `submit_stream_bounce`. -/
def describe (mode : FileOpMode) (absDst : Ptr Space) (st : ReadState) : ReadState :=
  match mode with
  | .stream buf => { st with desc := { st.desc with dst := absDst, src := ⟨.bounce buf, 0⟩ } }
  | .async => st

@[simp] theorem describe_op (mode : FileOpMode) (absDst : Ptr Space) (st : ReadState) :
    (describe mode absDst st).op = st.op := by
  cases mode <;> rfl

@[simp] theorem describe_issued (mode : FileOpMode) (absDst : Ptr Space) (st : ReadState) :
    (describe mode absDst st).issued = st.issued := by
  cases mode <;> rfl

@[simp] theorem describe_inflight (mode : FileOpMode) (absDst : Ptr Space) (st : ReadState) :
    (describe mode absDst st).inflight = st.inflight := by
  cases mode <;> rfl

@[simp] theorem describe_mem (mode : FileOpMode) (absDst : Ptr Space) (st : ReadState) :
    (describe mode absDst st).mem = st.mem := by
  cases mode <;> rfl

/-- `submit_partial` from the loop of `submit_bounce_read` on. -/
def bounceRead (d : Driver) (dev : Device) (buf : Nat) (absDst : Ptr Space)
    (slba srcOff nbytes : Nat) (st : ReadState) : Submit ReadState := do
  let after ← bounceLoop d dev buf absDst slba srcOff nbytes st
  return describe st.op.mode absDst after

/-- Do one item. -/
def runItem (d : Driver) (dev : Device) (item : Item) (st : ReadState) : Submit ReadState :=
  match item with
  | .chunk slba nlb dst => submitChunk d dev slba nlb dst st
  | .partialLba absDst slba srcOff nbytes => submitPartial d dev absDst slba srcOff nbytes st
  | .bounceRead buf absDst slba srcOff nbytes => bounceRead d dev buf absDst slba srcOff nbytes st
  | .reject e => .out (st.fail e)
  | .spin => .spin

/-- Do the items in order. -/
def runItems (d : Driver) (dev : Device) : List Item → ReadState → Submit ReadState
  | [], st => .ok st
  | item :: rest, st => runItem d dev item st >>= runItems d dev rest

/-! ## The plan -/

/-- The commands of `submit_read_middle` from `lbas_done` on. -/
def planMiddleLoop (d : Driver) (c : ReadCursor) (middleLbas : Nat) : Nat → Nat → List Item
  | 0, lbasDone => if lbasDone < middleLbas then [.spin] else []
  | fuel + 1, lbasDone =>
    if lbasDone < middleLbas then
      let maxChunkLbas := d.mdtsNbytes >>> d.lbaShift
      let chunkLbas := min (min (middleLbas - lbasDone) maxChunkLbas) nvmeMaxNlb
      let nlb := (chunkLbas + 65535) % 65536
      .chunk (c.curSlba + lbasDone) nlb (c.absDst.add (lbasDone * d.lbaSize)) ::
        planMiddleLoop d c middleLbas fuel (lbasDone + chunkLbas)
    else []

/-- The items of `submit_read_middle`. -/
def planMiddle (d : Driver) (c : ReadCursor) (middleLbas : Nat) : List Item :=
  planMiddleLoop d c middleLbas middleLbas 0

/-- The cursor past `submit_read_middle`. -/
def ReadCursor.pass (d : Driver) (c : ReadCursor) (middleLbas : Nat) : ReadCursor where
  curSlba := c.curSlba + middleLbas
  absDst := c.absDst.add (middleLbas * d.lbaSize)
  remaining := c.remaining - middleLbas * d.lbaSize

/-- The items of the `if (head_off)` block, and the cursor past it. -/
def planHead (d : Driver) (r : Span) (e : Extent) (spanStart spanEnd : Nat) :
    List Item × ReadCursor :=
  let lbaMask := d.lbaSize - 1
  let offInExt := spanStart - e.fileOffset
  let absDst := r.dstBase.add (spanStart - r.reqStart)
  let curSlba := e.slba + (offInExt >>> d.lbaShift)
  let remaining := spanEnd - spanStart
  let headOff := offInExt &&& lbaMask
  if headOff ≠ 0 then
    let headBytes := min (d.lbaSize - headOff) remaining
    let past : ReadCursor := ⟨curSlba + 1, absDst.add headBytes, remaining - headBytes⟩
    if d.lbaSize ≤ remaining - headBytes ∧ headBytes &&& (nvmePrpOffsetAlign - 1) ≠ 0 then
      ([.reject .invalidValue], past)
    else ([.partialLba absDst curSlba headOff headBytes], past)
  else ([], ⟨curSlba, absDst, remaining⟩)

/-- The items of the rest of the body of the extent loop. -/
def planBody (d : Driver) (c : ReadCursor) : List Item :=
  let lbaMask := d.lbaSize - 1
  let tailBytes := c.remaining &&& lbaMask
  let middleLbas := (c.remaining - tailBytes) >>> d.lbaShift
  let past := if middleLbas ≠ 0 then c.pass d middleLbas else c
  (if middleLbas ≠ 0 then planMiddle d c middleLbas else []) ++
    if tailBytes ≠ 0 then [.partialLba past.absDst past.curSlba 0 tailBytes] else []

/-- The items of the body of the extent loop. -/
def planSpan (d : Driver) (r : Span) (e : Extent) (spanStart spanEnd : Nat) : List Item :=
  (planHead d r e spanStart spanEnd).1 ++ planBody d (planHead d r e spanStart spanEnd).2

/-- The items of the extent loop. -/
def planExtents (d : Driver) (r : Span) : List Extent → List Item
  | [] => []
  | e :: rest =>
    if r.reqEnd ≤ e.fileOffset then []
    else
      let spanStart := max r.reqStart e.fileOffset
      let spanEnd := min r.reqEnd e.fileEnd
      if spanEnd ≤ spanStart then planExtents d r rest
      else planSpan d r e spanStart spanEnd ++ planExtents d r rest

/-- `start_read_op` up to the extent loop: its items, or the error it leaves with. -/
def planRead (d : Driver) (dev : Device) (op : FileOp) : Except OpError (List Item) :=
  if d.lbaSize = 0 then .error .internalError
  else if d.mdtsNbytes >>> d.lbaShift = 0 then .error .invalidValue
  else if 2 ^ 64 - 1 - u64 op.fileOffset < op.size then .error .invalidValue
  else match resolveExtents dev with
    | .error _ => .error .fsSetupError
    | .ok extents => .ok (planExtents d op.span extents)

/-! ## The plan is what the code does -/

theorem Submit.bind_assoc {α β γ : Type} (first : Submit α) (second : α → Submit β)
    (third : β → Submit γ) : (first >>= second) >>= third = first >>= fun a => second a >>= third := by
  cases first <;> rfl

/-- A path that goes on has gone on in each part. -/
theorem Submit.bind_eq_ok {α β : Type} {first : Submit α} {rest : α → Submit β} {value : β} :
    (first >>= rest) = .ok value ↔ ∃ a, first = .ok a ∧ rest a = .ok value := by
  cases first with
  | ok a => simp
  | out st => simp
  | spin => simp

/-- A path that leaves does so in its first part or in the rest. -/
theorem Submit.bind_eq_out {α β : Type} {first : Submit α} {rest : α → Submit β} {st : ReadState} :
    (first >>= rest) = .out st ↔ first = .out st ∨ ∃ a, first = .ok a ∧ rest a = .out st := by
  cases first with
  | ok a => simp
  | out st => simp
  | spin => simp

theorem Submit.bind_ok {α : Type} (first : Submit α) : (first >>= Submit.ok) = first := by
  cases first <;> rfl

variable (d : Driver) (dev : Device)

theorem runItems_append (first second : List Item) (st : ReadState) :
    runItems d dev (first ++ second) st = runItems d dev first st >>= runItems d dev second := by
  induction first generalizing st with
  | nil => rfl
  | cons item rest ih =>
      rw [List.cons_append, runItems, runItems, Submit.bind_assoc]
      congr 1
      funext st'
      exact ih st'

theorem submitBounceRead_eq (buf : Nat) (absDst : Ptr Space) (slba srcOff nbytes : Nat)
    (st : ReadState) :
    submitBounceRead d dev buf absDst slba srcOff nbytes st =
      checkBounce d buf srcOff nbytes st >>= fun entered =>
        bounceLoop d dev entered.1 absDst slba srcOff nbytes entered.2 := by
  unfold submitBounceRead checkBounce
  split <;> rfl

/-- What the check lets through is what it was given. -/
theorem checkBounce_ok {buf srcOff nbytes : Nat} {st : ReadState} {entered : Nat × ReadState}
    (passed : checkBounce d buf srcOff nbytes st = .ok entered) : entered = (buf, st) := by
  unfold checkBounce at passed
  split at passed
  · cases passed
  · exact (Submit.ok.inj passed).symm

/-- **A partial LBA is entered, and then read into its buffer.** -/
theorem submitPartial_eq (absDst : Ptr Space) (slba srcOff nbytes : Nat) (st : ReadState) :
    submitPartial d dev absDst slba srcOff nbytes st =
      enterPartial d dev.bufAlloc srcOff nbytes st >>= fun entered =>
        bounceRead d dev entered.1 absDst slba srcOff nbytes entered.2 := by
  -- What is read into the buffer is described in the mode of the operation.
  have described : ∀ (buf : Nat) (st : ReadState),
      (checkBounce d buf srcOff nbytes st >>= fun entered =>
        bounceRead d dev entered.1 absDst slba srcOff nbytes entered.2) =
      submitBounceRead d dev buf absDst slba srcOff nbytes st >>= fun after =>
        .ok (describe st.op.mode absDst after) := by
    intro buf st
    rw [submitBounceRead_eq, Submit.bind_assoc]
    cases passed : checkBounce d buf srcOff nbytes st with
    | ok entered =>
        rw [checkBounce_ok d passed]
        rfl
    | out st' => rfl
    | spin => rfl
  unfold submitPartial enterPartial
  cases d.assumeAlignedOnly with
  | true => rfl
  | false =>
      simp only [Bool.false_eq_true, if_false]
      cases mode : st.op.mode with
      | stream buf =>
          by_cases head : srcOff = 0
          · subst head
            by_cases first : st.op.bounces = []
            · simp only [submitStreamBounce, first, ne_eq, not_true_eq_false, if_false, described,
                mode]
              rfl
            · simp only [submitStreamBounce, first, ne_eq, not_true_eq_false, if_false,
                not_false_eq_true, if_true]
              rfl
          · simp only [ne_eq, head, not_false_eq_true, if_true]
            rfl
      | async =>
          simp only [submitHostBounce]
          cases st.op.bounceBuf <|> dev.bufAlloc with
          | none => rfl
          | some buf =>
              simp only [described, mode]
              exact (Submit.bind_ok _).symm

theorem submitReadMiddleLoop_eq (c : ReadCursor) (middleLbas fuel lbasDone : Nat) (st : ReadState) :
    submitReadMiddleLoop d dev c middleLbas fuel lbasDone st =
      runItems d dev (planMiddleLoop d c middleLbas fuel lbasDone) st := by
  induction fuel generalizing lbasDone st with
  | zero =>
      rw [submitReadMiddleLoop, planMiddleLoop]
      split <;> rfl
  | succ fuel ih =>
      rw [submitReadMiddleLoop, planMiddleLoop]
      by_cases more : lbasDone < middleLbas
      · simp only [if_pos more, runItems, runItem, submitChunk]
        cases dev.takes st.issued.length with
        | false => rfl
        | true =>
            simp only [if_true, Submit.ok_bind]
            exact ih _ _
      · simp only [if_neg more]
        rfl

theorem submitReadMiddle_eq (c : ReadCursor) (middleLbas : Nat) (st : ReadState) :
    submitReadMiddle d dev c middleLbas st =
      runItems d dev (planMiddle d c middleLbas) st >>= fun st => .ok (c.pass d middleLbas, st) := by
  rw [submitReadMiddle, submitReadMiddleLoop_eq]
  rfl

theorem submitHead_eq (r : Span) (e : Extent) (spanStart spanEnd : Nat) (st : ReadState) :
    submitHead d dev r e spanStart spanEnd st =
      runItems d dev (planHead d r e spanStart spanEnd).1 st >>= fun st =>
        .ok ((planHead d r e spanStart spanEnd).2, st) := by
  simp only [submitHead, planHead]
  split
  · split
    · rfl
    · simp only [runItems, runItem, Submit.bind_ok]
      rfl
  · rfl

theorem submitBody_eq (c : ReadCursor) (st : ReadState) :
    submitBody d dev c st = runItems d dev (planBody d c) st := by
  simp only [submitBody, planBody, runItems_append]
  have tail : ∀ (past : ReadCursor) (tailBytes : Nat) (st : ReadState),
      (if tailBytes ≠ 0 then submitPartial d dev past.absDst past.curSlba 0 tailBytes st
        else (pure st : Submit ReadState)) =
      runItems d dev (if tailBytes ≠ 0 then [.partialLba past.absDst past.curSlba 0 tailBytes] else [])
        st := by
    intro past tailBytes st
    split
    · simp only [runItems, runItem, Submit.bind_ok]
    · rfl
  split
  · rw [submitReadMiddle_eq, Submit.bind_assoc]
    congr 1
    funext st'
    exact tail _ _ st'
  · exact tail _ _ st

/-- **The extent loop is its plan.** -/
theorem submitExtents_eq (r : Span) (extents : List Extent) (st : ReadState) :
    submitExtents d dev r extents st = runItems d dev (planExtents d r extents) st := by
  induction extents generalizing st with
  | nil => rfl
  | cons e rest ih =>
      rw [submitExtents, planExtents]
      split
      · rfl
      · simp only
        split
        · exact ih st
        · rw [runItems_append, planSpan, runItems_append, submitSpan, submitHead_eq,
            Submit.bind_assoc, Submit.bind_assoc, Submit.bind_assoc]
          congr 1
          funext st'
          simp only [Submit.ok_bind, submitBody_eq]
          congr 1
          funext st''
          exact ih st''

/-- **`start_read_op` leaves with an error or runs its plan.** -/
theorem startReadOp_plan (st : ReadState) :
    startReadOp d dev st = match planRead d dev st.op with
      | .error e => .out (st.fail e)
      | .ok items => runItems d dev items st := by
  simp only [startReadOp, planRead]
  split
  · rfl
  · split
    · rfl
    · split
      · rfl
      · cases resolveExtents dev with
        | error rc => rfl
        | ok extents => exact submitExtents_eq d dev _ extents st

/-! ## Where a plan writes -/

/-- The run of `n` bytes lies in the destination of the request. -/
def Span.Holds (r : Span) (p : Ptr Space) (n : Nat) : Prop :=
  p.space = .user ∧ r.dstBase.addr ≤ p.addr ∧
    p.addr + n ≤ r.dstBase.addr + (r.reqEnd - r.reqStart : Nat)

/-- The item moves data to the destination of the request, through the given bounce
buffer if at all. -/
def Item.Into (d : Driver) (r : Span) (buf : Option Nat) : Item → Prop
  | .chunk _ nlb dst => r.Holds dst ((nlb + 1) * d.lbaSize)
  | .partialLba absDst _ _ nbytes => r.Holds absDst nbytes
  | .bounceRead b absDst _ srcOff nbytes =>
    r.Holds absDst nbytes ∧ buf = some b ∧ srcOff + nbytes ≤ d.lbaSize
  | _ => True

variable {d} {r : Span} {buf : Option Nat}

theorem planMiddleLoop_into {c : ReadCursor} {middleLbas : Nat}
    (chunks : 0 < d.mdtsNbytes >>> d.lbaShift) (inside : r.Holds c.absDst (middleLbas * d.lbaSize))
    (fuel lbasDone : Nat) :
    ∀ item ∈ planMiddleLoop d c middleLbas fuel lbasDone, item.Into d r buf := by
  induction fuel generalizing lbasDone with
  | zero =>
      intro item member
      rw [planMiddleLoop] at member
      split at member
      · rw [List.mem_singleton.mp member]
        trivial
      · cases member
  | succ fuel ih =>
      intro item member
      rw [planMiddleLoop] at member
      split at member
      · rename_i more
        rcases List.mem_cons.mp member with rfl | later
        · -- The 16 bits of the block count hold it.
          obtain ⟨user, low, high⟩ := inside
          have limit : nvmeMaxNlb = 65536 := rfl
          generalize some' : min (min (middleLbas - lbasDone) (d.mdtsNbytes >>> d.lbaShift))
            nvmeMaxNlb = chunkLbas
          have count : (chunkLbas + 65535) % 65536 + 1 = chunkLbas := by omega
          have bytes : (lbasDone + chunkLbas) * d.lbaSize ≤ middleLbas * d.lbaSize :=
            Nat.mul_le_mul_right _ (by omega)
          rw [Nat.add_mul] at bytes
          refine ⟨user, ?_, ?_⟩
          · rw [Ptr.add_addr]
            omega
          · rw [Ptr.add_addr, count]
            omega
        · exact ih _ item later
      · cases member

/-- What is left to read from a cursor goes to the destination of the request. -/
def ReadCursor.Inside (r : Span) (c : ReadCursor) : Prop := r.Holds c.absDst c.remaining

theorem planHead_into {e : Extent} {spanStart spanEnd : Nat} (user : r.dstBase.space = .user)
    (low : r.reqStart ≤ spanStart) (order : spanStart ≤ spanEnd) (high : spanEnd ≤ r.reqEnd) :
    (∀ item ∈ (planHead d r e spanStart spanEnd).1, item.Into d r buf) ∧
      (planHead d r e spanStart spanEnd).2.Inside r := by
  simp only [planHead]
  split
  · generalize some' : min (d.lbaSize - ((spanStart - e.fileOffset) &&& (d.lbaSize - 1)))
      (spanEnd - spanStart) = headBytes
    have past : r.Holds ((r.dstBase.add (spanStart - r.reqStart)).add headBytes)
        (spanEnd - spanStart - headBytes) := by
      refine ⟨user, ?_, ?_⟩ <;> simp only [Ptr.add_addr] <;> omega
    split
    · exact ⟨fun item member => by rw [List.mem_singleton.mp member]; trivial, past⟩
    · refine ⟨fun item member => ?_, past⟩
      rw [List.mem_singleton.mp member]
      refine ⟨user, ?_, ?_⟩ <;> simp only [Ptr.add_addr] <;> omega
  · refine ⟨fun item member => (by cases member), user, ?_, ?_⟩ <;> simp only [Ptr.add_addr] <;> omega

theorem planBody_into (power : d.lbaSize = 2 ^ d.lbaShift)
    (chunks : 0 < d.mdtsNbytes >>> d.lbaShift) {c : ReadCursor} (inside : c.Inside r) :
    ∀ item ∈ planBody d c, item.Into d r buf := by
  obtain ⟨user, low, high⟩ := inside
  intro item member
  simp only [planBody] at member
  have tail : c.remaining &&& (d.lbaSize - 1) ≤ c.remaining := Nat.and_le_left
  generalize c.remaining &&& (d.lbaSize - 1) = tailBytes at member tail
  have whole : ((c.remaining - tailBytes) >>> d.lbaShift) * d.lbaSize ≤ c.remaining - tailBytes := by
    rw [power, Nat.shiftRight_eq_div_pow]
    exact Nat.div_mul_le_self _ _
  generalize (c.remaining - tailBytes) >>> d.lbaShift = middleLbas at member whole
  rcases List.mem_append.mp member with middle | last
  · split at middle
    · exact planMiddleLoop_into chunks ⟨user, low, by omega⟩ _ _ item middle
    · cases middle
  · split at last
    · rw [List.mem_singleton.mp last]
      split
      · refine ⟨user, ?_, ?_⟩ <;> simp only [ReadCursor.pass, Ptr.add_addr] <;> omega
      · exact ⟨user, low, by omega⟩
    · cases last

theorem planExtents_into (power : d.lbaSize = 2 ^ d.lbaShift)
    (chunks : 0 < d.mdtsNbytes >>> d.lbaShift) (user : r.dstBase.space = .user)
    (extents : List Extent) : ∀ item ∈ planExtents d r extents, item.Into d r buf := by
  induction extents with
  | nil => exact fun item member => (by cases member)
  | cons e rest ih =>
      intro item member
      rw [planExtents] at member
      split at member
      · cases member
      · simp only at member
        split at member
        · exact ih item member
        · rename_i meets
          rcases List.mem_append.mp member with here | later
          · obtain ⟨head, past⟩ := @planHead_into d r buf e (max r.reqStart e.fileOffset)
              (min r.reqEnd e.fileEnd) user (by omega) (by omega) (by omega)
            rcases List.mem_append.mp here with first | body
            · exact head item first
            · exact planBody_into power chunks past item body
          · exact ih item later

/-- **A plan moves data to the destination of the request.** -/
theorem planRead_into (power : d.lbaSize = 2 ^ d.lbaShift) {op : FileOp} {items : List Item}
    (planned : planRead d dev op = .ok items) : ∀ item ∈ items, item.Into d op.span buf := by
  simp only [planRead] at planned
  split at planned
  · cases planned
  · split at planned
    · cases planned
    · rename_i chunks
      split at planned
      · cases planned
      · split at planned
        · cases planned
        · cases planned
          exact planExtents_into power (Nat.pos_of_ne_zero chunks) rfl _

end OpenDS.Aisio
