import OpenDS.Aisio.ReadTargets

/-!
# Two runs of a read

Two runs of a read that are told the same stay alike: they issue the same commands, fill
the same bounce slots and come to the same result, wherever their memories differ. They
leave the same bytes at an address of the caller's memory if they have found the same
bytes there, and what they copy out of the bounce buffer is what their commands have
read into it, not what an earlier read has left in it.

A stream read and an asynchronous one are alike as well, up to the completion, as long
as the stream read stages no more than the one partial LBA it can.
-/

set_option autoImplicit false

namespace OpenDS.Aisio

open OpenDS.Library ReadState

variable {d : Driver} {disk disk' : Nat → Nat → UInt8}

/-! ## Alike -/

/-- The read in another mode, with another bounce buffer, memory and descriptor. -/
def ReadState.twin (st : ReadState) (mode : FileOpMode) (buf : Option Nat)
    (mem : Memory Space UInt8) (desc : BounceCopy) : ReadState where
  op := { st.op with mode := mode, bounceBuf := buf }
  issued := st.issued
  inflight := st.inflight
  mem := mem
  desc := desc

section Fields

variable (st : ReadState) (mode : FileOpMode) (buf : Option Nat) (mem : Memory Space UInt8)
  (desc : BounceCopy)

@[simp] theorem twin_mode : (st.twin mode buf mem desc).op.mode = mode := rfl

@[simp] theorem twin_bounces : (st.twin mode buf mem desc).op.bounces = st.op.bounces := rfl

@[simp] theorem twin_bounceBuf : (st.twin mode buf mem desc).op.bounceBuf = buf := rfl

@[simp] theorem twin_mem : (st.twin mode buf mem desc).mem = mem := rfl

end Fields

/-- **The two reads have come equally far.** The second one is in the mode of the first,
or asynchronous, and if it has a bounce buffer it is that of the first. -/
structure Alike (st st' : ReadState) : Prop where
  twin : st' = st.twin st'.op.mode st'.op.bounceBuf st'.mem st'.desc
  mode : st'.op.mode = st.op.mode ∨ st'.op.mode = .async
  buffer : st'.op.bounceBuf = none ∨ st'.op.bounceBuf = st.op.lent none

/-- The two reads are of the same bytes: at the addresses of the caller's memory in the
region, and in what commands have read into the bounce buffer. -/
structure SameBytes (d : Driver) (region : Int → Prop) (st : ReadState)
    (mem : Memory Space UInt8) : Prop where
  user : ∀ a, region a → st.mem .user a = mem .user a
  staged : st.op.err = none → ∀ place c, st.issued[place]? = some c → c.callback = .bounce →
    place ∉ st.inflight → ∀ a, c.dst.Covers (commandBytes d c) c.dst.space a →
      st.mem c.dst.space a = mem c.dst.space a

/-- The answer and what is to be done next mean the same in two modes. -/
structure Modeless (st : ReadState) (sub : Option Submission) (a : Answer) : Prop where
  inside : (∀ cells getExtents, a ≠ .resolved cells getExtents) ∧ ∀ ok, a ≠ .copies ok
  straight : ∀ absDst slba srcOff nbytes rest,
    sub = some ⟨.partialLba absDst slba srcOff nbytes :: rest, false⟩ → srcOff = 0 ∧ st.op.bounces = []

/-! ## Small facts -/

theorem resolveExtentsLoop_congr {dev dev' : Device} (same : dev'.getExtents = dev.getExtents)
    (left attempt : Nat) :
    resolveExtentsLoop dev' left attempt = resolveExtentsLoop dev left attempt := by
  induction left generalizing attempt with
  | zero => rfl
  | succ left ih =>
      rw [resolveExtentsLoop, resolveExtentsLoop, same]
      split
      · split
        · exact ih _
        · rfl
      · rfl

/-- A plan depends on the request and the extents. -/
theorem planRead_congr {dev dev' : Device} (same : dev'.getExtents = dev.getExtents)
    {op op' : FileOp} (span : op'.span = op.span) (size : op'.size = op.size)
    (offset : op'.fileOffset = op.fileOffset) : planRead d dev' op' = planRead d dev op := by
  unfold planRead resolveExtents
  rw [span, size, offset, resolveExtentsLoop_congr same]

/-- Whether the copies succeed does not depend on the bytes. -/
theorem runBounceCopies_fst {dev dev' : Device} (same : dev'.copies = dev.copies) (i : Nat)
    (slots : List BounceSlot) (mem mem' : Memory Space UInt8) :
    (runBounceCopies dev' i slots mem').1 = (runBounceCopies dev i slots mem).1 := by
  induction slots generalizing i mem mem' with
  | nil => rfl
  | cons slot rest ih =>
      rw [runBounceCopies, runBounceCopies, same]
      split
      · exact ih _ _ _
      · rfl

/-- The same bytes stored twice leave the same bytes. -/
theorem blit_agree {mem mem' : Memory Space UInt8} {space : Space} {a : Int}
    (p : Ptr Space) (n : Nat) {data data' : Nat → UInt8} (same : mem space a = mem' space a)
    (bytes : ∀ k, k < n → data k = data' k) :
    mem.blit p n data space a = mem'.blit p n data' space a := by
  by_cases covered : p.Covers n space a
  · rw [Memory.blit_of_covers _ _ _ _ covered, Memory.blit_of_covers _ _ _ _ covered]
    obtain ⟨-, low, high⟩ := covered
    exact bytes _ (by omega)
  · rw [Memory.blit_of_not_covers _ _ _ _ covered, Memory.blit_of_not_covers _ _ _ _ covered]
    exact same

/-- The copies out of the same staged bytes leave the same bytes. -/
theorem runBounceCopies_agree {dev dev' : Device} (copies : dev'.copies = dev.copies)
    {region : Int → Prop} (i : Nat) (slots : List BounceSlot) {mem mem' : Memory Space UInt8}
    (same : ∀ a, region a → mem .user a = mem' .user a)
    (user : ∀ slot ∈ slots, slot.dst.space = .user ∧ slot.src.space ≠ .user)
    (staged : ∀ slot ∈ slots, ∀ k, k < slot.nbytes → mem.load slot.src k = mem'.load slot.src k) :
    ∀ a, region a →
      (runBounceCopies dev i slots mem).2 .user a = (runBounceCopies dev' i slots mem').2 .user a := by
  induction slots generalizing i mem mem' with
  | nil => exact same
  | cons slot rest ih =>
      rw [runBounceCopies, runBounceCopies, copies]
      split
      · have here := List.mem_cons_self (a := slot) (l := rest)
        have later : ∀ other ∈ rest, other ∈ slot :: rest := fun other => List.mem_cons_of_mem _
        refine ih (i + 1) (fun a inside => ?_) (fun other member => user other (later other member))
          fun other member k lt => ?_
        · exact blit_agree _ _ (same a inside) (staged slot here)
        · -- A copy to the caller's memory leaves the staged bytes alone.
          have apart : other.src.space ≠ slot.dst.space := by
            rw [(user slot here).1]
            exact (user other (later other member)).2
          simp only [Memory.load, Memory.copy, Memory.blit_of_space_ne _ _ _ _ apart]
          exact staged other (later other member) k lt
      · exact same

/-- The copies leave the bounce buffers alone. -/
theorem runBounceCopies_space {dev : Device} (i : Nat) (slots : List BounceSlot)
    {mem : Memory Space UInt8} (user : ∀ slot ∈ slots, slot.dst.space = .user) {space : Space}
    (other : space ≠ .user) (a : Int) : (runBounceCopies dev i slots mem).2 space a = mem space a := by
  induction slots generalizing i mem with
  | nil => rfl
  | cons slot rest ih =>
      rw [runBounceCopies]
      split
      · rw [ih (i + 1) fun later member => user later (List.mem_cons_of_mem _ member)]
        refine Memory.blit_of_space_ne _ _ _ _ ?_ a
        rw [user slot (List.mem_cons_self ..)]
        exact other
      · rfl

/-! ## The parts of the path -/

section Parts

variable {mode : FileOpMode} {buf : Option Nat} {mem : Memory Space UInt8} {desc : BounceCopy}
  {st : ReadState}

theorem Alike.of_twin (same : mode = st.op.mode ∨ mode = .async)
    (buffer : buf = none ∨ buf = st.op.lent none) : Alike st (st.twin mode buf mem desc) :=
  ⟨rfl, same, buffer⟩

theorem ask_twin (cells : Request) :
    (st.twin st.op.mode buf mem desc).ask cells = (st.ask cells).twin st.op.mode buf mem desc := by
  simp only [ReadState.ask, ReadState.twin]
  split <;> rfl

/-- The plan does not depend on mode, buffer and memory. -/
theorem begin_twin {dev dev' : Device} (same : dev'.getExtents = dev.getExtents) :
    ReadTask.begin d dev' (st.twin mode buf mem desc) =
      ⟨(ReadTask.begin d dev st).st.twin mode buf mem desc, (ReadTask.begin d dev st).sub⟩ := by
  have plan : planRead d dev' (dispatched (st.twin mode buf mem desc)).op =
      planRead d dev (dispatched st).op := planRead_congr same rfl rfl rfl
  unfold ReadTask.begin
  simp only [plan]
  split <;> rfl

/-- A partial LBA is entered in the two modes alike, into the same buffer. -/
theorem enterPartial_twin {alloc found : Option Nat} {srcOff nbytes : Nat}
    (asks : alloc = st.op.lent found) (modes : mode = st.op.mode ∨
      mode = .async ∧ srcOff = 0 ∧ st.op.bounces = [])
    (buffer : buf = none ∨ buf = st.op.lent none) :
    match enterPartial d alloc srcOff nbytes st with
    | .ok (b, st') => ∃ buf', (buf' = none ∨ buf' = st'.op.lent none) ∧
        enterPartial d alloc srcOff nbytes (st.twin mode buf mem desc) =
          .ok (b, st'.twin mode buf' mem desc)
    | .out st' => ∃ buf', (buf' = none ∨ buf' = st'.op.lent none) ∧
        enterPartial d alloc srcOff nbytes (st.twin mode buf mem desc) =
          .out (st'.twin mode buf' mem desc)
    | .spin => True := by
  -- The check at the head of `submit_bounce_read` knows nothing of modes and buffers.
  have checked : ∀ (b : Nat) (buf : Option Nat) (st : ReadState),
      (buf = none ∨ buf = st.op.lent none) →
      match checkBounce d b srcOff nbytes st with
      | .ok (b', st') => ∃ buf', (buf' = none ∨ buf' = st'.op.lent none) ∧
          checkBounce d b srcOff nbytes (st.twin mode buf mem desc) =
            .ok (b', st'.twin mode buf' mem desc)
      | .out st' => ∃ buf', (buf' = none ∨ buf' = st'.op.lent none) ∧
          checkBounce d b srcOff nbytes (st.twin mode buf mem desc) =
            .out (st'.twin mode buf' mem desc)
      | .spin => True := by
    intro b buf st buffer
    by_cases full : bounceSlots ≤ st.op.bounces.length ∨ d.lbaSize < srcOff + nbytes
    · simp only [checkBounce, if_pos full]
      exact ⟨buf, buffer, if_pos full⟩
    · simp only [checkBounce, if_neg full]
      exact ⟨buf, buffer, if_neg full⟩
  unfold enterPartial
  cases d.assumeAlignedOnly with
  | true => exact ⟨buf, buffer, rfl⟩
  | false =>
      simp only [Bool.false_eq_true, if_false]
      cases own : st.op.mode with
      | stream slot =>
          rcases modes with same | ⟨rfl, rfl, empty⟩
          · rw [own] at same
            subst same
            by_cases head : srcOff = 0
            · by_cases first : st.op.bounces = []
              · subst head
                simp only [twin_mode, twin_bounces, first, ne_eq, not_true_eq_false, if_false]
                exact checked slot buf st buffer
              · simp only [head, twin_mode, twin_bounces, first, ne_eq, not_true_eq_false, if_false,
                  not_false_eq_true, if_true]
                exact ⟨buf, buffer, rfl⟩
            · simp only [head, ne_eq, not_false_eq_true, if_true, twin_mode]
              exact ⟨buf, buffer, rfl⟩
          · have lent : ∀ found, st.op.lent found = some slot := fun found => by
              rw [FileOp.lent, own]
            have held : (buf <|> alloc) = some slot := by
              rw [asks, lent]
              rcases buffer with rfl | rfl
              · rfl
              · rw [lent]
                rfl
            have checked := checked slot (some slot) st (.inr (lent none).symm)
            simp only [empty, twin_mode, twin_bounceBuf, ne_eq, not_true_eq_false, if_false, held]
            exact checked
      | async =>
          have modeless : mode = .async := by
            rcases modes with same | ⟨same, -⟩
            · exact same.trans own
            · exact same
          subst modeless
          have lent : ∀ found, st.op.lent found = (st.op.bounceBuf <|> found) := fun found => by
            rw [FileOp.lent, own]
          have held : (buf <|> alloc) = (st.op.bounceBuf <|> alloc) := by
            rw [asks, lent]
            rcases buffer with rfl | rfl
            · cases st.op.bounceBuf <;> rfl
            · rw [lent]
              cases st.op.bounceBuf <;> rfl
          simp only [twin_mode, twin_bounceBuf, held]
          cases st.op.bounceBuf <|> alloc with
          | none => exact ⟨buf, buffer, rfl⟩
          | some b =>
              simp only
              exact checked b (some b)
                { st with op := { st.op with mode := .async, bounceBuf := some b } } (.inr rfl)

/-- A completion does the same in the two modes, but for the bytes. -/
theorem complete_twin {dev dev' : Device} (same : dev'.succeeds = dev.succeeds) (id : Nat) :
    complete d dev' (st.twin mode buf mem desc) id =
      (complete d dev st id).twin mode buf (complete d dev' (st.twin mode buf mem desc) id).mem desc := by
  simp only [complete, ReadState.twin, same]
  split
  · rename_i c outstanding logged
    cases callback : c.callback with
    | chunk => cases dev.succeeds id <;> rfl
    | bounce =>
        simp only [bounceCb]
        cases (!dev.succeeds id && st.op.err.isNone) <;> rfl
  · rfl

/-- The completion of a read comes to the same result on two memories. -/
theorem completeReadOp_twin {dev dev' : Device} (same : dev'.copies = dev.copies) :
    completeReadOp dev' (st.twin st.op.mode buf mem desc) =
      (completeReadOp dev st).twin st.op.mode buf
        (completeReadOp dev' (st.twin st.op.mode buf mem desc)).mem
        (completeReadOp dev' (st.twin st.op.mode buf mem desc)).desc := by
  cases own : st.op.mode with
  | stream slot =>
      simp only [completeReadOp, ReadState.twin, own]
  | async =>
      have copied := runBounceCopies_fst same 0 st.op.bounces st.mem mem
      cases err : st.op.err with
      | some e => simp only [completeReadOp, ReadState.twin, own, err, Option.isNone_some,
          Bool.false_eq_true, if_false]
      | none => simp only [completeReadOp, ReadState.twin, own, err, Option.isNone_none, if_true,
          copied]

/-- A command is taken in the two modes alike. -/
theorem takes_twin {item : Item} {st' : ReadState} (takes : item.Takes d st st') :
    ∃ desc', runItem d { obliging disk' with takes := fun _ => true } item
        (st.twin mode buf mem desc) = .ok (st'.twin mode buf mem desc') := by
  cases item with
  | chunk slba nlb dst =>
      cases takes
      exact ⟨desc, rfl⟩
  | bounceRead b absDst slba srcOff nbytes =>
      cases takes
      refine ⟨(describe mode absDst (st.twin mode buf mem desc)).desc, ?_⟩
      cases st.op.mode <;> cases mode <;> rfl
  | _ => exact takes.elim

end Parts

/-! ## Every answer -/

section Step

variable {st st' twin : ReadState} {sub sub' : Option Submission} {a : Answer}

/-- **Alike reads that are told the same stay alike.** -/
theorem Alike.step (alike : Alike st twin) (effect : TaskEffect d disk ⟨st, sub⟩ a ⟨st', sub'⟩)
    (asks : ∀ alloc, a = .enter alloc → ∃ found, alloc = st.op.lent found)
    (modes : twin.op.mode = st.op.mode ∨ Modeless st sub a) :
    ∃ twin', (readAlone d disk').step ⟨twin, sub⟩ a = some ⟨twin', sub'⟩ ∧ Alike st' twin' ∧
      twin'.op.mode = twin.op.mode := by
  obtain ⟨same, mode, buffer⟩ := alike
  generalize twin.op.mode = m, twin.op.bounceBuf = buf, twin.mem = mem, twin.desc = desc
    at same mode buffer modes ⊢
  subst same
  -- What the two need in order to begin.
  have begun : ∀ cells getExtents, a = .resolved cells getExtents → m = st.op.mode := by
    rintro cells getExtents rfl
    exact modes.resolve_right fun modeless => modeless.inside.1 _ _ rfl
  have resolved : ∀ cells getExtents, sub = none → st.op.state = .pending →
      m = st.op.mode →
      ∃ twin', (readAlone d disk').step ⟨st.twin m buf mem desc, sub⟩ (.resolved cells getExtents) =
          some ⟨twin', (ReadTask.begin d { obliging disk with getExtents := getExtents }
            (st.ask cells)).sub⟩ ∧
        Alike (ReadTask.begin d { obliging disk with getExtents := getExtents } (st.ask cells)).st
          twin' ∧ twin'.op.mode = m := by
    rintro cells getExtents rfl pending rfl
    obtain ⟨modeSame, held, -⟩ := @ask_frame st cells
    have kept : ∀ dev, (ReadTask.begin d dev (st.ask cells)).st.op.mode = st.op.mode ∧
        (ReadTask.begin d dev (st.ask cells)).st.op.lent none = st.op.lent none := by
      intro dev
      have lent : (st.ask cells).op.lent none = st.op.lent none := by
        simp only [FileOp.lent, modeSame, held]
      unfold ReadTask.begin
      simp only
      split <;> exact ⟨modeSame, lent⟩
    refine ⟨(ReadTask.begin d { obliging disk with getExtents := getExtents }
        (st.ask cells)).st.twin st.op.mode buf mem desc, ?_,
      .of_twin (.inl (kept _).1.symm) (by rw [(kept _).2]; exact buffer), rfl⟩
    have ready : (none : Option Submission) = none ∧
        (st.twin st.op.mode buf mem desc).op.state = .pending := ⟨rfl, pending⟩
    refine (if_pos ready).trans (congrArg some ?_)
    rw [ask_twin]
    exact begin_twin rfl
  -- What is entered, and how.
  have enters : ∀ alloc absDst slba srcOff nbytes rest,
      sub = some ⟨.partialLba absDst slba srcOff nbytes :: rest, false⟩ → a = .enter alloc →
      match enterPartial d alloc srcOff nbytes st with
      | .ok (b, st') => ∃ buf', (buf' = none ∨ buf' = st'.op.lent none) ∧
          enterPartial d alloc srcOff nbytes (st.twin m buf mem desc) =
            .ok (b, st'.twin m buf' mem desc)
      | .out st' => ∃ buf', (buf' = none ∨ buf' = st'.op.lent none) ∧
          enterPartial d alloc srcOff nbytes (st.twin m buf mem desc) =
            .out (st'.twin m buf' mem desc)
      | .spin => True := by
    intro alloc absDst slba srcOff nbytes rest submitting told
    obtain ⟨found, asked⟩ := asks alloc told
    refine enterPartial_twin asked ?_ buffer
    rcases modes with same | modeless
    · exact .inl same
    · rcases mode with same | async
      · exact .inl same
      · exact .inr ⟨async, modeless.straight _ _ _ _ _ submitting⟩
  cases effect with
  | fails cells getExtents e outside pending failed =>
      have out := resolved cells getExtents outside pending (begun cells getExtents rfl)
      simp only [ReadTask.begin, failed] at out
      exact out
  | planned cells getExtents items outside pending planned =>
      have out := resolved cells getExtents outside pending (begun cells getExtents rfl)
      simp only [ReadTask.begin, planned] at out
      exact out
  | entered alloc absDst slba srcOff nbytes rest b st' submitting entered =>
      cases submitting
      have enters := enters alloc absDst slba srcOff nbytes rest rfl rfl
      rw [entered] at enters
      obtain ⟨buf', buffer', out⟩ := enters
      have kept : st'.op.mode = st.op.mode := by
        cases (enterPartial_ok entered).1 <;> rfl
      refine ⟨st'.twin m buf' mem desc, ?_, .of_twin (by rw [kept]; exact mode) buffer', rfl⟩
      simp only [readAlone, ReadTask.step, out]
  | barred alloc absDst slba srcOff nbytes rest st' submitting barred =>
      cases submitting
      have enters := enters alloc absDst slba srcOff nbytes rest rfl rfl
      rw [barred] at enters
      obtain ⟨buf', buffer', out⟩ := enters
      have kept : st'.op.mode = st.op.mode := by
        obtain ⟨e, held, rfl, -⟩ := enterPartial_out barred
        rfl
      refine ⟨st'.twin m buf' mem desc, ?_, .of_twin (by rw [kept]; exact mode) buffer', rfl⟩
      simp only [readAlone, ReadTask.step, out]
  | retry busy item rest submitting waits =>
      cases submitting
      refine ⟨st.twin m buf mem desc, ?_, .of_twin mode buffer, rfl⟩
      simp only [readAlone, ReadTask.step, waits, if_true, retryItem_eq]
  | arrived place ok outstanding poking =>
      have frame := complete_frame d { obliging disk with succeeds := fun _ => ok } st place
      have same := @complete_twin d m buf mem desc st
        { obliging disk with succeeds := fun _ => ok } { obliging disk' with succeeds := fun _ => ok }
        rfl place
      refine ⟨complete d { obliging disk' with succeeds := fun _ => ok } (st.twin m buf mem desc) place,
        if_pos ⟨outstanding, poking⟩, ?_, ?_⟩
      · rw [same]
        refine .of_twin (by rw [frame.mode]; exact mode) ?_
        simp only [FileOp.lent, frame.mode, frame.bounceBuf]
        exact buffer
      · rw [same]
        rfl
  | poked todo submitting =>
      cases submitting
      exact ⟨st.twin m buf mem desc, rfl, .of_twin mode buffer, rfl⟩
  | taken item rest st' submitting takes =>
      cases submitting
      obtain ⟨desc', out⟩ := @takes_twin d disk' m buf mem desc st item st' takes
      have kept : st'.op.mode = st.op.mode ∧ st'.op.bounceBuf = st.op.bounceBuf := by
        cases item with
        | chunk slba nlb dst =>
            cases takes
            exact ⟨rfl, rfl⟩
        | bounceRead b absDst slba srcOff nbytes =>
            cases takes
            rw [describe_op]
            exact ⟨rfl, rfl⟩
        | _ => exact takes.elim
      refine ⟨st'.twin m buf mem desc', ?_, .of_twin (by rw [kept.1]; exact mode) ?_, rfl⟩
      · cases item with
        | partialLba => exact takes.elim
        | _ => simp only [readAlone, ReadTask.step, out, ReadTask.goOn]
      · simp only [FileOp.lent, kept]
        exact buffer
  | refused item rest submitting waits =>
      cases submitting
      refine ⟨(st.twin m buf mem desc).fail .deviceDriverError, ?_, .of_twin mode buffer, rfl⟩
      cases item with
      | chunk slba nlb dst =>
          have undone := addChunks_cancel (st.twin m buf mem desc)
          exact congrArg (fun st : ReadState => some (ReadTask.mk (st.fail .deviceDriverError) none)) undone
      | bounceRead => rfl
      | _ => cases waits
  | rejected takes e rest submitting =>
      cases submitting
      exact ⟨(st.twin m buf mem desc).fail e, rfl, .of_twin mode buffer, rfl⟩
  | submitted submitting =>
      cases submitting
      exact ⟨st.twin m buf mem desc, rfl, .of_twin mode buffer, rfl⟩
  | reaped ok outside state chunks bounces =>
      have same : m = st.op.mode := modes.resolve_right fun modeless => modeless.inside.2 _ rfl
      subst same
      obtain ⟨n, op⟩ := completeReadOp_op { obliging disk with copies := ok } st
      have same := @completeReadOp_twin buf mem desc st { obliging disk with copies := ok }
        { obliging disk' with copies := ok } rfl
      refine ⟨completeReadOp { obliging disk' with copies := ok } (st.twin st.op.mode buf mem desc),
        ?_, ?_, ?_⟩
      · cases outside
        exact if_pos ⟨rfl, state, chunks, bounces⟩
      · rw [same]
        refine .of_twin (.inl (completeReadOp_mode _).symm) ?_
        rw [op]
        exact buffer
      · rw [same]
        rfl

variable {region : Int → Prop} {mem : Memory Space UInt8}

/-- Bytes that stay where they are stay the same, also with more commands outstanding. -/
theorem SameBytes.keep (same : SameBytes d region st mem) (bytes : st'.mem = st.mem)
    (err : st'.op.err = none → st.op.err = none)
    (log : ∀ place (c : Command), st'.issued[place]? = some c → place ∉ st'.inflight →
      st.issued[place]? = some c ∧ place ∉ st.inflight) : SameBytes d region st' mem := by
  refine ⟨fun a inside => ?_, fun fine place c logged arrived bounce a covered => ?_⟩
  · rw [bytes]
    exact same.user a inside
  · obtain ⟨old, before⟩ := log place c logged bounce
    rw [bytes]
    exact same.staged (err fine) place c old arrived before a covered

/-- A callback clears no error, and that of a failed command sets one. -/
theorem callback_err {c : Command} {ok : Bool} {op : FileOp}
    (fine : (match c.callback with
      | .chunk => chunkCb d c ok op
      | .bounce => bounceCb ok op).err = none) : ok = true ∧ op.err = none := by
  cases callback : c.callback with
  | chunk =>
      rw [callback] at fine
      cases ok with
      | true => exact ⟨rfl, fine⟩
      | false => cases fine
  | bounce =>
      rw [callback] at fine
      cases ok with
      | true => exact ⟨rfl, fine⟩
      | false =>
          cases err : op.err with
          | none => simp [bounceCb, err] at fine
          | some e => simp [bounceCb, err] at fine

/-- A command that completes in both reads leaves the same bytes. -/
theorem SameBytes.arrive {ok : Bool} {place : Nat} {twin : ReadState}
    (same : SameBytes d region st twin.mem) (inv : TaskInv d ⟨st, sub⟩) (alike : Alike st twin)
    (outstanding : place ∈ st.inflight) :
    SameBytes d region (complete d { obliging disk with succeeds := fun _ => ok } st place)
      (complete d { obliging disk with succeeds := fun _ => ok } twin place).mem := by
  obtain ⟨c, logged⟩ : ∃ c, st.issued[place]? = some c :=
    ⟨_, List.getElem?_eq_getElem (inv.logged place outstanding)⟩
  have mem := complete_mem (d := d) { obliging disk with succeeds := fun _ => ok } outstanding logged
  have mem' : (complete d { obliging disk with succeeds := fun _ => ok } twin place).mem =
      if ok then twin.mem.blit c.dst (commandBytes d c) (commandData d (obliging disk) c)
      else twin.mem := by
    refine complete_mem (d := d) { obliging disk with succeeds := fun _ => ok } ?_ ?_ <;>
      rw [alike.twin] <;> assumption
  have frame := complete_frame d { obliging disk with succeeds := fun _ => ok } st place
  -- The same bytes are stored over bytes that agree.
  have agree : ∀ space a, st.mem space a = twin.mem space a →
      (complete d { obliging disk with succeeds := fun _ => ok } st place).mem space a =
        (complete d { obliging disk with succeeds := fun _ => ok } twin place).mem space a := by
    intro space a before
    rw [mem, mem']
    cases ok with
    | true => exact blit_agree _ _ before fun _ _ => rfl
    | false => exact before
  refine ⟨fun a inside => agree _ _ (same.user a inside), fun fine at' c' logged' bounce arrived a
    covered => ?_⟩
  rw [frame.issued] at logged'
  rcases complete_cases d { obliging disk with succeeds := fun _ => ok } st place with
    still | ⟨c'', -, there, changed⟩
  · rw [still] at fine arrived ⊢
    have before := same.staged fine at' c' logged' bounce arrived a covered
    have now := agree _ _ before
    rwa [still] at now
  · cases there.symm.trans logged
    have fine' := fine
    rw [changed] at fine'
    obtain ⟨rfl, none⟩ := callback_err fine'
    by_cases here : at' = place
    · subst here
      cases logged'.symm.trans logged
      rw [mem, mem']
      simp only [if_true]
      rw [Memory.blit_of_covers _ _ _ _ covered, Memory.blit_of_covers _ _ _ _ covered]
      rfl
    · refine agree _ _ (same.staged none at' c' logged' bounce (fun there => arrived ?_) a covered)
      rw [changed]
      exact (List.mem_erase_of_ne here).mpr there

/-- The copies out of the bounce buffer move the same bytes in both reads. -/
theorem SameBytes.reap {ok : Nat → Bool} {twin : ReadState}
    (same : SameBytes d region st twin.mem) (inv : TaskInv d ⟨st, sub⟩) (alike : Alike st twin)
    (mode : twin.op.mode = st.op.mode) (inFlight : st.op.state = .inFlight)
    (idle : st.inflight = []) :
    SameBytes d region (completeReadOp { obliging disk with copies := ok } st)
      (completeReadOp { obliging disk with copies := ok } twin).mem := by
  have busy : st.op.state ≠ .pending := by
    rw [inFlight]
    simp
  have slots : ∀ slot ∈ st.op.bounces, slot.dst.space = .user ∧ slot.src.space ≠ .user := by
    intro slot member
    obtain ⟨dst, c, issued, bounce, space, -⟩ := inv.bounces busy slot member
    refine ⟨dst.1, ?_⟩
    have targets := inv.issued c issued
    rw [Command.Targets, bounce] at targets
    obtain ⟨b, -, into⟩ := targets
    rw [space, into]
    simp
  have staged : st.op.err = none → ∀ slot ∈ st.op.bounces, ∀ k, k < slot.nbytes →
      st.mem.load slot.src k = twin.mem.load slot.src k := by
    intro fine slot member k lt
    obtain ⟨-, c, issued, bounce, space, low, high⟩ := inv.bounces busy slot member
    obtain ⟨place, logged⟩ := List.getElem?_of_mem issued
    rw [Memory.load, Memory.load, space]
    refine same.staged fine place c logged bounce (by rw [idle]; simp) _ ⟨rfl, ?_, ?_⟩ <;> omega
  have err : twin.op.err = st.op.err := congrArg (fun st => st.op.err) alike.twin
  have bounces : twin.op.bounces = st.op.bounces := congrArg (fun st => st.op.bounces) alike.twin
  obtain ⟨n, op⟩ := completeReadOp_op { obliging disk with copies := ok } st
  rw [completeReadOp_mem _ twin, mode, err, bounces]
  refine ⟨fun a inside => ?_, fun fine place c logged bounce _ a covered => ?_⟩
  · rw [completeReadOp_mem]
    split
    · rename_i copies
      exact runBounceCopies_agree rfl 0 _ same.user slots (staged copies.2) a inside
    · exact same.user a inside
  · rw [op] at fine
    rw [completeReadOp_issued] at logged
    have before := same.staged fine place c logged bounce (by rw [idle]; simp) a covered
    -- The copies leave the buffer alone.
    have targets := inv.issued c (List.mem_of_getElem? logged)
    rw [Command.Targets, bounce] at targets
    obtain ⟨b, -, into⟩ := targets
    have other : c.dst.space ≠ .user := by
      rw [into]
      simp
    have user : ∀ slot ∈ st.op.bounces, slot.dst.space = .user := fun slot member =>
      (slots slot member).1
    rw [completeReadOp_mem]
    split
    · rw [runBounceCopies_space 0 _ user other, runBounceCopies_space 0 _ user other]
      exact before
    · exact before

/-- **Alike reads of the same bytes that are told the same leave the same bytes.** -/
theorem SameBytes.step {twin twin' : ReadState} {sub'' : Option Submission}
    (same : SameBytes d region st twin.mem) (inv : TaskInv d ⟨st, sub⟩) (alike : Alike st twin)
    (whole : ∀ ok, a = .copies ok → twin.op.mode = st.op.mode ∧ st.inflight = [])
    (effect : TaskEffect d disk ⟨st, sub⟩ a ⟨st', sub'⟩)
    (other : TaskEffect d disk ⟨twin, sub⟩ a ⟨twin', sub''⟩) :
    SameBytes d region st' twin'.mem := by
  -- A step that moves no bytes.
  have still : (∀ place ok, a ≠ .arrived place ok) → (∀ ok, a ≠ .copies ok) →
      (st'.op.err = none → st.op.err = none) →
      (∀ place (c : Command), st'.issued[place]? = some c → place ∉ st'.inflight →
        st.issued[place]? = some c ∧ place ∉ st.inflight) → SameBytes d region st' twin'.mem := by
    intro arrives reaps err log
    have bytes : st'.mem = st.mem := effect.mem_eq arrives reaps
    have bytes' : twin'.mem = twin.mem := other.mem_eq arrives reaps
    rw [bytes']
    exact same.keep bytes err log
  have empty : ∀ cells, st.op.state = .pending → ∀ (place : Nat) (c : Command),
      (st.ask cells).issued[place]? ≠ some c := by
    intro cells pending place c logged
    rw [(ask_frame cells).2.2.2.1, (inv.fresh pending).1] at logged
    cases logged
  cases effect with
  | fails cells getExtents e outside pending failed =>
      refine still (by simp) (by simp) (fun fine => by cases fine) fun place c logged _ => ?_
      exact absurd logged (empty cells pending place c)
  | planned cells getExtents items outside pending planned =>
      have bytes : twin'.mem = twin.mem := other.mem_eq (by simp) (by simp)
      refine ⟨fun a inside => ?_, fun _ place c logged => absurd logged (empty cells pending place c)⟩
      rw [bytes]
      exact (congrFun (congrFun (ask_frame cells).2.2.2.2.2 .user) a).trans (same.user a inside)
  | entered alloc absDst slba srcOff nbytes rest buf st' submitting entered =>
      refine still (by simp) (by simp) ?_ ?_ <;> cases (enterPartial_ok entered).1 <;>
        first
        | exact fun fine => fine
        | exact fun place c logged arrived => ⟨logged, arrived⟩
  | barred alloc absDst slba srcOff nbytes rest st' submitting barred =>
      obtain ⟨e, held, rfl, -⟩ := enterPartial_out barred
      exact still (by simp) (by simp) (fun fine => by cases fine)
        fun place c logged arrived => ⟨logged, arrived⟩
  | arrived place ok outstanding poking =>
      cases other with
      | arrived => exact same.arrive inv alike outstanding
  | taken item rest st' submitting takes =>
      -- The command that is new is outstanding.
      have new : ∀ (x : Command) (place : Nat) (c : Command), (st.issued ++ [x])[place]? = some c →
          place ∉ st.inflight ++ [st.issued.length] →
          st.issued[place]? = some c ∧ place ∉ st.inflight := by
        intro x place c logged arrived
        rw [List.mem_append, List.mem_singleton, not_or] at arrived
        have lt : place < (st.issued ++ [x]).length := (List.getElem?_eq_some_iff.mp logged).1
        rw [List.length_append, List.length_singleton] at lt
        rw [List.getElem?_append_left (by omega)] at logged
        exact ⟨logged, arrived.1⟩
      cases item with
      | chunk slba nlb dst =>
          cases takes
          exact still (by simp) (by simp) (fun fine => fine) (new _)
      | bounceRead buf absDst slba srcOff nbytes =>
          cases takes
          refine still (by simp) (by simp) (fun fine => ?_) ?_
          · rw [describe_op] at fine
            exact fine
          · rw [describe_issued, describe_inflight]
            exact new _
      | _ => exact takes.elim
  | reaped ok outside state chunks bounces =>
      cases other with
      | reaped => exact same.reap inv alike (whole ok rfl).1 state (whole ok rfl).2
  | retry | poked | submitted =>
      exact still (by simp) (by simp) (fun fine => fine) fun place c logged arrived => ⟨logged, arrived⟩
  | refused | rejected =>
      exact still (by simp) (by simp) (fun fine => by cases fine)
        fun place c logged arrived => ⟨logged, arrived⟩

end Step

end OpenDS.Aisio
