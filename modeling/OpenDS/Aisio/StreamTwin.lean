import OpenDS.Aisio.ReadTwin
import OpenDS.Aisio.BounceSlots

/-!
# A stream read and an asynchronous one

A stream read that starts at an LBA boundary stages one partial LBA at most, the last one
(`Straight`), and its descriptor says where that goes (`Described`). So an asynchronous read
that is told the same goes the same way (`Shadows`), comes to the same result, and copies on
the host what the descriptor has the stream copy (`Shadows.reap`).
-/

set_option autoImplicit false

namespace OpenDS.Aisio

open OpenDS.Library ReadState

variable {d : Driver} {disk disk' : Nat → Nat → UInt8}

/-! ## What a stream read stages -/

/-- A partial LBA that is staged from its start. -/
def Item.FromBoundary : Item → Prop
  | .partialLba _ _ srcOff _ => srcOff = 0
  | .bounceRead _ _ _ srcOff _ => srcOff = 0
  | _ => True

/-- What is left of the plan. -/
def ReadTask.todo (t : ReadTask) : List Item := (t.sub.map Submission.todo).getD []

/-- **What the read stages starts at LBA boundaries, and is one partial LBA at most.** -/
structure Straight (t : ReadTask) : Prop where
  boundary : ∀ item ∈ t.todo, item.FromBoundary
  one : (t.todo.filter Item.stages).length + t.st.op.bounces.length ≤ 1

/-- The descriptor says where what is staged comes from and where it goes. -/
def Described (st : ReadState) : Prop :=
  ∀ slot ∈ st.op.bounces, st.desc.dst = slot.dst ∧ st.desc.src = slot.src

/-- The stream copies from a bounce buffer to the caller's memory, if anything. -/
structure BounceCopy.Outward (desc : BounceCopy) : Prop where
  dst : 0 < desc.nBytes → desc.dst.space = .user
  src : 0 < desc.nBytes → desc.src.space ≠ .user

theorem resolveExtentsLoop_ok {dev : Device} {extents : List Extent} {left attempt : Nat}
    (resolved : resolveExtentsLoop dev left attempt = .ok extents) :
    ∃ i, dev.getExtents i = .ok extents := by
  induction left generalizing attempt with
  | zero => cases resolved
  | succ left ih =>
      rw [resolveExtentsLoop] at resolved
      split at resolved
      · split at resolved
        · exact ih resolved
        · cases resolved
      · rename_i found
        exact ⟨attempt, found.trans resolved⟩

/-- A request that starts at an LBA boundary stages no more than the tail of its last extent. -/
theorem planExtents_straight {extents : List Extent} {r : Span} (geo : d.Geometry)
    (lay : Layout d extents) (aligned : d.lbaSize ∣ r.reqStart) (staging : d.assumeAlignedOnly = false) :
    (∀ item ∈ planExtents d r extents, item.FromBoundary) ∧
      ((planExtents d r extents).filter Item.stages).length ≤ 1 := by
  obtain ⟨heads, tails, staged, shape, -⟩ := planExtents_staged (r := r) geo lay
  -- A head would be refused, but nothing is.
  have allowed : ¬ ∃ item ∈ planExtents d r extents, item.Refused d (.stream 0) := by
    intro refused
    obtain ⟨e, member, -, off | ⟨only, -⟩⟩ :=
      (planExtents_refused_iff geo (.inr (by decide)) lay).mp refused
    · refine off ?_
      rcases Nat.le_total r.reqStart e.fileOffset with first | first
      · rw [Nat.max_eq_right first]
        exact lay.aligned e member
      · rwa [Nat.max_eq_left first]
    · rw [staging] at only
      cases only
  have headless : heads = [] := by
    by_contra some
    obtain ⟨item, member⟩ := List.exists_mem_of_ne_nil _ some
    have planned : item ∈ (planExtents d r extents).filter Item.stages := by
      rw [staged]
      exact List.mem_append_left _ member
    exact allowed ⟨item, (List.mem_filter.mp planned).1, (shape.head item member).refused (by decide)⟩
  rw [headless, List.nil_append] at staged
  refine ⟨fun item member => ?_, staged ▸ shape.one_tail⟩
  by_cases stages : item.stages = true
  · have tail : item ∈ tails := staged ▸ List.mem_filter.mpr ⟨member, stages⟩
    have isTail := shape.tail item tail
    cases item with
    | partialLba absDst slba srcOff nbytes => exact isTail.1
    | bounceRead => exact isTail.elim
    | _ => trivial
  · cases item with
    | partialLba | bounceRead => exact absurd rfl stages
    | _ => trivial

section Steps

variable {st st' : ReadState} {sub sub' : Option Submission} {a : Answer} {t t' : ReadTask}

/-- The read that is planned from an LBA boundary is straight. -/
theorem Straight.begin {dev : Device} (geo : d.Geometry) (staging : d.assumeAlignedOnly = false)
    (aligned : d.lbaSize ∣ u64 st.op.fileOffset)
    (laid : ∀ i extents, dev.getExtents i = .ok extents → Layout d extents) :
    Straight (ReadTask.begin d dev st) := by
  unfold ReadTask.begin
  simp only
  split
  · exact ⟨List.forall_mem_nil _, Nat.zero_le _⟩
  · rename_i items planned
    unfold planRead at planned
    split at planned
    · cases planned
    split at planned
    · cases planned
    split at planned
    · cases planned
    split at planned
    · cases planned
    · rename_i extents resolved
      obtain ⟨i, found⟩ := resolveExtentsLoop_ok resolved
      cases planned
      have plan := planExtents_straight (r := (dispatched st).op.span) geo (laid i extents found) aligned
        staging
      exact ⟨plan.1, plan.2⟩

theorem Straight.mono (straight : Straight t) (todo : t'.todo.Sublist t.todo)
    (bounces : t'.st.op.bounces = t.st.op.bounces) : Straight t' := by
  refine ⟨fun item member => straight.boundary item (todo.subset member), ?_⟩
  rw [bounces]
  have fewer := (todo.filter Item.stages).length_le
  have one := straight.one
  omega

/-- **Every answer keeps a read straight.** -/
theorem Straight.step (straight : Straight t) (effect : TaskEffect d disk t a t')
    (unplanned : ∀ cells getExtents, a ≠ .resolved cells getExtents) : Straight t' := by
  -- The read leaves with what it has staged.
  have out : ∀ {st' : ReadState}, st'.op.bounces = t.st.op.bounces → Straight ⟨st', none⟩ :=
    fun same => straight.mono (List.nil_sublist _) same
  have todo : ∀ {items poking}, t.sub = some ⟨items, poking⟩ → t.todo = items := by
    intro items poking submitting
    rw [ReadTask.todo, submitting]
    rfl
  cases effect with
  | fails cells getExtents => exact absurd rfl (unplanned cells getExtents)
  | planned cells getExtents => exact absurd rfl (unplanned cells getExtents)
  | entered alloc absDst slba srcOff nbytes rest buf st submitting entered =>
      have bounces : st.op.bounces = t.st.op.bounces := by
        cases (enterPartial_ok entered).1 <;> rfl
      obtain ⟨boundary, one⟩ := straight
      rw [todo submitting] at boundary one
      refine ⟨fun item member => ?_, ?_⟩
      · rcases List.mem_cons.mp member with rfl | later
        · exact boundary (.partialLba absDst slba srcOff nbytes) (List.mem_cons_self ..)
        · exact boundary item (List.mem_cons_of_mem _ later)
      · rw [bounces]
        exact one
  | barred alloc absDst slba srcOff nbytes rest st submitting barred =>
      obtain ⟨e, held, rfl, -⟩ := enterPartial_out barred
      exact out rfl
  | retry busy item rest submitting waits =>
      refine straight.mono ?_ rfl
      rw [todo submitting]
      rfl
  | arrived place ok outstanding poking => exact straight.mono (List.Sublist.refl _) (complete_frame d _ _ _).bounces
  | poked items submitting =>
      refine straight.mono ?_ rfl
      rw [todo submitting]
      rfl
  | taken item rest st submitting takes =>
      obtain ⟨boundary, one⟩ := straight
      rw [todo submitting] at boundary one
      refine ⟨fun item member => boundary item (List.mem_cons_of_mem _ member), ?_⟩
      cases item with
      | chunk slba nlb dst =>
          cases takes
          exact one
      | bounceRead buf absDst slba srcOff nbytes =>
          cases takes
          rw [List.filter_cons_of_pos rfl, List.length_cons] at one
          rw [describe_op, List.length_append, List.length_singleton]
          change (rest.filter Item.stages).length + _ ≤ 1
          omega
      | _ => exact takes.elim
  | refused item rest submitting waits => exact out rfl
  | rejected takes e rest submitting => exact out rfl
  | submitted submitting => exact out rfl
  | reaped ok outside state chunks bounces =>
      obtain ⟨m, op⟩ := completeReadOp_op { obliging disk with copies := ok } t.st
      exact out (by rw [op])

/-- **Every answer keeps the descriptor of a stream read.** -/
theorem Described.step {b : Nat} (described : Described t.st) (straight : Straight t)
    (inv : TaskInv d t) (mode : t.st.op.mode = .stream b) (effect : TaskEffect d disk t a t') :
    Described t'.st := by
  have keep : ∀ {st' : ReadState}, st'.op.bounces = t.st.op.bounces → st'.desc.dst = t.st.desc.dst →
      st'.desc.src = t.st.desc.src → Described st' := by
    intro st' bounces dst src slot member
    rw [dst, src]
    exact described slot (bounces ▸ member)
  cases effect with
  | fails => exact List.forall_mem_nil _
  | planned => exact List.forall_mem_nil _
  | entered alloc absDst slba srcOff nbytes rest buf st submitting entered =>
      cases (enterPartial_ok entered).1 <;> exact keep rfl rfl rfl
  | barred alloc absDst slba srcOff nbytes rest st submitting barred =>
      obtain ⟨e, held, rfl, -⟩ := enterPartial_out barred
      exact keep rfl rfl rfl
  | arrived place ok outstanding poking =>
      refine keep (complete_frame d _ _ _).bounces ?_ ?_ <;> rw [(complete_frame d _ _ _).desc]
  | taken item rest st submitting takes =>
      cases item with
      | chunk slba nlb dst =>
          cases takes
          exact keep rfl rfl rfl
      | bounceRead buf absDst slba srcOff nbytes =>
          cases takes
          obtain ⟨boundary, one⟩ := straight
          rw [ReadTask.todo, submitting, Option.map_some, Option.getD_some] at boundary one
          rw [List.filter_cons_of_pos rfl, List.length_cons] at one
          -- It is the first to be staged, into the slot of the stream.
          have empty : t.st.op.bounces = [] := List.eq_nil_of_length_eq_zero (by omega)
          have start : srcOff = 0 := boundary _ (List.mem_cons_self ..)
          obtain ⟨-, lent, -⟩ := inv.todo _ submitting _ (List.mem_cons_self ..)
          rw [FileOp.lent, mode] at lent
          cases lent
          intro slot member
          rw [describe_op, empty] at member
          rw [List.mem_singleton.mp member, mode, start, empty, Ptr.add_zero]
          exact ⟨rfl, by simp [describe]⟩
      | _ => exact takes.elim
  | reaped ok outside state chunks bounces =>
      obtain ⟨m, op⟩ := completeReadOp_op { obliging disk with copies := ok } t.st
      refine keep (by rw [op]) ?_ ?_ <;> simp only [completeReadOp, mode]
  | _ => exact keep rfl rfl rfl

end Steps

/-! ## The asynchronous read -/

/-- **The asynchronous read is where the stream read is**, and has the same bytes. -/
structure Shadows (d : Driver) (t : ReadTask) (twin : ReadState) : Prop where
  alike : Alike t.st twin
  async : twin.op.mode = .async
  same : SameBytes d (fun _ => True) t.st twin.mem
  straight : Straight t
  described : Described t.st

section Shadows

variable {st st' twin : ReadState} {sub sub' : Option Submission} {a : Answer} {b : Nat}

/-- The asynchronous read is planned like the stream read, whatever is in its bounce buffers. -/
theorem Shadows.begin {dev : Device} (geo : d.Geometry) (staging : d.assumeAlignedOnly = false)
    (aligned : d.lbaSize ∣ u64 st.op.fileOffset)
    (laid : ∀ i extents, dev.getExtents i = .ok extents → Layout d extents)
    (empty : st.issued = []) {mem : Memory Space UInt8} (user : ∀ a, st.mem .user a = mem .user a)
    (desc : BounceCopy) :
    Shadows d (ReadTask.begin d dev st) ((ReadTask.begin d dev st).st.twin .async none mem desc) := by
  have begun : (ReadTask.begin d dev st).st.issued = [] ∧ (ReadTask.begin d dev st).st.mem = st.mem ∧
      (ReadTask.begin d dev st).st.op.bounces = [] := by
    unfold ReadTask.begin
    simp only
    split <;> exact ⟨empty, rfl, rfl⟩
  obtain ⟨issued, bytes, bounces⟩ := begun
  refine ⟨.of_twin (.inr rfl) (.inl rfl), rfl, ⟨fun a _ => ?_, fun _ place c logged => ?_⟩,
    .begin geo staging aligned laid, ?_⟩
  · rw [bytes, twin_mem]
    exact user a
  · rw [issued] at logged
    cases logged
  · rw [Described, bounces]
    exact List.forall_mem_nil _

/-- **A stream read that is told an answer takes the asynchronous read along.** -/
theorem Shadows.step (shadows : Shadows d ⟨st, sub⟩ twin) (inv : TaskInv d ⟨st, sub⟩)
    (mode : st.op.mode = .stream b) (effect : TaskEffect d disk ⟨st, sub⟩ a ⟨st', sub'⟩)
    (asks : ∀ alloc, a = .enter alloc → ∃ found, alloc = st.op.lent found)
    (unplanned : ∀ cells getExtents, a ≠ .resolved cells getExtents) (goesOn : ∀ ok, a ≠ .copies ok) :
    ∃ twin', (readAlone d disk).step ⟨twin, sub⟩ a = some ⟨twin', sub'⟩ ∧ Shadows d ⟨st', sub'⟩ twin' := by
  obtain ⟨alike, async, same, straight, described⟩ := shadows
  have modeless : Modeless st sub a := by
    refine ⟨⟨unplanned, goesOn⟩, fun absDst slba srcOff nbytes rest submitting => ?_⟩
    subst submitting
    obtain ⟨boundary, one⟩ := straight
    have filled : (rest.filter Item.stages).length + 1 + st.op.bounces.length ≤ 1 := one
    exact ⟨boundary _ (List.mem_cons_self ..), List.eq_nil_of_length_eq_zero (by omega)⟩
  obtain ⟨twin', stepped, alike', mode'⟩ :
      ∃ twin', (readAlone d disk).step ⟨twin, sub⟩ a = some ⟨twin', sub'⟩ ∧ Alike st' twin' ∧
        twin'.op.mode = twin.op.mode := alike.step effect asks (.inr modeless)
  exact ⟨twin', stepped, alike', mode'.trans async,
    same.step inv alike (fun ok copies => absurd copies (goesOn ok)) effect (ReadTask.step_effect stepped),
    straight.step effect unplanned, described.step straight inv mode effect⟩

/-- What the stream copies when a read has come to its end is what the host copies in its place. -/
theorem Shadows.copied (dev : Device) (shadows : Shadows d ⟨st, none⟩ twin) (inv : TaskInv d ⟨st, none⟩)
    (mode : st.op.mode = .stream b) (inFlight : st.op.state = .inFlight) (idle : st.inflight = [])
    (copies : dev.copies = fun _ => true) :
    (completeReadOp dev st).desc.Outward ∧ ∀ a,
      st.mem.copy (completeReadOp dev st).desc.nBytes (completeReadOp dev st).desc.dst
        (completeReadOp dev st).desc.src .user a = (completeReadOp dev twin).mem .user a := by
  obtain ⟨alike, async, same, straight, described⟩ := shadows
  have busy : st.op.state ≠ .pending := by
    rw [inFlight]
    simp
  have err : twin.op.err = st.op.err := congrArg (fun st => st.op.err) alike.twin
  have bounces : twin.op.bounces = st.op.bounces := congrArg (fun st => st.op.bounces) alike.twin
  have nothing : ∀ (mem : Memory Space UInt8) dst src, mem.copy 0 dst src = mem := by
    intro mem dst src
    funext space a
    exact Memory.blit_of_not_covers _ _ _ _ fun covered => by have := covered.2; omega
  rw [completeReadOp_mem, err, bounces]
  simp only [completeReadOp, mode]
  cases failed : st.op.err with
  | some e =>
      simp only [Option.isSome_some, if_true, nothing, reduceCtorEq, and_false, if_false]
      exact ⟨⟨fun some => absurd some (Nat.lt_irrefl 0), fun some => absurd some (Nat.lt_irrefl 0)⟩,
        fun a => same.user a trivial⟩
  | none =>
      simp only [Option.isSome_none, Bool.false_eq_true, if_false, async, and_self, if_true]
      have one : st.op.bounces.length ≤ 1 := Nat.le_trans (Nat.le_add_left _ _) straight.one
      cases staged : st.op.bounces with
      | nil =>
          simp only [List.head?_nil, Option.map_none, Option.getD_none, nothing, runBounceCopies]
          exact ⟨⟨fun some => absurd some (Nat.lt_irrefl 0), fun some => absurd some (Nat.lt_irrefl 0)⟩,
            fun a => same.user a trivial⟩
      | cons slot rest =>
          rw [staged, List.length_cons] at one
          obtain rfl := List.eq_nil_of_length_eq_zero (show rest.length = 0 by omega)
          have member : slot ∈ st.op.bounces := by
            rw [staged]
            exact List.mem_cons_self ..
          have dst : st.desc.dst = slot.dst := (described slot member).1
          have src : st.desc.src = slot.src := (described slot member).2
          obtain ⟨into, c, issued, bounce, space, low, high⟩ := inv.bounces busy slot member
          have user : slot.dst.space = .user ∧ slot.src.space ≠ .user := by
            refine ⟨into.1, ?_⟩
            have targets := inv.issued c issued
            rw [Command.Targets, bounce] at targets
            obtain ⟨buf, -, there⟩ := targets
            rw [space, there]
            simp
          have filled : ∀ k, k < slot.nbytes → st.mem.load slot.src k = twin.mem.load slot.src k := by
            intro k lt
            obtain ⟨place, logged⟩ := List.getElem?_of_mem issued
            rw [Memory.load, Memory.load, space]
            refine same.staged failed place c logged bounce (by rw [idle]; simp) _ ⟨rfl, ?_, ?_⟩ <;> omega
          simp only [List.head?_cons, Option.map_some, Option.getD_some, dst, src, runBounceCopies, copies,
            if_true]
          exact ⟨⟨fun _ => user.1, fun _ => user.2⟩,
            fun a => blit_agree _ _ (same.user a trivial) filled⟩

/-- **A stream read that is reaped comes to the result of the asynchronous read whose copies
succeed**, and its descriptor has the stream copy what that one copies. -/
theorem Shadows.reap (dev : Device) (disk : Nat → Nat → UInt8) (shadows : Shadows d ⟨st, none⟩ twin)
    (inv : TaskInv d ⟨st, none⟩)
    (mode : st.op.mode = .stream b) (inFlight : st.op.state = .inFlight) (chunks : st.op.chunksRemaining = 0)
    (bounces : st.op.bouncesOutstanding = 0) (idle : st.inflight = []) :
    ∃ twin', (readAlone d disk).step ⟨twin, none⟩ (.copies fun _ => true) = some ⟨twin', none⟩ ∧
      twin'.op.state = .free ∧ twin'.op.result = (completeReadOp dev st).op.result ∧
      (completeReadOp dev st).desc.Outward ∧ ∀ a,
        st.mem.copy (completeReadOp dev st).desc.nBytes (completeReadOp dev st).desc.dst
          (completeReadOp dev st).desc.src .user a = twin'.mem .user a := by
  have desc : (completeReadOp dev st).desc =
      (completeReadOp { obliging disk with copies := fun _ => true } st).desc := by
    simp only [completeReadOp, mode]
  obtain ⟨outward, copied⟩ := shadows.copied { obliging disk with copies := fun _ => true } inv mode
    inFlight idle rfl
  have ready : (none : Option Submission) = none ∧ twin.op.state = .inFlight ∧
      twin.op.chunksRemaining = 0 ∧ twin.op.bouncesOutstanding = 0 := by
    rw [shadows.alike.twin]
    exact ⟨rfl, inFlight, chunks, bounces⟩
  obtain ⟨m, op⟩ := completeReadOp_op { obliging disk with copies := fun _ => true } twin
  refine ⟨completeReadOp { obliging disk with copies := fun _ => true } twin, if_pos ready,
    by rw [op], ?_, by rw [desc]; exact outward, by rw [desc]; exact copied⟩
  have all : ∀ i slots mem, (runBounceCopies { obliging disk with copies := fun _ => true } i slots mem).1 =
      true := by
    intro i slots
    induction slots generalizing i with
    | nil => exact fun mem => rfl
    | cons slot rest ih => exact fun mem => ih (i + 1) _
  have err : twin.op.err = st.op.err := congrArg (fun st => st.op.err) shadows.alike.twin
  have bytes : twin.op.bytesAcc = st.op.bytesAcc := congrArg (fun st => st.op.bytesAcc) shadows.alike.twin
  simp only [completeReadOp, mode, shadows.async, err, bytes]
  cases failed : st.op.err with
  | some e => rfl
  | none => simp only [Option.isNone_none, if_true, all]

end Shadows

end OpenDS.Aisio
