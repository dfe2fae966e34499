import OpenDS.Aisio.ReadTask

/-!
# Where a read writes

A read writes to the destination of its request and to its own bounce buffer, and
nowhere else, whatever it is told. What it copies out of the buffer at its end lies
inside the LBAs that its commands have read into it.
-/

set_option autoImplicit false

namespace OpenDS.Aisio

open OpenDS.Library ReadState

variable {d : Driver} {disk : Nat → Nat → UInt8}

/-! ## Targets -/

/-- A command of an operation writes to its destination or to its bounce buffer. -/
def Command.Targets (d : Driver) (op : FileOp) (c : Command) : Prop :=
  match c.callback with
  | .chunk => op.span.Holds c.dst (commandBytes d c)
  | .bounce => ∃ b, op.lent none = some b ∧ c.dst.space = .bounce b

/-- The slot copies bytes that a command of the log has read to the destination. -/
structure BounceSlot.Staged (d : Driver) (st : ReadState) (slot : BounceSlot) : Prop where
  dst : st.op.span.Holds slot.dst slot.nbytes
  src : ∃ c ∈ st.issued, c.callback = .bounce ∧ slot.src.space = c.dst.space ∧
    c.dst.addr ≤ slot.src.addr ∧ slot.src.addr + slot.nbytes ≤ c.dst.addr + commandBytes d c

/-- **What holds of a read between two answers.** -/
structure TaskInv (d : Driver) (t : ReadTask) : Prop where
  fresh : t.st.op.state = .pending → t.st.issued = [] ∧ t.st.inflight = []
  active : t.sub ≠ none → t.st.op.state ≠ .pending
  logged : ∀ place ∈ t.st.inflight, place < t.st.issued.length
  nodup : t.st.inflight.Nodup
  issued : ∀ c ∈ t.st.issued, c.Targets d t.st.op
  bounces : t.st.op.state ≠ .pending → ∀ slot ∈ t.st.op.bounces, slot.Staged d t.st
  todo : ∀ sub, t.sub = some sub → ∀ item ∈ sub.todo, item.Into d t.st.op.span (t.st.op.lent none)

/-- The operation keeps its destination and its bounce buffer. -/
structure FileOp.Keeps (op op' : FileOp) : Prop where
  span : op'.span = op.span
  lent : ∀ b, op.lent none = some b → op'.lent none = some b

theorem FileOp.Keeps.refl (op : FileOp) : op.Keeps op := ⟨rfl, fun _ has => has⟩

/-- An operation in the same mode whose buffer, if it has one, is the same. -/
theorem FileOp.Keeps.of_buffer {op op' : FileOp} (span : op'.span = op.span) (mode : op'.mode = op.mode)
    (held : op'.bounceBuf = op.bounceBuf ∨ op.bounceBuf = none) : op.Keeps op' := by
  refine ⟨span, fun b has => ?_⟩
  unfold FileOp.lent at has ⊢
  rw [mode]
  cases modeOf : op.mode with
  | stream buf =>
      rw [modeOf] at has
      exact has
  | async =>
      rw [modeOf] at has
      rcases held with same | none
      · rw [same]
        exact has
      · rw [none] at has
        cases has

theorem Command.Targets.keep {c : Command} {op op' : FileOp} (targets : c.Targets d op)
    (keeps : op.Keeps op') : c.Targets d op' := by
  unfold Command.Targets at targets ⊢
  cases callback : c.callback with
  | chunk =>
      rw [callback] at targets
      simp only [keeps.span]
      exact targets
  | bounce =>
      rw [callback] at targets
      obtain ⟨b, has, space⟩ := targets
      exact ⟨b, keeps.lent b has, space⟩

theorem Item.Into.keep {item : Item} {op op' : FileOp} (into : item.Into d op.span (op.lent none))
    (keeps : op.Keeps op') : item.Into d op'.span (op'.lent none) := by
  rw [keeps.span]
  cases item with
  | bounceRead b absDst slba srcOff nbytes => exact ⟨into.1, keeps.lent b into.2.1, into.2.2⟩
  | _ => exact into

theorem BounceSlot.Staged.keep {slot : BounceSlot} {st st' : ReadState} (staged : slot.Staged d st)
    (keeps : st.op.Keeps st'.op) (log : st.issued ⊆ st'.issued) : slot.Staged d st' := by
  obtain ⟨dst, c, member, src⟩ := staged
  refine ⟨?_, c, log member, src⟩
  rw [keeps.span]
  exact dst

/-- What holds of a read holds past a step that takes no command. -/
theorem TaskInv.keep {t t' : ReadTask} (inv : TaskInv d t) (keeps : t.st.op.Keeps t'.st.op)
    (state : t.st.op.state ≠ .pending ∧ t'.st.op.state ≠ .pending)
    (issued : t'.st.issued = t.st.issued) (inflight : t'.st.inflight.Sublist t.st.inflight)
    (bounces : t'.st.op.bounces = t.st.op.bounces)
    (todo : ∀ sub, t'.sub = some sub → ∀ item ∈ sub.todo,
      item.Into d t'.st.op.span (t'.st.op.lent none)) : TaskInv d t' where
  fresh pending := absurd pending state.2
  active _ := state.2
  logged place member := by
    rw [issued]
    exact inv.logged place (inflight.subset member)
  nodup := inv.nodup.sublist inflight
  issued c member := by
    rw [issued] at member
    exact (inv.issued c member).keep keeps
  bounces _ slot member := by
    rw [bounces] at member
    exact (inv.bounces state.1 slot member).keep keeps (by rw [issued]; exact List.Subset.refl _)
  todo := todo

/-- A completion keeps the request. -/
theorem complete_span (dev : Device) (st : ReadState) (id : Nat) :
    (complete d dev st id).op.span = st.op.span := by
  rcases complete_cases d dev st id with same | ⟨c, -, -, changed⟩
  · rw [same]
  · rw [changed]
    cases callback : c.callback with
    | chunk => cases ok : dev.succeeds id <;> rfl
    | bounce =>
        simp only [bounceCb]
        split <;> rfl

/-- The completion of a read stores its result and frees the operation. -/
theorem completeReadOp_op (dev : Device) (st : ReadState) :
    ∃ n, (completeReadOp dev st).op = { st.op with result := some n, state := .free } := by
  unfold completeReadOp
  cases own : st.op.mode with
  | stream buf => exact ⟨_, by simp only [own]; rfl⟩
  | async =>
      simp only
      split <;> exact ⟨_, by simp only [own]; rfl⟩

/-! ## Every answer -/

/-- The queue has taken the command of an item. -/
theorem TaskInv.taken {t : ReadTask} {item : Item} {rest : List Item} {st : ReadState}
    (inv : TaskInv d t) (sub : t.sub = some ⟨item :: rest, false⟩)
    (takes : item.Takes d t.st st) : TaskInv d ⟨st, some ⟨rest, false⟩⟩ := by
  have state := inv.active (by rw [sub]; simp)
  have into := inv.todo _ sub
  have head := into item (List.mem_cons_self ..)
  have tail : ∀ item ∈ rest, item.Into d t.st.op.span (t.st.op.lent none) := fun item member =>
    into item (List.mem_cons_of_mem _ member)
  -- One more command is outstanding, the last one of the log.
  have outstanding : ∀ c : Command,
      (∀ place ∈ t.st.inflight ++ [t.st.issued.length], place < (t.st.issued ++ [c]).length) ∧
        (t.st.inflight ++ [t.st.issued.length]).Nodup := by
    intro c
    refine ⟨fun place member => ?_, ?_⟩
    · rw [List.length_append, List.length_singleton]
      rcases List.mem_append.mp member with old | new
      · exact Nat.lt_succ_of_lt (inv.logged place old)
      · rw [List.mem_singleton.mp new]
        exact Nat.lt_succ_self _
    · refine List.nodup_append.mpr ⟨inv.nodup, List.nodup_singleton _, fun place old other new => ?_⟩
      rw [List.mem_singleton.mp new]
      exact Nat.ne_of_lt (inv.logged place old)
  cases item with
  | chunk slba nlb dst =>
      cases takes
      have keeps : t.st.op.Keeps (addChunks 1 t.st).op := ⟨rfl, fun _ has => has⟩
      refine ⟨fun pending => absurd pending state, fun _ => state, (outstanding _).1,
        (outstanding ⟨.chunk, slba, nlb, dst⟩).2, fun c member => ?_, fun _ slot member => ?_, fun sub goesOn => by cases goesOn; exact tail⟩
      · rcases List.mem_append.mp member with old | new
        · exact (inv.issued c old).keep keeps
        · rw [List.mem_singleton.mp new]
          exact head
      · exact (inv.bounces state slot member).keep keeps (List.subset_append_left _ _)
  | bounceRead buf absDst slba srcOff nbytes =>
      have state' : st.op.state ≠ .pending := by
        have op := congrArg ReadState.op takes
        rw [describe_op] at op
        rw [op]
        exact state
      cases takes
      have keeps : t.st.op.Keeps { t.st.op with
          bounces := t.st.op.bounces ++ [⟨absDst, (Ptr.mk (.bounce buf)
            ((t.st.op.bounces.length * d.lbaSize : Nat) : Int)).add srcOff, nbytes⟩]
          bouncesOutstanding := t.st.op.bouncesOutstanding + 1
          bytesAcc := t.st.op.bytesAcc + nbytes } := ⟨rfl, fun _ has => has⟩
      refine ⟨fun pending => absurd pending state', fun _ => state', ?_, ?_, fun c member => ?_, fun _ slot member => ?_, fun sub goesOn => ?_⟩
      · rw [describe_inflight, describe_issued]
        exact (outstanding _).1
      · rw [describe_inflight]
        exact (outstanding ⟨.bounce, slba, 0, ⟨.bounce buf, 0⟩⟩).2
      · rw [describe_issued] at member
        rw [describe_op]
        rcases List.mem_append.mp member with old | new
        · exact (inv.issued c old).keep keeps
        · rw [List.mem_singleton.mp new]
          exact ⟨buf, keeps.lent buf head.2.1, rfl⟩
      · rw [describe_op] at member
        rcases List.mem_append.mp member with old | new
        · refine (inv.bounces state slot old).keep ?_ ?_
          · rw [describe_op]
            exact keeps
          · rw [describe_issued]
            exact List.subset_append_left _ _
        · rw [List.mem_singleton.mp new]
          refine ⟨?_, ⟨.bounce, slba, 0, ⟨.bounce buf, ((t.st.op.bounces.length * d.lbaSize : Nat) : Int)⟩⟩,
            ?_, rfl, rfl, ?_, ?_⟩
          · rw [describe_op]
            exact head.1
          · rw [describe_issued]
            exact List.mem_append_right _ (List.mem_singleton.mpr rfl)
          · simp only [Ptr.add_addr]
            omega
          · have fits := head.2.2
            simp only [Ptr.add_addr, commandBytes]
            omega
      · cases goesOn
        rw [describe_op]
        exact fun item member => (tail item member).keep keeps
  | _ => exact takes.elim

/-- What holds of a read that is planned. -/
theorem TaskInv.begin (power : d.lbaSize = 2 ^ d.lbaShift) (dev : Device) {st : ReadState}
    (issued : st.issued = []) (inflight : st.inflight = []) :
    TaskInv d (ReadTask.begin d dev st) := by
  have begun : ∀ st' sub, st'.issued = [] → st'.inflight = [] → st'.op.bounces = [] →
      st'.op.state = .inFlight →
      (∀ sub', sub = some sub' → ∀ item ∈ sub'.todo, item.Into d st'.op.span (st'.op.lent none)) →
      TaskInv d ⟨st', sub⟩ := by
    intro st' sub issued inflight bounces state todo
    refine ⟨fun _ => ⟨issued, inflight⟩, fun _ => by rw [state]; simp, ?_, ?_, ?_, ?_, todo⟩
    · simp [inflight]
    · simp [inflight]
    · simp [issued]
    · simp [bounces]
  unfold ReadTask.begin
  simp only
  split
  · exact begun _ _ issued inflight rfl rfl fun sub goesOn => (by cases goesOn)
  · rename_i items planned
    refine begun _ _ issued inflight rfl rfl fun sub goesOn => ?_
    cases goesOn
    exact planRead_into dev power planned

/-- **What holds of a read holds past every answer.** -/
theorem TaskInv.step {t t' : ReadTask} {a : Answer} (power : d.lbaSize = 2 ^ d.lbaShift)
    (inv : TaskInv d t) (effect : TaskEffect d disk t a t') : TaskInv d t' := by
  have inside : ∀ {sub}, t.sub = some sub → t.st.op.state ≠ .pending := fun sub =>
    inv.active (by rw [sub]; simp)
  have asked : ∀ cells, t.st.op.state = .pending →
      (t.st.ask cells).issued = [] ∧ (t.st.ask cells).inflight = [] := by
    intro cells pending
    unfold ReadState.ask
    split <;> exact inv.fresh pending
  cases effect with
  | fails cells getExtents e outside pending failed =>
      have begun := TaskInv.begin power { obliging disk with getExtents := getExtents }
        (asked cells pending).1 (asked cells pending).2
      simp only [ReadTask.begin, failed] at begun
      exact begun
  | planned cells getExtents items outside pending planned =>
      have begun := TaskInv.begin power { obliging disk with getExtents := getExtents }
        (asked cells pending).1 (asked cells pending).2
      simp only [ReadTask.begin, planned] at begun
      exact begun
  | entered alloc absDst slba srcOff nbytes rest buf st sub entered =>
      have state := inside sub
      have into := inv.todo _ sub
      have head := into _ (List.mem_cons_self ..)
      have tail : ∀ item ∈ rest, item.Into d t.st.op.span (t.st.op.lent none) := fun item member =>
        into item (List.mem_cons_of_mem _ member)
      obtain ⟨how, room, fits⟩ := enterPartial_ok entered
      cases how with
      | stream mode first empty =>
          refine inv.keep (.refl _) ⟨state, state⟩ rfl (List.Sublist.refl _) rfl fun sub goesOn => ?_
          cases goesOn
          intro item member
          rcases List.mem_cons.mp member with rfl | later
          · exact ⟨head, by simp [FileOp.lent, mode], fits⟩
          · exact tail item later
      | host mode found =>
          have keeps : t.st.op.Keeps { t.st.op with bounceBuf := some buf } := by
            refine .of_buffer rfl rfl ?_
            cases held : t.st.op.bounceBuf with
            | none => exact .inr rfl
            | some b =>
                rw [held] at found
                exact .inl found.symm
          refine inv.keep keeps ⟨state, state⟩ rfl (List.Sublist.refl _) rfl fun sub goesOn => ?_
          cases goesOn
          intro item member
          rcases List.mem_cons.mp member with rfl | later
          · exact ⟨head, by simp [FileOp.lent, mode], fits⟩
          · exact (tail item later).keep keeps
  | barred alloc absDst slba srcOff nbytes rest st sub barred =>
      have state := inside sub
      obtain ⟨e, held, rfl, which⟩ := enterPartial_out barred
      have keeps : t.st.op.Keeps ({ t.st with op := { t.st.op with bounceBuf := held } } :
          ReadState).op := by
        refine .of_buffer rfl rfl ?_
        rcases which with same | ⟨mode, same⟩
        · exact .inl same
        · cases had : t.st.op.bounceBuf with
          | none => exact .inr rfl
          | some b =>
              rw [had] at same
              exact .inl same
      exact inv.keep ⟨keeps.span, keeps.lent⟩ ⟨state, state⟩ rfl (List.Sublist.refl _) rfl
        fun sub goesOn => (by cases goesOn)
  | retry busy item rest sub waits =>
      refine inv.keep (.refl _) ⟨inside sub, inside sub⟩ rfl (List.Sublist.refl _) rfl fun sub' goesOn => ?_
      cases goesOn
      exact fun item member => inv.todo _ sub item member
  | arrived place ok outstanding poking =>
      have frame := complete_frame d { obliging disk with succeeds := fun _ => ok } t.st place
      have state : t.st.op.state ≠ .pending := fun pending => by
        rw [(inv.fresh pending).2] at outstanding
        cases outstanding
      have keeps : t.st.op.Keeps
          (complete d { obliging disk with succeeds := fun _ => ok } t.st place).op :=
        .of_buffer (complete_span _ _ _) frame.mode (.inl frame.bounceBuf)
      refine inv.keep keeps ⟨state, by rw [frame.state]; exact state⟩ frame.issued ?_ frame.bounces
        fun sub goesOn item member => (inv.todo sub goesOn item member).keep keeps
      rcases complete_cases d { obliging disk with succeeds := fun _ => ok } t.st place with
        same | ⟨c, -, -, changed⟩
      · rw [same]
      · rw [changed]
        exact List.erase_sublist
  | poked todo sub =>
      refine inv.keep (.refl _) ⟨inside sub, inside sub⟩ rfl (List.Sublist.refl _) rfl fun sub' goesOn => ?_
      cases goesOn
      exact fun item member => inv.todo _ sub item member
  | taken item rest st sub takes => exact inv.taken sub takes
  | refused item rest sub waits =>
      exact inv.keep ⟨rfl, fun _ has => has⟩ ⟨inside sub, inside sub⟩ rfl (List.Sublist.refl _) rfl
        fun sub' goesOn => (by cases goesOn)
  | rejected takes e rest sub =>
      exact inv.keep ⟨rfl, fun _ has => has⟩ ⟨inside sub, inside sub⟩ rfl (List.Sublist.refl _) rfl
        fun sub' goesOn => (by cases goesOn)
  | submitted sub =>
      exact inv.keep (.refl _) ⟨inside sub, inside sub⟩ rfl (List.Sublist.refl _) rfl
        fun sub' goesOn => (by cases goesOn)
  | reaped ok outside state chunks bounces =>
      obtain ⟨n, op⟩ := completeReadOp_op { obliging disk with copies := ok } t.st
      refine inv.keep ?_ ⟨by rw [state]; simp, by simp [op]⟩ (completeReadOp_issued _ _) ?_
        (by rw [op]) fun sub goesOn => (by cases goesOn)
      · rw [op]
        exact ⟨rfl, fun _ has => has⟩
      · rw [completeReadOp_inflight]

/-! ## Where the destination is -/

/-- An answer that does not plan the read leaves its destination where it is. -/
theorem TaskEffect.span_eq {t t' : ReadTask} {a : Answer} (effect : TaskEffect d disk t a t')
    (planned : ∀ cells getExtents, a ≠ .resolved cells getExtents) : t'.st.op.span = t.st.op.span := by
  cases effect with
  | fails cells getExtents => exact absurd rfl (planned cells getExtents)
  | planned cells getExtents => exact absurd rfl (planned cells getExtents)
  | entered alloc absDst slba srcOff nbytes rest buf st sub entered =>
      cases (enterPartial_ok entered).1 <;> rfl
  | barred alloc absDst slba srcOff nbytes rest st sub barred =>
      obtain ⟨e, held, rfl, -⟩ := enterPartial_out barred
      rfl
  | arrived place ok => exact complete_span _ _ _
  | taken item rest st sub takes =>
      cases item with
      | chunk slba nlb dst =>
          cases takes
          rfl
      | bounceRead buf absDst slba srcOff nbytes =>
          cases takes
          rw [describe_op]
          rfl
      | _ => exact takes.elim
  | reaped ok =>
      obtain ⟨n, op⟩ := completeReadOp_op { obliging disk with copies := ok } t.st
      rw [op]
      rfl
  | _ => rfl

/-! ## What moves bytes -/

/-- The cells are read into the request and nothing else. -/
theorem ask_frame {st : ReadState} (cells : Request) : (st.ask cells).op.mode = st.op.mode ∧
    (st.ask cells).op.bounceBuf = st.op.bounceBuf ∧ (st.ask cells).op.state = st.op.state ∧
      (st.ask cells).issued = st.issued ∧ (st.ask cells).inflight = st.inflight ∧
        (st.ask cells).mem = st.mem := by
  unfold ReadState.ask
  split <;> exact ⟨rfl, rfl, rfl, rfl, rfl, rfl⟩

/-- The bytes of a command that completes. -/
theorem complete_mem (dev : Device) {st : ReadState} {id : Nat} {c : Command}
    (outstanding : id ∈ st.inflight) (logged : st.issued[id]? = some c) :
    (complete d dev st id).mem = if dev.succeeds id then
        st.mem.blit c.dst (commandBytes d c) (commandData d dev c)
      else st.mem := by
  have contains : st.inflight.contains id = true := by simpa using outstanding
  simp only [complete, contains, logged]

/-- The bytes the completion of a read moves. -/
theorem completeReadOp_mem (dev : Device) (st : ReadState) :
    (completeReadOp dev st).mem = if st.op.mode = .async ∧ st.op.err = none then
        (runBounceCopies dev 0 st.op.bounces st.mem).2
      else st.mem := by
  cases mode : st.op.mode with
  | stream slot => simp [completeReadOp, mode]
  | async => cases err : st.op.err <;> simp [completeReadOp, mode, err]

/-- The copies leave alone what is no destination of theirs. -/
theorem runBounceCopies_outside {dev : Device} (i : Nat) (slots : List BounceSlot)
    {mem : Memory Space UInt8} {space : Space} {x : Int}
    (outside : ∀ slot ∈ slots, ¬ slot.dst.Covers slot.nbytes space x) :
    (runBounceCopies dev i slots mem).2 space x = mem space x := by
  induction slots generalizing i mem with
  | nil => rfl
  | cons slot rest ih =>
      rw [runBounceCopies]
      split
      · rw [ih (i + 1) fun later member => outside later (List.mem_cons_of_mem _ member)]
        exact Memory.blit_of_not_covers _ _ _ _ (outside slot (List.mem_cons_self ..))
      · rfl

/-- Only completions and the copies at the end of a read move bytes. -/
theorem TaskEffect.mem_eq {t t' : ReadTask} {a : Answer} (effect : TaskEffect d disk t a t')
    (arrives : ∀ place ok, a ≠ .arrived place ok) (reaps : ∀ ok, a ≠ .copies ok) :
    t'.st.mem = t.st.mem := by
  cases effect with
  | fails cells getExtents e outside pending failed => exact (ask_frame cells).2.2.2.2.2
  | planned cells getExtents items outside pending planned => exact (ask_frame cells).2.2.2.2.2
  | entered alloc absDst slba srcOff nbytes rest buf st submitting entered =>
      cases (enterPartial_ok entered).1 <;> rfl
  | barred alloc absDst slba srcOff nbytes rest st submitting barred =>
      obtain ⟨e, held, rfl, -⟩ := enterPartial_out barred
      rfl
  | arrived place ok outstanding poking => exact absurd rfl (arrives place ok)
  | taken item rest st submitting takes =>
      cases item with
      | chunk slba nlb dst =>
          cases takes
          rfl
      | bounceRead buf absDst slba srcOff nbytes =>
          cases takes
          exact describe_mem _ _ _
      | _ => exact takes.elim
  | reaped ok outside state chunks bounces => exact absurd rfl (reaps ok)
  | _ => rfl

/-- The destination of an asynchronous read is that of its submission. -/
theorem TaskEffect.span_of_async {t t' : ReadTask} {a : Answer} (effect : TaskEffect d disk t a t')
    (async : t.st.op.mode = .async) : t'.st.op.span = t.st.op.span := by
  have asked : ∀ cells, t.st.ask cells = t.st := by
    intro cells
    unfold ReadState.ask
    rw [async]
  by_cases planned : ∃ cells getExtents, a = .resolved cells getExtents
  · obtain ⟨cells, getExtents, rfl⟩ := planned
    cases effect with
    | fails cells getExtents e outside pending failed =>
        rw [asked]
        rfl
    | planned cells getExtents items outside pending planned =>
        rw [asked]
        rfl
  · exact effect.span_eq fun cells getExtents same => planned ⟨cells, getExtents, same⟩

/-- An answer leaves the mode of the read. -/
theorem TaskEffect.mode_eq {t t' : ReadTask} {a : Answer} (effect : TaskEffect d disk t a t') :
    t'.st.op.mode = t.st.op.mode := by
  cases effect with
  | fails cells getExtents => exact (ask_frame cells).1
  | planned cells getExtents => exact (ask_frame cells).1
  | entered alloc absDst slba srcOff nbytes rest buf st sub entered =>
      cases (enterPartial_ok entered).1 <;> rfl
  | barred alloc absDst slba srcOff nbytes rest st sub barred =>
      obtain ⟨e, held, rfl, -⟩ := enterPartial_out barred
      rfl
  | arrived place ok => exact (complete_frame d _ _ _).mode
  | taken item rest st sub takes =>
      cases item with
      | chunk slba nlb dst =>
          cases takes
          rfl
      | bounceRead buf absDst slba srcOff nbytes =>
          cases takes
          rw [describe_op]
      | _ => exact takes.elim
  | reaped ok =>
      obtain ⟨n, op⟩ := completeReadOp_op { obliging disk with copies := ok } t.st
      rw [op]
  | _ => rfl

/-- The completion of a read leaves alone what is not in its destination. -/
theorem TaskInv.completion_spares {t : ReadTask} (inv : TaskInv d t) (dev : Device)
    (busy : t.st.op.state ≠ .pending) {space : Space} {x : Int}
    (user : ∀ p n, t.st.op.span.Holds p n → ¬ p.Covers n space x) :
    (completeReadOp dev t.st).mem space x = t.st.mem space x := by
  rw [completeReadOp_mem]
  split
  · exact runBounceCopies_outside 0 _ fun slot member => user _ _ (inv.bounces busy slot member).dst
  · rfl

/-- **An answer leaves alone what is neither in the destination of the read nor in its
bounce buffer.** -/
theorem TaskEffect.spares {t t' : ReadTask} {a : Answer} (inv : TaskInv d t)
    (effect : TaskEffect d disk t a t') {space : Space} {x : Int}
    (user : space = .user → ∀ p n, t.st.op.span.Holds p n → ¬ p.Covers n .user x)
    (staged : ∀ b, t.st.op.lent none = some b → space ≠ .bounce b) :
    t'.st.mem space x = t.st.mem space x := by
  have spared : ∀ p n, t.st.op.span.Holds p n → ¬ p.Covers n space x := by
    intro p n holds covered
    have here : space = .user := covered.1.trans holds.1
    subst here
    exact user rfl p n holds covered
  by_cases arrives : ∃ place ok, a = .arrived place ok
  · obtain ⟨place, ok, rfl⟩ := arrives
    cases effect with
    | arrived place ok outstanding poking =>
        obtain ⟨c, logged⟩ : ∃ c, t.st.issued[place]? = some c :=
          ⟨_, List.getElem?_eq_getElem (inv.logged place outstanding)⟩
        have targets := inv.issued c (List.mem_of_getElem? logged)
        have mem := complete_mem (d := d) { obliging disk with succeeds := fun _ => ok } outstanding
          logged
        simp only at mem ⊢
        rw [mem]
        cases ok with
        | false => rfl
        | true =>
            refine Memory.blit_of_not_covers _ _ _ _ fun covered => ?_
            rw [Command.Targets] at targets
            cases callback : c.callback with
            | chunk =>
                rw [callback] at targets
                exact spared _ _ targets covered
            | bounce =>
                rw [callback] at targets
                obtain ⟨b, lent, into⟩ := targets
                exact staged b lent (covered.1.trans into)
  by_cases reaps : ∃ ok, a = .copies ok
  · obtain ⟨ok, rfl⟩ := reaps
    cases effect with
    | reaped ok outside state => exact inv.completion_spares _ (by rw [state]; simp) spared
  · have still := effect.mem_eq (fun place ok same => arrives ⟨place, ok, same⟩)
      fun ok same => reaps ⟨ok, same⟩
    exact congrFun (congrFun still space) x

end OpenDS.Aisio
