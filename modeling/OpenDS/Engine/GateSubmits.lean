import OpenDS.Engine.Gates

/-!
# Submissions at their gates

Every step of the engine is nothing or a few steps of the turnstile of each stream. A
submitter takes a turn, announces and awaits it, and publishes its operation or gives the
turn up; a worker is admitted when it dispatches an operation, and releases its turn; a
stream works through its agenda.
-/

set_option autoImplicit false

namespace OpenDS.Engine

open OpenDS.Library OpenDS.Aisio

variable {n : Nat} {ι : Type} {s s' : System n ι} {j : Nat} {g g' : Turnstile} {t : ι}

/-! ## Frames -/

/-- What is parked on a stream stays parked. -/
structure KeepsParked (s s' : System n ι) (j : Nat) : Prop where
  fields : ∀ w slot, .park w slot ∈ (s.streams j).commands →
    ((s'.workers w).fileOpQueue slot).fields = ((s.workers w).fileOpQueue slot).fields
  published : ∀ w, (s.workers w).published <+: (s'.workers w).published
  held : ∀ t f w head, s.threads t = .pend f w head ∨ s.threads t = .publish f w head →
    (s'.workers w).published = (s.workers w).published ++ [f] ∨
      (s'.workers w).published = (s.workers w).published ∧
        (s'.threads t = .pend f w head ∨ s'.threads t = .publish f w head)

theorem KeepsParked.parked (keeps : KeepsParked s s' j) {w : Fin n} {slot : Fin queueSize}
    (member : .park w slot ∈ (s.streams j).commands) (parked : s.Parked j w slot) :
    s'.Parked j w slot := by
  obtain ⟨k, f, turn, rfl, fields, ticket, publishes⟩ := parked
  refine ⟨k, f, turn, rfl, (keeps.fields w _ member).trans fields, ticket, ?_⟩
  rcases publishes with published | ⟨last, t, head, held⟩
  · obtain ⟨lt, rfl⟩ := List.getElem?_eq_some_iff.mp published
    obtain ⟨rest, same⟩ := keeps.published w
    left
    rw [← same, List.getElem?_append_left lt]
    exact published
  · rcases keeps.held t f w head held with published | ⟨published, held⟩
    · left
      rw [published, last]
      simp
    · exact .inr ⟨by rw [published, last], t, head, held⟩

/-- A command that is not parked, or is parked still, stands for the same. -/
theorem KeepsParked.entries (keeps : KeepsParked s s' j) {c : StreamCommand n}
    (member : c ∈ (s.streams j).commands) : s'.entries c = s.entries c := by
  cases c with
  | park w slot =>
      have turn : s'.turnOf w slot = s.turnOf w slot := by
        rw [System.turnOf, keeps.fields w slot member, System.turnOf]
      simp only [System.entries, System.announced, System.awaited, turn]
  | _ => rfl

/-- Commands are added to a stream. -/
theorem GateLine.append (line : GateLine s j g) (keeps : KeepsParked s s' j)
    (new : List (StreamCommand n))
    (commands : (s'.streams j).commands = (s.streams j).commands ++ new)
    (turns : g'.turns = (s'.streams j).turns)
    (gate : (s'.streams j).gate = gateWord g'.shown g'.released)
    (agenda : g'.agenda = g.agenda ++ new.flatMap s'.entries)
    (booking : g'.booking = s'.booking j)
    (spins : ∀ target turn, .spin target turn ∈ new → target = j)
    (parks : ∀ w slot, .park w slot ∈ new → s'.Parked j w slot) : GateLine s' j g' := by
  refine ⟨turns, gate, ?_, booking, fun target turn member => ?_, fun w slot member => ?_⟩
  · have old : (s.streams j).commands.flatMap s.entries = (s.streams j).commands.flatMap s'.entries :=
      List.flatMap_congr fun c member => (keeps.entries member).symm
    rw [agenda, line.agenda, commands, List.flatMap_append, old]
  · rw [commands] at member
    rcases List.mem_append.mp member with old | member
    · exact line.spins target turn old
    · exact spins target turn member
  · rw [commands] at member
    rcases List.mem_append.mp member with old | member
    · exact keeps.parked old (line.parks w slot old)
    · exact parks w slot member

/-- A stream that is left alone. -/
theorem GateLine.still (line : GateLine s j g) (keeps : KeepsParked s s' j)
    (stream : s'.streams j = s.streams j) (booking : s'.booking j = s.booking j) :
    GateLine s' j g := by
  refine line.append keeps [] (by rw [stream, List.append_nil]) (by rw [stream]; exact line.turns)
    (by rw [stream]; exact line.gate) (List.append_nil _).symm (by rw [booking]; exact line.booking)
    ?_ ?_ <;> simp

/-- The queues hold the same operations, which have come as far. -/
theorem GateTasks.frame (tasks : GateTasks s j g)
    (published : ∀ w, (s'.workers w).published = (s.workers w).published)
    (history : ∀ w k f turn, s.HasTurn j turn w k f →
      (s'.workers w).history k = (s.workers w).history k)
    (polled : ∀ w turn, (s'.workers w).pc = .dispatch →
      (s'.workers w).current.fields.ticket = some (j, turn) → turn ≤ g'.shown)
    (same : g'.tasks = g.tasks) (shown : g.shown ≤ g'.shown) : GateTasks s' j g' := by
  refine ⟨fun w k f turn stage has lived => ?_, fun turn none => ?_, polled, fun turn waiting => ?_⟩
  · have has : s.HasTurn j turn w k f := ⟨published w ▸ has.published, has.ticket⟩
    rw [same]
    rw [history w k f turn has] at lived
    exact tasks.tasks w k f turn stage has lived
  · rw [same]
    refine tasks.absent turn fun w f member => none w f ?_
    rw [published]
    exact member
  · rw [same] at waiting
    have near := tasks.near turn waiting
    omega

/-- The queues are left alone. -/
theorem GateTasks.still (tasks : GateTasks s j g) (workers : s'.workers = s.workers)
    (same : g'.tasks = g.tasks) (shown : g.shown ≤ g'.shown) : GateTasks s' j g' := by
  refine tasks.frame (fun w => by rw [workers]) (fun w k _ _ _ => by rw [workers])
    (fun w turn pc ticket => ?_) same shown
  rw [workers] at pc ticket
  exact (tasks.polled w turn pc ticket).trans shown

/-! ## Bookings -/

theorem SubmitPc.booking_of_not_critical {pc : SubmitPc n} (outside : pc.critical = false) :
    pc.booking j = none := by
  cases pc <;> first | rfl | cases outside

/-- What is booked is booked by the holder of the lock. -/
theorem EngineInv.booking_eq (inv : EngineInv s) (critical : (s.threads t).critical = true) :
    s.booking j = (s.threads t).booking j := by
  rw [System.booking, inv.holder critical]
  rfl

/-- The slot that a submitter has claimed is at the head of the queue, which is not full. -/
theorem EngineInv.claimed (inv : EngineInv s) {w : Fin n} {head : BitVec 32} {fields : Option OpFields}
    {pending : Bool} (critical : (s.threads t).critical = true)
    (offers : (s.threads t).offer w = some ⟨head, fields, pending⟩) :
    slotOf head = slotAt (s.workers w).published.length ∧
      (∀ f, fields = some f → ((s.workers w).fileOpQueue (slotOf head)).fields = f) ∧
      ((s.workers w).pc.onOp = true → slotOf (s.workers w).i ≠ slotOf head) := by
  obtain ⟨m, queue⟩ := inv.queues w
  rw [inv.offer_eq critical, offers] at queue
  obtain ⟨word, room, filled, -⟩ := queue.slots.offered _ rfl
  have slot : slotOf head = slotAt (s.workers w).published.length := by
    rw [show head = _ from word, slotOf_word]
  refine ⟨slot, fun f same => ?_, fun onOp => ?_⟩
  · rw [slot]
    exact (filled f same).1
  · obtain ⟨low, lt⟩ := queue.counters.i_window onOp
    rw [queue.counters.opAt_i (.inr onOp), slot]
    exact slotAt_ne lt (by omega)

/-- What a thread holds at its gate it has drawn the last turn for. -/
theorem GateInv.drawn (inv : GateInv s) {f : OpFields} {turn : Nat} (held : (s.threads t).held = some f)
    (ticket : f.ticket = some (j, turn)) (sim : GateSim s j g) : turn = g.turns := by
  rw [sim.line.turns]
  exact (inv.tickets.held t f j turn held ticket).1

/-- What is booked before a step of the holder of the lock. -/
theorem GateInv.booking_before (inv : GateInv s) (critical : (s.threads t).critical = true)
    (sim : GateSim s j g) : g.booking = (s.threads t).booking j :=
  sim.line.booking.trans (inv.locked.booking_eq critical)

theorem ticket_eq {f : OpFields} {a : FileOpStream} {turn : Nat} (args : f.u = .stream a turn) :
    f.ticket = some (a.stream, turn) := by
  rw [OpFields.ticket, args]

/-- What is booked for an operation is booked on its stream. -/
theorem booking_ticket {f : OpFields} {i turn : Nat} (ticket : f.ticket = some (i, turn))
    (b : Booking) : (if f.ticket.map Prod.fst = some j then some b else none) =
      if j = i then some b else none := by
  rw [ticket]
  refine if_congr ?_ rfl rfl
  simp [eq_comm]

/-! ## Queues -/

/-- A submitter changes no fields of a queue and nothing of its worker. -/
structure KeepsFields (s s' : System n ι) : Prop where
  fields : ∀ w slot, ((s'.workers w).fileOpQueue slot).fields = ((s.workers w).fileOpQueue slot).fields
  pc : ∀ w, (s'.workers w).pc = (s.workers w).pc
  i : ∀ w, (s'.workers w).i = (s.workers w).i
  history : ∀ w k, (s'.workers w).history k = (s.workers w).history k

theorem KeepsFields.of_update {w : Fin n} {worker : IoWorker}
    (workers : s'.workers = Function.update s.workers w worker)
    (fields : ∀ slot, (worker.fileOpQueue slot).fields = ((s.workers w).fileOpQueue slot).fields)
    (pc : worker.pc = (s.workers w).pc) (i : worker.i = (s.workers w).i)
    (log : worker.log = (s.workers w).log) : KeepsFields s s' := by
  have here : ∀ v, s'.workers v = if v = w then worker else s.workers v := fun v => by
    rw [workers, Function.update_apply]
  refine ⟨fun v slot => ?_, fun v => ?_, fun v => ?_, fun v k => ?_⟩ <;> rw [here v] <;> split
  · rename_i same
    rw [same]
    exact fields slot
  · rfl
  · rename_i same
    rw [same, pc]
  · rfl
  · rename_i same
    rw [same, i]
  · rfl
  · rename_i same
    rw [same, IoWorker.history, log, IoWorker.history]
  · rfl

theorem KeepsFields.polled (keeps : KeepsFields s s') (tasks : GateTasks s j g) {w : Fin n} {turn : Nat}
    (pc : (s'.workers w).pc = .dispatch)
    (ticket : (s'.workers w).current.fields.ticket = some (j, turn)) : turn ≤ g.shown := by
  refine tasks.polled w turn ((keeps.pc w).symm.trans pc) ?_
  rwa [IoWorker.current, keeps.i, keeps.fields] at ticket

section Queues

variable {w v : Fin n} {head : BitVec 32} {c : Call} {f fields : OpFields} {k turn : Nat}

/-- The fill of a slot leaves what the queues hold. -/
theorem GateTasks.fill (tasks : GateTasks s j g) (inv : EngineInv s)
    (before : s.threads t = .fill c w head)
    (workers : s'.workers = Function.update s.workers w ((s.workers w).fill head f))
    (same : g'.tasks = g.tasks) (shown : g.shown ≤ g'.shown) : GateTasks s' j g' := by
  have critical : (s.threads t).critical = true := by rw [before]; rfl
  have offers : (s.threads t).offer w = some ⟨head, none, false⟩ := by
    rw [before]
    exact if_pos rfl
  obtain ⟨-, -, apart⟩ := inv.claimed critical offers
  refine tasks.frame (fun v => ?_) (fun v k _ _ _ => ?_) (fun v turn dispatch ticket => ?_) same shown
  · rw [workers]
    by_cases here : v = w
    · subst here
      rw [Function.update_self]
      rfl
    · rw [Function.update_of_ne here]
  · rw [workers]
    by_cases here : v = w
    · subst here
      rw [Function.update_self]
      rfl
    · rw [Function.update_of_ne here]
  · rw [workers] at dispatch ticket
    refine (tasks.polled v turn ?_ ?_).trans shown <;> by_cases here : v = w
    · subst here
      rwa [Function.update_self] at dispatch
    · rwa [Function.update_of_ne here] at dispatch
    · subst here
      rw [Function.update_self] at dispatch ticket
      have current : ((s.workers v).fill head f).current = (s.workers v).current :=
        Function.update_of_ne (apart (by rw [show (s.workers v).pc = .dispatch from dispatch]; rfl)) _ _
      rwa [current] at ticket
    · rwa [Function.update_of_ne here] at ticket

/-- The store of `FILE_OP_PENDING` changes no fields. -/
theorem pend_fields (workers : s'.workers = Function.update s.workers w ((s.workers w).pend head)) :
    KeepsFields s s' := by
  refine .of_update workers (fun slot => ?_) rfl rfl rfl
  change (Function.update (s.workers w).fileOpQueue _ _ slot).fields = _
  rw [Function.update_apply]
  split
  · rename_i same
    rw [same]
  · rfl

/-- The store to `queue_head` changes no fields. -/
theorem publish_fields
    (workers : s'.workers = Function.update s.workers w ((s.workers w).publish head)) :
    KeepsFields s s' :=
  .of_update workers (fun _ => rfl) rfl rfl rfl

/-- What a submitter publishes is at the end of its queue. -/
theorem EngineInv.publish_eq (inv : EngineInv s) (before : s.threads t = .publish fields w head)
    (workers : s'.workers = Function.update s.workers w ((s.workers w).publish head)) (v : Fin n) :
    (s'.workers v).published = (s.workers v).published ++ if v = w then [fields] else [] := by
  rw [workers]
  by_cases here : v = w
  · subst here
    rw [Function.update_self, inv.published_eq before, if_pos rfl]
  · rw [Function.update_of_ne here, if_neg here, List.append_nil]

/-- An operation is published already or by the step. -/
theorem EngineInv.hasTurn_publish (inv : EngineInv s) (before : s.threads t = .publish fields w head)
    (workers : s'.workers = Function.update s.workers w ((s.workers w).publish head))
    (has : s'.HasTurn j turn v k f) :
    s.HasTurn j turn v k f ∨ v = w ∧ k = (s.workers w).published.length ∧ f = fields := by
  obtain ⟨published, ticket⟩ := has
  rw [inv.publish_eq before workers, List.getElem?_append] at published
  split at published
  · exact .inl ⟨published, ticket⟩
  · rename_i past
    split at published
    · rename_i here
      subst here
      obtain ⟨last, same⟩ := List.getElem?_eq_some_iff.mp published
      rw [List.length_singleton] at last
      exact .inr ⟨rfl, by omega, by simpa using same.symm⟩
    · cases published

/-- The store to `queue_head` keeps what is parked. -/
theorem GateInv.publish_keeps (inv : GateInv s) (before : s.threads t = .publish fields w head)
    (workers : s'.workers = Function.update s.workers w ((s.workers w).publish head)) :
    KeepsParked s s' j := by
  have critical : (s.threads t).critical = true := by rw [before]; rfl
  refine ⟨fun v slot _ => (publish_fields workers).fields v slot, fun v => ?_,
    fun t' f v head' held => .inl ?_⟩
  · rw [inv.locked.publish_eq before workers]
    exact List.prefix_append _ _
  · -- The thread that is about to publish is the one that does.
    have critical' : (s.threads t').critical = true := by
      rcases held with held | held <;> rw [held] <;> rfl
    have same := (inv.locked.holder critical').symm.trans (inv.locked.holder critical)
    cases same
    rw [before] at held
    rcases held with held | held <;> cases held
    rw [inv.locked.publish_eq before workers, if_pos rfl]

/-- The task of the turn that was taken last waits. -/
theorem GateTasks.publish (tasks : GateTasks s j g) (inv : GateInv s)
    (before : s.threads t = .publish fields w head)
    (workers : s'.workers = Function.update s.workers w ((s.workers w).publish head))
    (ticket : fields.ticket = some (j, g.turns)) (near : g.turns ≤ g.shown + 2 ^ 30) :
    GateTasks s' j { g.setTask g.turns .waiting with booking := none } := by
  have keeps := publish_fields workers
  obtain ⟨-, fresh⟩ := inv.tickets.held t fields j g.turns (by rw [before]; rfl) ticket
  refine ⟨fun v k f turn stage has lived => ?_, fun turn none => ?_, fun v turn => keeps.polled tasks,
    fun turn waiting => ?_⟩
  · change (if turn = g.turns then _ else g.tasks turn) = _
    rw [keeps.history] at lived
    rcases inv.locked.hasTurn_publish before workers has with old | ⟨rfl, rfl, rfl⟩
    · rw [if_neg, tasks.tasks v k f turn stage old lived]
      rintro rfl
      exact fresh v f (List.mem_of_getElem? old.published) old.ticket
    · obtain ⟨m, queue⟩ := inv.locked.queues v
      rw [queue.lives.history_nil (Nat.le_refl _)] at lived
      cases lived
      have same := ticket.symm.trans has.ticket
      rw [Option.some.injEq, Prod.mk.injEq] at same
      rw [if_pos same.2.symm]
      rfl
  · change (if turn = g.turns then _ else g.tasks turn) = _
    rw [if_neg, tasks.absent turn fun v f member => none v f ?_]
    · rw [inv.locked.publish_eq before workers]
      exact List.mem_append_left _ member
    · rintro rfl
      refine none w fields ?_ ticket
      rw [inv.locked.publish_eq before workers, if_pos rfl]
      exact List.mem_append_right _ (List.mem_singleton_self _)
  · change (if turn = g.turns then _ else g.tasks turn) = _ at waiting
    split at waiting
    · rename_i here
      exact here ▸ near
    · exact tasks.near turn waiting

/-- An operation of another stream, or of none, is published. -/
theorem GateTasks.publish_other (tasks : GateTasks s j g) (inv : GateInv s)
    (before : s.threads t = .publish fields w head)
    (workers : s'.workers = Function.update s.workers w ((s.workers w).publish head))
    (other : ∀ turn, fields.ticket ≠ some (j, turn)) : GateTasks s' j g := by
  have keeps := publish_fields workers
  refine ⟨fun v k f turn stage has lived => ?_, fun turn none => tasks.absent turn fun v f member => ?_,
    fun v turn => keeps.polled tasks, tasks.near⟩
  · rw [keeps.history] at lived
    rcases inv.locked.hasTurn_publish before workers has with old | ⟨-, -, rfl⟩
    · exact tasks.tasks v k f turn stage old lived
    · exact absurd has.ticket (other turn)
  · refine none v f ?_
    rw [inv.locked.publish_eq before workers]
    exact List.mem_append_left _ member

end Queues

/-! ## Threads -/

section Threads

variable [DecidableEq ι] {pc : SubmitPc n}

/-- What is booked past a step of the holder of the lock. -/
theorem EngineInv.booking_after (inv : EngineInv s) (inv' : EngineInv s')
    (critical : (s.threads t).critical = true)
    (threads : s'.threads = Function.update s.threads t pc) (j : Nat) :
    s'.booking j = pc.booking j := by
  have here : s'.threads t = pc := by rw [threads, Function.update_self]
  cases after : pc.critical with
  | true =>
      have critical' : (s'.threads t).critical = true := by rw [here, after]
      rw [inv'.booking_eq critical', here]
  | false =>
      rw [SubmitPc.booking_of_not_critical after, System.booking]
      cases lock : s'.submitLock with
      | none => rfl
      | some t' =>
          have holds := (inv'.lock t').mpr lock
          by_cases same : t' = t
          · rw [same, here, after] at holds
            cases holds
          · rw [threads, Function.update_of_ne same] at holds
            have both := inv.holder holds
            rw [inv.holder critical] at both
            exact absurd (Option.some.inj both).symm same

/-- A thread outside the lock books nothing. -/
theorem EngineInv.booking_outside (inv : EngineInv s) (before : (s.threads t).critical = false)
    (threads : s'.threads = Function.update s.threads t pc) (lock : s'.submitLock = s.submitLock) :
    s'.booking j = s.booking j := by
  rw [System.booking, lock, System.booking]
  cases holds : s.submitLock with
  | none => rfl
  | some t' =>
      have critical := (inv.lock t').mpr holds
      have other : t' ≠ t := by
        rintro rfl
        rw [before] at critical
        cases critical
      rw [threads]
      simp only [Option.bind_some, Function.update_of_ne other]

/-- A thread that goes on keeps what is parked. -/
theorem KeepsParked.of_update (threads : s'.threads = Function.update s.threads t pc)
    (fields : ∀ w slot, .park w slot ∈ (s.streams j).commands →
      ((s'.workers w).fileOpQueue slot).fields = ((s.workers w).fileOpQueue slot).fields)
    (published : ∀ w, (s'.workers w).published = (s.workers w).published)
    (here : ∀ f w head, s.threads t = .pend f w head ∨ s.threads t = .publish f w head →
      pc = .pend f w head ∨ pc = .publish f w head) : KeepsParked s s' j := by
  refine ⟨fields, fun w => by rw [published], fun t' f w head held => .inr ⟨published w, ?_⟩⟩
  rw [threads]
  by_cases same : t' = t
  · rw [same, Function.update_self]
    exact here f w head (same ▸ held)
  · rw [Function.update_of_ne same]
    exact held

/-- A thread that goes on and books nothing. -/
theorem GateSim.goesOn (sim : GateSim s j g) (threads : s'.threads = Function.update s.threads t pc)
    (streams : s'.streams j = s.streams j) (workers : s'.workers = s.workers)
    (booking : s'.booking j = s.booking j)
    (here : ∀ f w head, s.threads t = .pend f w head ∨ s.threads t = .publish f w head →
      pc = .pend f w head ∨ pc = .publish f w head) : GateSim s' j g where
  inv := sim.inv
  line := sim.line.still (.of_update threads (fun w slot _ => by rw [workers])
    (fun w => by rw [workers]) here) streams booking
  served := sim.served.still workers rfl (Nat.le_refl _)

/-- The fill of a slot keeps what is parked. -/
theorem GateInv.fill_keeps {w : Fin n} {head : BitVec 32} {c : Call} {f : OpFields} (inv : GateInv s)
    (before : s.threads t = .fill c w head)
    (threads : s'.threads = Function.update s.threads t pc)
    (workers : s'.workers = Function.update s.workers w ((s.workers w).fill head f)) :
    KeepsParked s s' j := by
  refine .of_update threads (fun v slot member => ?_) (fun v => ?_) fun f' v head' held => ?_
  · rw [workers]
    by_cases here : v = w
    · subst here
      rw [Function.update_self]
      exact congrArg QueuedOp.fields (Function.update_of_ne (inv.parked_ne before member) _ _)
    · rw [Function.update_of_ne here]
  · rw [workers]
    by_cases here : v = w
    · subst here
      rw [Function.update_self]
      rfl
    · rw [Function.update_of_ne here]
  · rw [before] at held
    rcases held with held | held <;> cases held

/-- A command is enqueued for the turn that is being booked. -/
theorem GateSim.enqueue (sim : GateSim s j g) (inv' : TurnstileInv g') (c : StreamCommand n)
    (threads : s'.threads = Function.update s.threads t pc)
    (streams : s'.streams = (s.enqueue j c).streams) (workers : s'.workers = s.workers)
    (here : ∀ f w head, s.threads t = .pend f w head ∨ s.threads t = .publish f w head →
      pc = .pend f w head ∨ pc = .publish f w head)
    (turns : g'.turns = g.turns) (shown : g'.shown = g.shown) (open' : g'.released = g.released)
    (tasks : g'.tasks = g.tasks) (agenda : g'.agenda = g.agenda ++ s'.entries c)
    (booking : g'.booking = s'.booking j) (spins : ∀ target turn, c = .spin target turn → target = j)
    (parks : ∀ w slot, c = .park w slot → s'.Parked j w slot) : GateSim s' j g' := by
  have stream : s'.streams j = { s.streams j with commands := (s.streams j).commands ++ [c] } := by
    rw [streams]
    exact Function.update_self _ _ _
  refine ⟨inv', sim.line.append (.of_update threads (fun w slot _ => by rw [workers])
    (fun w => by rw [workers]) here) [c] (by rw [stream]) ?_ ?_ (by rw [agenda]; simp) booking
    (fun target turn member => spins target turn (List.mem_singleton.mp member).symm)
    fun w slot member => parks w slot (List.mem_singleton.mp member).symm,
    sim.served.still workers tasks shown.ge⟩
  · rw [stream, turns]
    exact sim.line.turns
  · rw [stream, shown, open']
    exact sim.line.gate

/-- A command is enqueued to another stream. -/
theorem GateSim.enqueue_other (sim : GateSim s j g) {i : Nat} (other : j ≠ i) (c : StreamCommand n)
    (threads : s'.threads = Function.update s.threads t pc)
    (streams : s'.streams = (s.enqueue i c).streams) (workers : s'.workers = s.workers)
    (booking : s'.booking j = s.booking j)
    (here : ∀ f w head, s.threads t = .pend f w head ∨ s.threads t = .publish f w head →
      pc = .pend f w head ∨ pc = .publish f w head) : GateSim s' j g :=
  sim.goesOn threads (by rw [streams]; exact Function.update_of_ne other _ _) workers booking here

variable [NeZero n] {alignedOnly : Bool}

/-- **A step of a thread is one of the turnstile of each stream.** -/
theorem GateInv.thread (inv : GateInv s) (inv' : EngineInv s')
    (effect : ThreadEffect alignedOnly s t s')
    (near : ∀ fields w head turn, s.threads t = .publish fields w head →
      fields.ticket = some (j, turn) → s.Near j turn) : ∃ g, GateSim s' j g := by
  obtain ⟨g, sim⟩ := inv.gates j
  have elsewhere : ∀ {pc : SubmitPc n}, s.threads t = pc →
      (∀ f w head, pc ≠ .pend f w head ∧ pc ≠ .publish f w head) → ∀ {pc' : SubmitPc n} f w head,
      s.threads t = .pend f w head ∨ s.threads t = .publish f w head →
        pc' = .pend f w head ∨ pc' = .publish f w head := by
    rintro pc same other pc' f w head held
    rw [same] at held
    rcases held with held | held
    · exact absurd held (other f w head).1
    · exact absurd held (other f w head).2
  cases effect with
  | callAsync c a pc args =>
      exact ⟨g, sim.goesOn rfl rfl rfl (inv.locked.booking_outside (by rw [pc]; rfl) rfl rfl)
        (elsewhere pc (by simp))⟩
  | callStream c pc =>
      exact ⟨g, sim.goesOn rfl rfl rfl (inv.locked.booking_outside (by rw [pc]; rfl) rfl rfl)
        (elsewhere pc (by simp))⟩
  | lock c pc free =>
      refine ⟨g, sim.goesOn rfl rfl rfl ?_ (elsewhere pc (by simp))⟩
      have none : s.booking j = none := by rw [System.booking, free]; rfl
      rw [none]
      have pc' : ({ s with submitLock := some t }.setThread t (.claim c)).threads t = .claim c :=
        Function.update_self _ _ _
      have critical' : (({ s with submitLock := some t }.setThread t (.claim c)).threads t).critical =
          true := by rw [pc']; rfl
      rw [inv'.booking_eq critical', pc']
      rfl
  | claim c pc room =>
      have critical : (s.threads t).critical = true := by rw [pc]; rfl
      refine ⟨g, sim.goesOn rfl rfl rfl ?_ (elsewhere pc (by simp))⟩
      rw [inv.locked.booking_after inv' critical rfl j, inv.locked.booking_eq critical, pc]
      rfl
  | full c pc =>
      have critical : (s.threads t).critical = true := by rw [pc]; rfl
      refine ⟨g, sim.goesOn rfl rfl rfl ?_ (elsewhere pc (by simp))⟩
      rw [inv.locked.booking_after inv' critical rfl j, inv.locked.booking_eq critical, pc]
      rfl
  | fillAsync c w head a pc args =>
      have critical : (s.threads t).critical = true := by rw [pc]; rfl
      refine ⟨g, sim.inv, sim.line.still (inv.fill_keeps pc rfl rfl) rfl ?_,
        sim.served.fill inv.locked pc rfl rfl (Nat.le_refl _)⟩
      rw [inv.locked.booking_after inv' critical rfl j, inv.locked.booking_eq critical, pc]
      rfl
  | fillStream c w head a turn pc args drawn =>
      have critical : (s.threads t).critical = true := by rw [pc]; rfl
      have before := inv.booking_before critical sim
      have after := inv.locked.booking_after inv' critical rfl j
      rw [pc] at before
      rw [SubmitPc.booking, booking_ticket (ticket_eq rfl)] at after
      by_cases here : j = a.stream
      · subst here
        rw [if_pos rfl] at after
        refine ⟨_, sim.inv.take before, ?_, sim.served.fill inv.locked pc rfl rfl (Nat.le_refl _)⟩
        refine sim.line.append (inv.fill_keeps pc rfl rfl) [] ?_ ?_ ?_ (List.append_nil _).symm
          after.symm (by simp) (by simp)
        all_goals
          simp only [System.setThread, System.setWorker, System.setStream, Function.update_self]
        · rw [List.append_nil]
        · rw [drawn, sim.line.turns]
        · exact sim.line.gate
      · rw [if_neg here] at after
        refine ⟨g, sim.inv, sim.line.still (inv.fill_keeps pc rfl rfl) ?_ ?_,
          sim.served.fill inv.locked pc rfl rfl (Nat.le_refl _)⟩
        · exact Function.update_of_ne here _ _
        · rw [after, ← sim.line.booking, before]
          rfl
  | fails fields w head pc =>
      have critical : (s.threads t).critical = true := by rcases pc with pc | pc <;> rw [pc] <;> rfl
      have early : g.booking ≠ some .awaited := by
        rw [inv.booking_before critical sim]
        rcases pc with pc | pc <;> rw [pc, SubmitPc.booking] <;> split <;> decide
      refine ⟨_, sim.inv.abandon early, ?_, sim.served.still rfl rfl (Nat.le_refl _)⟩
      refine sim.line.append (.of_update rfl (fun _ _ _ => rfl) (fun _ => rfl) fun f v head' held => ?_)
        [] (List.append_nil _).symm sim.line.turns sim.line.gate (List.append_nil _).symm
        (inv.locked.booking_after inv' critical rfl j).symm (by simp) (by simp)
      rcases pc with pc | pc <;> rw [pc] at held <;> rcases held with held | held <;> cases held
  | park fields w head a turn pc args aligned =>
      have critical : (s.threads t).critical = true := by rw [pc]; rfl
      have before := inv.booking_before critical sim
      have after := inv.locked.booking_after inv' critical rfl j
      have ticket := ticket_eq args
      rw [pc, SubmitPc.booking, booking_ticket ticket] at before
      rw [SubmitPc.booking, booking_ticket ticket] at after
      by_cases here : j = a.stream
      · subst here
        have offers : (s.threads t).offer w = some ⟨head, some fields, false⟩ := by
          rw [pc]
          exact if_pos rfl
        obtain ⟨slot, filled, -⟩ := inv.locked.claimed critical offers
        have held : (s.threads t).held = some fields := by rw [pc]; rfl
        have drawn := inv.drawn held ticket sim
        have turnOf : s.turnOf w (slotOf head) = some g.turns := by
          rw [System.turnOf, filled fields rfl, ticket, ← drawn]
          rfl
        rw [if_pos rfl] at before after
        have announced := sim.inv.announce before
        refine ⟨_, sim.enqueue (announced.await rfl) (.park w (slotOf head)) rfl rfl rfl
          (elsewhere pc (by simp)) rfl rfl rfl rfl ?_ after.symm (by simp) fun w' slot' same => ?_⟩
        · have entries : s.entries (.park w (slotOf head)) = [.announce g.turns, .await g.turns] := by
            rw [System.entries, System.announced, System.awaited, turnOf]
            rfl
          change _ = g.agenda ++ s.entries (.park w (slotOf head))
          rw [entries]
          simp
        · cases same
          refine ⟨_, fields, turn, slot, ?_, ticket, .inr ⟨rfl, t, head, .inl ?_⟩⟩
          · change ((s.workers w).fileOpQueue (slotAt _)).fields = fields
            rw [← slot]
            exact filled fields rfl
          · exact Function.update_self _ _ _
      · rw [if_neg here] at before after
        refine ⟨g, sim.enqueue_other here (.park w (slotOf head)) rfl rfl rfl ?_
          (elsewhere pc (by simp))⟩
        rw [after, ← sim.line.booking, before]
  | write fields w head a turn pc args aligned =>
      have critical : (s.threads t).critical = true := by rw [pc]; rfl
      have before := inv.booking_before critical sim
      have after := inv.locked.booking_after inv' critical rfl j
      have ticket := ticket_eq args
      rw [pc, SubmitPc.booking, booking_ticket ticket] at before
      rw [SubmitPc.booking, booking_ticket ticket] at after
      by_cases here : j = a.stream
      · subst here
        have held : (s.threads t).held = some fields := by rw [pc]; rfl
        have drawn := inv.drawn held ticket sim
        rw [if_pos rfl] at before after
        refine ⟨_, sim.enqueue (sim.inv.announce before) (.write turn) rfl rfl rfl
          (elsewhere pc (by simp)) rfl rfl rfl rfl ?_ after.symm (by simp) (by simp)⟩
        rw [drawn]
        rfl
      · rw [if_neg here] at before after
        refine ⟨g, sim.enqueue_other here (.write turn) rfl rfl rfl ?_ (elsewhere pc (by simp))⟩
        rw [after, ← sim.line.booking, before]
  | wait fields w head a turn pc args =>
      have critical : (s.threads t).critical = true := by rw [pc]; rfl
      have before := inv.booking_before critical sim
      have after := inv.locked.booking_after inv' critical rfl j
      have ticket := ticket_eq args
      rw [pc, SubmitPc.booking, booking_ticket ticket] at before
      rw [SubmitPc.booking, booking_ticket ticket] at after
      by_cases here : j = a.stream
      · subst here
        have held : (s.threads t).held = some fields := by rw [pc]; rfl
        have drawn := inv.drawn held ticket sim
        rw [if_pos rfl] at before after
        refine ⟨_, sim.enqueue (sim.inv.await before) (.wait turn) rfl rfl rfl
          (elsewhere pc (by simp)) rfl rfl rfl rfl ?_ after.symm (by simp) (by simp)⟩
        rw [drawn]
        rfl
      · rw [if_neg here] at before after
        refine ⟨g, sim.enqueue_other here (.wait turn) rfl rfl rfl ?_ (elsewhere pc (by simp))⟩
        rw [after, ← sim.line.booking, before]
  | pend fields w head pc =>
      have critical : (s.threads t).critical = true := by rw [pc]; rfl
      refine ⟨g, sim.inv, sim.line.still ?_ rfl ?_, ?_⟩
      · refine .of_update rfl (fun v slot _ => (pend_fields rfl).fields v slot)
          (setWorker_published s rfl) fun f v head' held => ?_
        rw [pc] at held
        rcases held with held | held <;> cases held
        exact .inr rfl
      · rw [inv.locked.booking_after inv' critical rfl j, inv.locked.booking_eq critical, pc]
        rfl
      · exact sim.served.frame (setWorker_published s rfl)
          (fun v k _ _ _ => (pend_fields rfl).history v k)
          (fun v turn => (pend_fields rfl).polled sim.served) rfl (Nat.le_refl _)
  | publish fields w head pc =>
      have critical : (s.threads t).critical = true := by rw [pc]; rfl
      have before := inv.booking_before critical sim
      have after := inv.locked.booking_after inv' critical rfl j
      rw [pc, SubmitPc.booking] at before
      by_cases here : ∃ turn, fields.ticket = some (j, turn)
      · obtain ⟨turn, ticket⟩ := here
        rw [booking_ticket ticket, if_pos rfl] at before
        have held : (s.threads t).held = some fields := by rw [pc]; rfl
        obtain rfl := inv.drawn held ticket sim
        refine ⟨_, sim.inv.publish before, ?_, ?_⟩
        · exact sim.line.append (inv.publish_keeps pc rfl) [] (List.append_nil _).symm sim.line.turns
            sim.line.gate (List.append_nil _).symm after.symm (by simp) (by simp)
        · exact sim.served.publish inv pc rfl ticket
            (sim.le_of_near inv.locked (near _ _ _ _ pc ticket))
      · have other : ∀ turn, fields.ticket ≠ some (j, turn) := fun turn ticket => here ⟨turn, ticket⟩
        refine ⟨g, sim.inv, sim.line.still (inv.publish_keeps pc rfl) rfl ?_,
          sim.served.publish_other inv pc rfl other⟩
        rw [after, ← sim.line.booking, before, if_neg]
        · rfl
        · intro same
          obtain ⟨⟨i, turn⟩, ticket, rfl⟩ := Option.map_eq_some_iff.mp same
          exact other turn ticket
  | unlock copy pc' pc next =>
      have critical : (s.threads t).critical = true := by rw [pc]; rfl
      refine ⟨g, sim.goesOn rfl rfl rfl ?_ (elsewhere pc (by simp))⟩
      rw [inv.locked.booking_after inv' critical rfl j, inv.locked.booking_eq critical, pc]
      rcases next with rfl | ⟨j, -, rfl⟩ <;> rfl
  | copy i pc =>
      have booking : ((s.enqueue i .copy).setThread t .idle).booking j = s.booking j :=
        inv.locked.booking_outside (by rw [pc]; rfl) rfl rfl
      by_cases here : j = i
      · subst here
        exact ⟨g, sim.enqueue sim.inv .copy rfl rfl rfl (elsewhere pc (by simp)) rfl rfl rfl rfl
          (List.append_nil _).symm (by rw [booking]; exact sim.line.booking) (by simp) (by simp)⟩
      · exact ⟨g, sim.enqueue_other here .copy rfl rfl rfl booking (elsewhere pc (by simp))⟩
  | lost i pc =>
      exact ⟨g, sim.goesOn rfl rfl rfl (inv.locked.booking_outside (by rw [pc]; rfl) rfl rfl)
        (elsewhere pc (by simp))⟩

end Threads

end OpenDS.Engine
