import OpenDS.Engine.QueueSafety

/-!
# Submissions that are rejected

`submit_stream_op` draws a turn of the stream, writes the fields of its slot and then makes
up to three accelerator calls that may fail. The calls for the gate come before the store
to `queue_head`, the call for the copy comes after it.

The turn tells an operation from every other one of its stream. Of a turn whose gate could
not be enqueued no worker ever serves an operation (`rejected_never_served`): the slot is
claimed by the next submission, which draws another turn. A read whose copy could not be
enqueued is in the queue when the call returns, and is served (`lost_copy_served`).
-/

set_option autoImplicit false

namespace OpenDS.Engine

open OpenDS.Library OpenDS.Aisio

variable {n : Nat} {ι : Type}

/-! ## Turns -/

/-- The stream of an operation and its turn there. -/
def OpFields.ticket (f : OpFields) : Option (Nat × Nat) :=
  match f.u with
  | .async _ => none
  | .stream a turn => some (a.stream, turn)

/-- The operation that a thread has written to its slot and not published yet. -/
def SubmitPc.held : SubmitPc n → Option OpFields
  | .gate fields _ _ => some fields
  | .wait fields _ _ => some fields
  | .pend fields _ _ => some fields
  | .publish fields _ _ => some fields
  | _ => none

/-- What a step does to the turns, to the operations that are published, and to those that
are about to be. -/
inductive TicketEffect (s s' : System n ι) : Prop where
  | goesOn : (∀ w, (s'.workers w).published = (s.workers w).published) →
      (∀ j, (s'.streams j).turns = (s.streams j).turns) →
      (∀ t f, (s'.threads t).held = some f → (s.threads t).held = some f ∨ f.ticket = none) →
      TicketEffect s s'
  | draws (j : Nat) (f : OpFields) : f.ticket = some (j, (s.streams j).turns + 1) →
      (∀ w, (s'.workers w).published = (s.workers w).published) →
      (∀ i, (s'.streams i).turns = if i = j then (s.streams j).turns + 1 else (s.streams i).turns) →
      (∀ t g, (s'.threads t).held = some g → g = f) → TicketEffect s s'
  | publishes (t : ι) (w : Fin n) (f : OpFields) : (s.threads t).held = some f →
      (∀ v, ∀ g ∈ (s'.workers v).published, g ∈ (s.workers v).published ∨ v = w ∧ g = f) →
      (∀ j, (s'.streams j).turns = (s.streams j).turns) →
      (∀ t g, (s'.threads t).held ≠ some g) → TicketEffect s s'

variable {s s' s'' : System n ι} {t : ι}

theorem SubmitPc.critical_of_held {pc : SubmitPc n} {f : OpFields} (held : pc.held = some f) :
    pc.critical = true := by
  cases pc <;> first | rfl | cases held

/-- Only the holder of the lock holds an operation. -/
theorem EngineInv.alone (inv : EngineInv s) (critical : (s.threads t).critical = true) {t' : ι}
    (other : t' ≠ t) : (s.threads t').held = none := by
  cases held : (s.threads t').held with
  | none => rfl
  | some f =>
      have holds := inv.holder (SubmitPc.critical_of_held held)
      rw [inv.holder critical] at holds
      exact absurd (Option.some.inj holds).symm other

/-- Past a step of the holder of the lock no other thread holds an operation. -/
theorem EngineInv.held_after [DecidableEq ι] (inv : EngineInv s)
    (critical : (s.threads t).critical = true) {pc : SubmitPc n}
    (threads : s'.threads = Function.update s.threads t pc) {t' : ι} {f : OpFields}
    (holds : (s'.threads t').held = some f) : pc.held = some f := by
  rw [threads] at holds
  by_cases here : t' = t
  · rw [here, Function.update_self] at holds
    exact holds
  · rw [Function.update_of_ne here, inv.alone critical here] at holds
    cases holds

/-- What a submitter publishes is the operation that it holds. -/
theorem EngineInv.published_eq (inv : EngineInv s) {fields : OpFields} {w : Fin n}
    {head : BitVec 32} (pc : s.threads t = .publish fields w head) :
    ((s.workers w).publish head).published = (s.workers w).published ++ [fields] := by
  obtain ⟨m, queue⟩ := inv.queues w
  have offer : s.offer w = some ⟨head, some fields, true⟩ := by
    rw [inv.offer_eq (t := t) (by rw [pc]; rfl), pc]
    exact if_pos rfl
  obtain ⟨word, -, filled, -⟩ := queue.slots.offered _ offer
  change _ ++ [((s.workers w).fileOpQueue (slotOf head)).fields] = _
  change head = _ at word
  rw [word, slotOf_word]
  exact congrArg (fun f => (s.workers w).published ++ [f]) (filled fields rfl).1

/-- A change of a stream that leaves its turns takes none. -/
theorem setStream_turns (s : System n ι) {j : Nat} {stream : Stream n}
    (same : stream.turns = (s.streams j).turns) (i : Nat) :
    ((s.setStream j stream).streams i).turns = (s.streams i).turns := by
  change (Function.update s.streams j stream i).turns = _
  by_cases here : i = j
  · rw [here, Function.update_self, same]
  · rw [Function.update_of_ne here]

/-- What a worker reports takes no turn. -/
theorem apply_turns (s : System n ι) (event : Option (Nat × OpEvent)) (i : Nat) :
    ((s.apply event).streams i).turns = (s.streams i).turns := by
  unfold System.apply
  split
  all_goals first | rfl | exact setStream_turns s (by rfl) i

/-- A stream takes no turn. -/
theorem GpuEffect.turns {j : Nat} (effect : GpuEffect s j s') (i : Nat) :
    (s'.streams i).turns = (s.streams i).turns := by
  cases effect with
  | park w slot rest a turn front args =>
      exact (setStream_turns _ (by rfl) i).trans (setStream_turns s (by rfl) i)
  | _ => exact setStream_turns s (by rfl) i

/-- A change of a slot publishes nothing. -/
theorem setWorker_published (s : System n ι) {w : Fin n} {worker : IoWorker}
    (same : worker.published = (s.workers w).published) (v : Fin n) :
    ((s.setWorker w worker).workers v).published = (s.workers v).published := by
  change (Function.update s.workers w worker v).published = _
  by_cases here : v = w
  · rw [here, Function.update_self, same]
  · rw [Function.update_of_ne here]

section Steps

variable [DecidableEq ι]

/-- A thread that goes on, with the operation that it holds or without one. -/
theorem TicketEffect.advance {pc : SubmitPc n} (threads : s'.threads = Function.update s.threads t pc)
    (workers : ∀ w, (s'.workers w).published = (s.workers w).published)
    (turns : ∀ j, (s'.streams j).turns = (s.streams j).turns)
    (held : ∀ f, pc.held = some f → (s.threads t).held = some f ∨ f.ticket = none) :
    TicketEffect s s' := by
  refine .goesOn workers turns fun t' f holds => ?_
  rw [threads] at holds
  by_cases here : t' = t
  · subst here
    rw [Function.update_self] at holds
    exact held f holds
  · rw [Function.update_of_ne here] at holds
    exact .inl holds

variable [NeZero n] {alignedOnly : Bool}

theorem ThreadEffect.tickets (inv : EngineInv s) (effect : ThreadEffect alignedOnly s t s') :
    TicketEffect s s' := by
  -- Between the fill and the publication the thread holds the same operation.
  have keeps : ∀ (fields : OpFields) (w : Fin n) (head : BitVec 32),
      s.threads t = .gate fields w head ∨ s.threads t = .wait fields w head ∨
        s.threads t = .pend fields w head →
      ∀ f, some fields = some f → (s.threads t).held = some f ∨ f.ticket = none := by
    rintro fields w head pc f ⟨⟩
    rcases pc with pc | pc | pc <;> rw [pc] <;> exact .inl rfl
  cases effect with
  | callAsync c a pc args => exact .advance rfl (fun _ => rfl) (fun _ => rfl) nofun
  | callStream c pc => exact .advance rfl (fun _ => rfl) (fun _ => rfl) nofun
  | lock c pc free => exact .advance rfl (fun _ => rfl) (fun _ => rfl) nofun
  | claim c pc room => exact .advance rfl (fun _ => rfl) (fun _ => rfl) nofun
  | full c pc => exact .advance rfl (fun _ => rfl) (fun _ => rfl) nofun
  | fillAsync c w head a pc args =>
      refine .advance rfl (setWorker_published s rfl) (fun _ => rfl) fun f holds => .inr ?_
      cases holds
      rfl
  | fillStream c w head a turn pc args drawn =>
      have critical : (s.threads t).critical = true := by rw [pc]; rfl
      subst drawn
      refine .draws a.stream ⟨c.isWrite, c.h, c.bufBase, .stream a _⟩ rfl (setWorker_published _ rfl) (fun i => ?_) fun t' g holds => ?_
      · change (Function.update s.streams a.stream _ i).turns = _
        by_cases here : i = a.stream
        · rw [here, Function.update_self, if_pos rfl]
        · rw [Function.update_of_ne here, if_neg here]
      · cases inv.held_after critical rfl holds
        rfl
  | fails fields w head pc => exact .advance rfl (fun _ => rfl) (fun _ => rfl) nofun
  | park fields w head a turn pc args aligned =>
      exact .advance rfl (fun _ => rfl) (setStream_turns s rfl) (keeps fields w head (.inl pc))
  | write fields w head a turn pc args aligned =>
      exact .advance rfl (fun _ => rfl) (setStream_turns s rfl) (keeps fields w head (.inl pc))
  | wait fields w head a turn pc args =>
      exact .advance rfl (fun _ => rfl) (setStream_turns s rfl) (keeps fields w head (.inr (.inl pc)))
  | pend fields w head pc =>
      exact .advance rfl (setWorker_published s rfl) (fun _ => rfl)
        (keeps fields w head (.inr (.inr pc)))
  | publish fields w head pc =>
      have critical : (s.threads t).critical = true := by rw [pc]; rfl
      refine .publishes t w fields (by rw [pc]; rfl) (fun v g member => ?_) (fun _ => rfl)
        fun t' g holds => ?_
      · change g ∈ (Function.update s.workers w _ v).published at member
        by_cases here : v = w
        · subst here
          rw [Function.update_self, inv.published_eq pc, List.mem_append, List.mem_singleton] at member
          exact member.imp_right fun same => ⟨rfl, same⟩
        · rw [Function.update_of_ne here] at member
          exact .inl member
      · cases inv.held_after critical rfl holds
  | unlock copy pc' pc next =>
      refine .advance rfl (fun _ => rfl) (fun _ => rfl) fun f holds => ?_
      rcases next with rfl | ⟨j, -, rfl⟩ <;> cases holds
  | copy j pc => exact .advance rfl (fun _ => rfl) (setStream_turns s rfl) nofun
  | lost j pc => exact .advance rfl (fun _ => rfl) (fun _ => rfl) nofun

/-- **What a step of the engine does to turns and operations.** -/
theorem EngineInv.tickets {l : Label n ι} (inv : EngineInv s)
    (step : (engine alignedOnly).step s l = some s') : TicketEffect s s' := by
  cases l with
  | thread t act => exact (System.threadStep_effect step).tickets inv
  | worker w c =>
      obtain ⟨event, worker, effect, rfl⟩ := System.workerStep_effect step
      obtain ⟨threads, -, workers, -⟩ := (s.setWorker w (worker.record event)).apply_frame event
      refine .goesOn (fun v => ?_) (fun j => ?_) fun t f holds => ?_
      · rw [workers]
        refine setWorker_published s ?_ v
        exact (published_of_effect effect).1
      · rw [apply_turns]
        rfl
      · rw [threads] at holds
        exact .inl holds
  | gpu j =>
      have effect := System.gpuStep_effect step
      obtain ⟨threads, -, workers, -⟩ := effect.frame
      refine .goesOn (fun v => by rw [workers]) effect.turns fun t f holds => ?_
      rw [threads] at holds
      exact .inl holds
  | stop =>
      cases step
      exact .goesOn (fun _ => rfl) (fun _ => rfl) fun _ _ => .inl

end Steps

/-! ## Turns at any time -/

/-- **What holds of the turns at any time**: none is ahead of its stream, and the one that
a submitter has drawn is the last one, and not published. -/
structure Tickets (s : System n ι) : Prop where
  published : ∀ w, ∀ f ∈ (s.workers w).published, ∀ j turn, f.ticket = some (j, turn) →
    turn ≤ (s.streams j).turns
  held : ∀ t f j turn, (s.threads t).held = some f → f.ticket = some (j, turn) →
    turn = (s.streams j).turns ∧ ∀ w, ∀ g ∈ (s.workers w).published, g.ticket ≠ some (j, turn)

/-- A turn that no operation has or will have, published or not. -/
structure Unserved (s : System n ι) (j turn : Nat) : Prop where
  drawn : turn ≤ (s.streams j).turns
  published : ∀ w, ∀ f ∈ (s.workers w).published, f.ticket ≠ some (j, turn)
  held : ∀ t f, (s.threads t).held = some f → f.ticket ≠ some (j, turn)

theorem Tickets.step (tickets : Tickets s) (effect : TicketEffect s s') : Tickets s' := by
  cases effect with
  | goesOn published turns held =>
      refine ⟨fun w f member j turn ticket => ?_, fun t f j turn holds ticket => ?_⟩
      · rw [published] at member
        rw [turns]
        exact tickets.published w f member j turn ticket
      · rcases held t f holds with before | none
        · rw [turns]
          obtain ⟨last, fresh⟩ := tickets.held t f j turn before ticket
          exact ⟨last, fun w g member => fresh w g (published w ▸ member)⟩
        · rw [none] at ticket
          cases ticket
  | draws i f drawn published turns held =>
      have grows : ∀ j, (s.streams j).turns ≤ (s'.streams j).turns := by
        intro j
        rw [turns]
        split
        · subst j
          exact Nat.le_succ _
        · exact Nat.le_refl _
      refine ⟨fun w g member j turn ticket => ?_, fun t g j turn holds ticket => ?_⟩
      · rw [published] at member
        exact Nat.le_trans (tickets.published w g member j turn ticket) (grows j)
      · rw [held t g holds, drawn] at ticket
        cases ticket
        refine ⟨by rw [turns, if_pos rfl], fun w g member same => ?_⟩
        rw [published] at member
        have bound := tickets.published w g member i _ same
        omega
  | publishes t w f holds published turns held =>
      refine ⟨fun v g member j turn ticket => ?_, fun t' g j turn holds' => ?_⟩
      · rw [turns]
        rcases published v g member with old | ⟨-, rfl⟩
        · exact tickets.published v g old j turn ticket
        · exact Nat.le_of_eq (tickets.held t g j turn holds ticket).1
      · exact absurd holds' (held t' g)

/-- **A turn that is not served is never served.** -/
theorem Unserved.step {j turn : Nat} (unserved : Unserved s j turn) (effect : TicketEffect s s') :
    Unserved s' j turn := by
  cases effect with
  | goesOn published turns held =>
      refine ⟨by rw [turns]; exact unserved.drawn, fun w f member => ?_, fun t f holds => ?_⟩
      · rw [published] at member
        exact unserved.published w f member
      · rcases held t f holds with before | none
        · exact unserved.held t f before
        · rw [none]
          exact nofun
  | draws i f drawn published turns held =>
      have bound := unserved.drawn
      refine ⟨?_, fun w g member => ?_, fun t g holds same => ?_⟩
      · rw [turns]
        split
        · subst i
          omega
        · exact bound
      · rw [published] at member
        exact unserved.published w g member
      · rw [held t g holds, drawn] at same
        cases same
        omega
  | publishes t w f holds published turns held =>
      refine ⟨by rw [turns]; exact unserved.drawn, fun v g member => ?_, fun t' g holds' => ?_⟩
      · rcases published v g member with old | ⟨-, rfl⟩
        · exact unserved.published v g old
        · exact unserved.held t g holds
      · exact absurd holds' (held t' g)

/-- A submitter that lets go of the operation that it holds leaves its turn unserved. -/
theorem Tickets.unserved (tickets : Tickets s) {fields : OpFields} {j turn : Nat}
    (holds : (s.threads t).held = some fields) (ticket : fields.ticket = some (j, turn))
    (published : ∀ w, (s'.workers w).published = (s.workers w).published)
    (turns : ∀ j, (s'.streams j).turns = (s.streams j).turns)
    (none : ∀ t g, (s'.threads t).held ≠ some g) : Unserved s' j turn := by
  obtain ⟨last, fresh⟩ := tickets.held t fields j turn holds ticket
  refine ⟨by rw [turns, last], fun w g member => ?_, fun t' g holds' => absurd holds' (none t' g)⟩
  rw [published] at member
  exact fresh w g member

theorem Tickets.start (futures : Nat → Future) (bytesRead : Nat → Int) :
    Tickets (setup n ι futures bytesRead) :=
  ⟨fun _ _ member => absurd member List.not_mem_nil, fun _ _ _ _ => nofun⟩

section Runs

variable [DecidableEq ι] [NeZero n] {alignedOnly : Bool} {futures : Nat → Future}
  {bytesRead : Nat → Int}

/-- **The lock, the queues and the turns are in order in every reachable state.** -/
theorem Tickets.run {labels : List (Label n ι)}
    (ran : (engine alignedOnly).run labels (setup n ι futures bytesRead) = some s) :
    EngineInv s ∧ Tickets s := by
  have keeps : ∀ (s : System n ι) l s', EngineInv s ∧ Tickets s →
      (engine alignedOnly).step s l = some s' → EngineInv s' ∧ Tickets s' :=
    fun _ _ _ inv step => ⟨inv.1.step step, inv.2.step (inv.1.tickets step)⟩
  exact Machine.run_invariant_of_step keeps ⟨.start futures bytesRead, .start futures bytesRead⟩ ran

/-- What is unserved stays unserved on every run. -/
theorem Unserved.run {j turn : Nat} {later : List (Label n ι)} (inv : EngineInv s)
    (unserved : Unserved s j turn) (ran : (engine alignedOnly).run later s = some s') :
    EngineInv s' ∧ Unserved s' j turn := by
  have keeps : ∀ (s : System n ι) l s', EngineInv s ∧ Unserved s j turn →
      (engine alignedOnly).step s l = some s' → EngineInv s' ∧ Unserved s' j turn :=
    fun _ _ _ inv step => ⟨inv.1.step step, inv.2.step (inv.1.tickets step)⟩
  exact Machine.run_invariant_of_step keeps ⟨inv, unserved⟩ ran

/-- An accelerator call for a gate that fails lets go of the operation. -/
theorem gate_fails {fields : OpFields} {w : Fin n} {head : BitVec 32}
    (before : s.threads t = .gate fields w head ∨ s.threads t = .wait fields w head)
    (fails : (engine alignedOnly).step s (.thread t (.accel false)) = some s') :
    (∃ j turn, fields.ticket = some (j, turn)) ∧ s' = s.setThread t (.unlock none) := by
  change s.threadStep alignedOnly t (.accel false) = some s' at fails
  unfold System.threadStep at fails
  rcases before with pc | pc
  · simp only [pc] at fails
    split at fails
    · cases fails
    · rename_i args
      refine ⟨⟨_, _, by rw [OpFields.ticket, args]⟩, ?_⟩
      split at fails <;> cases fails <;> rfl
  · simp only [pc] at fails
    split at fails
    · cases fails
    · rename_i args
      refine ⟨⟨_, _, by rw [OpFields.ticket, args]⟩, ?_⟩
      cases fails
      rfl

/-- **A submission that is rejected at its gate has no later effect.** Where an accelerator
call for the gate fails, in either mode and whatever all parties do before and after, the
operation is never published, and no worker does anything for it: what is written down of
a worker has happened to published operations, and none of them has the turn. -/
theorem rejected_never_served {labels later : List (Label n ι)} {fields : OpFields} {w : Fin n}
    {head : BitVec 32}
    (ran : (engine alignedOnly).run labels (setup n ι futures bytesRead) = some s)
    (before : s.threads t = .gate fields w head ∨ s.threads t = .wait fields w head)
    (fails : (engine alignedOnly).step s (.thread t (.accel false)) = some s')
    (goesOn : (engine alignedOnly).run later s' = some s'') :
    ∃ j turn, fields.ticket = some (j, turn) ∧ ∀ v,
      (∀ f ∈ (s''.workers v).published, f.ticket ≠ some (j, turn)) ∧
      ∀ k e, (k, e) ∈ (s''.workers v).log →
        ∃ f, (s''.workers v).published[k]? = some f ∧ f.ticket ≠ some (j, turn) := by
  obtain ⟨inv, tickets⟩ := Tickets.run ran
  have inv' := inv.step fails
  obtain ⟨⟨j, turn, ticket⟩, rfl⟩ := gate_fails before fails
  have holds : (s.threads t).held = some fields := by
    rcases before with pc | pc <;> rw [pc] <;> rfl
  have none : ∀ t' g, ((s.setThread t (.unlock none)).threads t').held ≠ some g := by
    intro t' g holds'
    cases inv.held_after (SubmitPc.critical_of_held holds) rfl holds'
  have unserved : Unserved (s.setThread t (.unlock Option.none)) j turn :=
    tickets.unserved holds ticket (fun _ => rfl) (fun _ => rfl) none
  obtain ⟨inv'', unserved''⟩ := unserved.run inv' goesOn
  refine ⟨j, turn, ticket, fun v => ⟨unserved''.published v, fun k e member => ?_⟩⟩
  obtain ⟨m, queue⟩ := inv''.queues v
  have lt : k < (s''.workers v).published.length := queue.lives.fresh _ member
  exact ⟨_, List.getElem?_eq_getElem lt, unserved''.published v _ (List.getElem_mem lt)⟩

end Runs

/-! ## One read -/

/-- A read of a stream. -/
def oneStreamRead : Call := ⟨false, 0, 0, .stream ⟨1, 2, 3, 4, 0⟩⟩

/-- Its steps up to the enqueue of the gate. -/
def readToGate : List (Label 1 Unit) :=
  .thread () (.call oneStreamRead) :: List.replicate 3 (.thread () .go)

/-- Its steps up to the enqueue of the copy. -/
def readToCopy : List (Label 1 Unit) :=
  readToGate ++ List.replicate 2 (.thread () (.accel true)) ++ List.replicate 3 (.thread () .go)

/-- The gate opens, and the worker serves the read with one command. -/
def servesRead : List (Label 1 Unit) :=
  let choices : List Choice := [.go, .go, .go, .go, .issue .chunk 512, .go, .go, .go, .go,
    .poked 0 true, .go, .go, .go, .copies true, .go, .go]
  .gpu 0 :: choices.map (.worker 0)

/-- Where the thread is, what is written down of the worker and what the byte count of the
read is past a run. -/
def outcome (labels : List (Label 1 Unit)) : Option (SubmitPc 1 × List (Nat × OpEvent) × Int) :=
  ((engine false).run labels (setup 1 Unit noFutures fun _ => 0)).map fun s =>
    (s.threads (), (s.workers 0).log, s.bytesRead 4)

/-- The read that is rejected at its gate is not served, and the one after it is. -/
theorem rejected_never_served_before_other :
    ∃ s s' s'' : System 1 Unit,
      (engine false).run readToGate (setup 1 Unit noFutures fun _ => 0) = some s ∧
      (engine false).step s (.thread () (.accel false)) = some s' ∧
      (engine false).run (.thread () .go :: (readToCopy ++ servesRead)) s' = some s'' ∧
      (s''.workers 0).log.length = 6 ∧ ∀ k e, (k, e) ∈ (s''.workers 0).log →
        ∃ f, (s''.workers 0).published[k]? = some f ∧ f.ticket ≠ some (0, 1) := by
  have gate : outcome readToGate =
      some (.gate ⟨false, 0, 0, .stream ⟨1, 2, 3, 4, 0⟩ 1⟩ 0 0, [], 0) := by decide +kernel
  have served : (outcome (readToGate ++ .thread () (.accel false) :: .thread () .go ::
      (readToCopy ++ servesRead))).map (fun out => out.2.1.length) = some 6 := by decide +kernel
  obtain ⟨s, ran, facts⟩ := Option.map_eq_some_iff.mp gate
  obtain ⟨out, after, six⟩ := Option.map_eq_some_iff.mp served
  obtain ⟨s'', rest, same⟩ := Option.map_eq_some_iff.mp after
  rw [Machine.run_append, ran, Option.bind_some, Machine.run_cons] at rest
  obtain ⟨s', fails, goesOn⟩ := Option.bind_eq_some_iff.mp rest
  obtain ⟨j, turn, ticket, unserved⟩ :=
    rejected_never_served ran (.inl (congrArg Prod.fst facts)) fails goesOn
  cases ticket
  subst same
  exact ⟨s, s', s'', ran, fails, goesOn, six, (unserved 0).2⟩

/-- **A read whose copy could not be enqueued is served**: its call has returned, and the
worker issues its command and stores its byte count. -/
theorem lost_copy_served :
    outcome readToCopy = some (.copy 0, [], 0) ∧
      outcome (readToCopy ++ [.thread () (.accel false)]) = some (.idle, [], 0) ∧
      outcome (readToCopy ++ [.thread () (.accel false)] ++ servesRead) =
        some (.idle, [(0, .dispatched), (0, .issued .chunk 512), (0, .arrived .chunk 512 true),
          (0, .copied true), (0, .stored (.gate 4 0 1) 512), (0, .completed (.gate 4 0 1) 512)],
          512) :=
  ⟨by decide +kernel, by decide +kernel, by decide +kernel⟩

end OpenDS.Engine
