import OpenDS.Engine.CopyOrder

/-!
# Turns without gaps

A stream all of whose gates are enqueued publishes every turn that it draws
(`Gapless`). What is published and not completed fits into the queues, so the next turn is
never far from one that the stream has reached (`GateInv.near_of_gapless`).
-/

set_option autoImplicit false

namespace OpenDS.Engine

open OpenDS.Library OpenDS.Aisio

variable {n : Nat} {ι : Type} {s s' : System n ι} {j turn : Nat} {w : Fin n} {k : Nat} {f : OpFields}
  {t : ι}

/-- `MAX_IO_THREADS`. -/
def maxIoThreads : Nat := 15

/-- The turn is that of an operation that is published, or about to be. -/
def System.Used (s : System n ι) (j turn : Nat) : Prop :=
  (∃ w k f, s.HasTurn j turn w k f) ∨
    ∃ t f, (s.threads t).held = some f ∧ f.ticket = some (j, turn)

/-- **Every turn that the stream has drawn is used.** -/
def Gapless (s : System n ι) (j : Nat) : Prop :=
  ∀ turn, 0 < turn → turn ≤ (s.streams j).turns → s.Used j turn

/-- The call of the accelerator succeeds, if the step is one. -/
def Enqueues : Label n ι → Prop
  | .thread _ (.accel ok) => ok = true
  | _ => True

/-- What is published or held stays so. -/
theorem System.Used.keep (used : s.Used j turn)
    (published : ∀ w, ∃ more, (s'.workers w).published = (s.workers w).published ++ more)
    (held : ∀ u f, (s.threads u).held = some f → f.ticket = some (j, turn) →
      (s'.threads u).held = some f ∨ ∃ w k, s'.HasTurn j turn w k f) : s'.Used j turn := by
  rcases used with ⟨w, k, f, has⟩ | ⟨u, f, holds, ticket⟩
  · obtain ⟨more, longer⟩ := published w
    refine .inl ⟨w, k, f, ?_, has.ticket⟩
    rw [longer, List.getElem?_append_left (List.getElem?_eq_some_iff.mp has.published).1]
    exact has.published
  · rcases held u f holds ticket with holds | ⟨w, k, has⟩
    · exact .inr ⟨u, f, holds, ticket⟩
    · exact .inl ⟨w, k, f, has⟩

/-- A thread goes on with what it holds. -/
theorem System.Used.goOn [DecidableEq ι] (used : s.Used j turn) {pc : SubmitPc n}
    (threads : s'.threads = Function.update s.threads t pc)
    (published : ∀ w, (s'.workers w).published = (s.workers w).published)
    (held : (s.threads t).held = none ∨ pc.held = (s.threads t).held) : s'.Used j turn := by
  refine used.keep (fun w => ⟨[], by rw [published, List.append_nil]⟩) fun u f holds _ => .inl ?_
  rw [threads]
  by_cases here : u = t
  · subst here
    rw [Function.update_self]
    rcases held with none | same
    · rw [none] at holds
      cases holds
    · exact same.trans holds
  · rw [Function.update_of_ne here]
    exact holds

namespace Gapless

theorem start (futures : Nat → Future) (bytesRead : Nat → Int) :
    Gapless (setup n ι futures bytesRead) j := by
  intro turn positive drawn
  exact absurd drawn (Nat.not_le_of_lt positive)

/-- A thread goes on with what it holds, and draws nothing. -/
theorem goOn [DecidableEq ι] (gapless : Gapless s j) {pc : SubmitPc n}
    (turns : (s'.streams j).turns = (s.streams j).turns)
    (threads : s'.threads = Function.update s.threads t pc)
    (published : ∀ w, (s'.workers w).published = (s.workers w).published)
    (held : (s.threads t).held = none ∨ pc.held = (s.threads t).held) : Gapless s' j :=
  fun turn positive drawn => (gapless turn positive (turns ▸ drawn)).goOn threads published held

/-- **A step of a thread that enqueues what it is to leaves no gap.** -/
theorem thread [DecidableEq ι] [NeZero n] {alignedOnly : Bool} (gapless : Gapless s j)
    (inv : EngineInv s) (effect : ThreadEffect alignedOnly s t s')
    (goesOn : ∀ fields w head, s.threads t = .gate fields w head ∨ s.threads t = .wait fields w head →
      s'.threads t ≠ .unlock none) : Gapless s' j := by
  have put : ∀ (v : Fin n) (worker : IoWorker), worker.published = (s.workers v).published →
      ∀ u, (Function.update s.workers v worker u).published = (s.workers u).published := by
    intro v worker same u
    by_cases here : u = v
    · subst here
      rw [Function.update_self, same]
    · rw [Function.update_of_ne here]
  cases effect with
  | callAsync c a pc args => exact gapless.goOn rfl rfl (fun _ => rfl) (.inl (by rw [pc]; rfl))
  | callStream c pc => exact gapless.goOn rfl rfl (fun _ => rfl) (.inl (by rw [pc]; rfl))
  | lock c pc free => exact gapless.goOn rfl rfl (fun _ => rfl) (.inl (by rw [pc]; rfl))
  | claim c pc room => exact gapless.goOn rfl rfl (fun _ => rfl) (.inl (by rw [pc]; rfl))
  | full c pc => exact gapless.goOn rfl rfl (fun _ => rfl) (.inl (by rw [pc]; rfl))
  | fillAsync c v head a pc args => exact gapless.goOn rfl rfl (put v _ rfl) (.inl (by rw [pc]; rfl))
  | fillStream c v head a turn pc args next =>
      -- The turn that is new is that of the operation that is filled in.
      intro turn' positive drawn
      by_cases old : turn' ≤ (s.streams j).turns
      · exact (gapless turn' positive old).goOn rfl (put v _ rfl) (.inl (by rw [pc]; rfl))
      · refine .inr ⟨t, ⟨c.isWrite, c.h, c.bufBase, .stream a turn⟩, ?_, ?_⟩
        · rw [System.setThread_self]
          rfl
        · simp only [System.setThread, System.setWorker, System.setStream, Function.update_apply] at drawn
          split at drawn
          · rename_i here
            have drawn : turn' ≤ turn := drawn
            rw [here] at old ⊢
            exact congrArg (fun turn => some (a.stream, turn)) (by omega)
          · exact absurd drawn old
  | fails fields v head pc =>
      exact absurd (Function.update_self _ _ _) (goesOn fields v head pc)
  | park fields v head a turn pc args aligned =>
      refine gapless.goOn ?_ rfl (fun _ => rfl) (.inr (by rw [pc]; rfl))
      exact setStream_turns s (by rfl) j
  | write fields v head a turn pc args aligned =>
      refine gapless.goOn ?_ rfl (fun _ => rfl) (.inr (by rw [pc]; rfl))
      exact setStream_turns s (by rfl) j
  | wait fields v head a turn pc args =>
      refine gapless.goOn ?_ rfl (fun _ => rfl) (.inr (by rw [pc]; rfl))
      exact setStream_turns s (by rfl) j
  | pend fields v head pc => exact gapless.goOn rfl rfl (put v _ rfl) (.inr (by rw [pc]; rfl))
  | publish fields v head pc =>
      have published := inv.published_eq pc
      refine fun turn positive drawn => (gapless turn positive drawn).keep (fun w => ?_)
        fun u f holds ticket => ?_
      · by_cases here : w = v
        · subst here
          simp only [System.setThread, System.setWorker, Function.update_self]
          exact ⟨_, rfl⟩
        · simp only [System.setThread, System.setWorker, Function.update_of_ne here]
          exact ⟨[], (List.append_nil _).symm⟩
      · by_cases here : u = t
        · subst here
          rw [pc] at holds
          cases holds
          refine .inr ⟨v, (s.workers v).published.length, ?_, ticket⟩
          simp only [System.setThread, System.setWorker, Function.update_self]
          rw [published, List.getElem?_concat_length]
        · simp only [System.setThread, Function.update_of_ne here]
          exact .inl holds
  | unlock copy pc' pc next => exact gapless.goOn rfl rfl (fun _ => rfl) (.inl (by rw [pc]; rfl))
  | copy i pc =>
      refine gapless.goOn ?_ rfl (fun _ => rfl) (.inl (by rw [pc]; rfl))
      exact setStream_turns s (by rfl) j
  | lost i pc => exact gapless.goOn rfl rfl (fun _ => rfl) (.inl (by rw [pc]; rfl))

/-- **Every step that enqueues what it is to leaves no gap.** -/
theorem step [DecidableEq ι] [NeZero n] {alignedOnly : Bool} {l : Label n ι} (gapless : Gapless s j)
    (inv : EngineInv s) (enqueues : Enqueues l) (step : (engine alignedOnly).step s l = some s') :
    Gapless s' j := by
  cases l with
  | thread t act =>
      refine gapless.thread inv (System.threadStep_effect step) fun fields w head pc lost => ?_
      have step : s.threadStep alignedOnly t act = some s' := step
      cases act with
      | accel ok =>
          have ok : ok = true := enqueues
          subst ok
          -- The thread goes on behind the gate or the wait that it has enqueued.
          rcases pc with pc | pc <;> simp only [System.threadStep, pc] at step <;> split at step
          · cases step
          · split at step <;> cases step <;>
              simp [System.enqueued, System.setThread] at lost
          · cases step
          · cases step
            simp [System.enqueued, System.setThread] at lost
      | _ => rcases pc with pc | pc <;> simp only [System.threadStep, pc, reduceCtorEq] at step
  | worker w c =>
      obtain ⟨event, worker, effect, rfl⟩ := System.workerStep_effect step
      obtain ⟨threads, -, workers, -⟩ := (s.setWorker w (worker.record event)).apply_frame event
      intro turn positive drawn
      rw [apply_turns] at drawn
      refine (gapless turn positive drawn).keep (fun v => ⟨[], ?_⟩) fun u f holds _ => .inl ?_
      · rw [workers, List.append_nil, System.setWorker]
        by_cases here : v = w
        · subst here
          simp only [Function.update_self]
          exact (published_of_effect effect).1
        · simp only [Function.update_of_ne here]
      · rw [threads]
        exact holds
  | gpu i =>
      have effect := System.gpuStep_effect step
      obtain ⟨threads, -, workers, -⟩ := effect.frame
      intro turn positive drawn
      rw [effect.turns] at drawn
      refine (gapless turn positive drawn).keep (fun v => ⟨[], ?_⟩) fun u f holds _ => .inl ?_
      · rw [workers, List.append_nil]
      · rw [threads]
        exact holds
  | stop =>
      cases step
      exact fun turn positive drawn => (gapless turn positive drawn).keep
        (fun w => ⟨[], (List.append_nil _).symm⟩) fun u f holds _ => .inl holds

end Gapless

/-! ## How far a stream is ahead -/

/-- An operation that is not completed is in the window of its queue. -/
theorem QueueInv.low_of_open {worker : IoWorker} {offer : Option Offer} {m : Marks}
    (queue : QueueInv worker offer m) (lt : k < worker.published.length)
    (open' : ¬ worker.Completed k) : m.tail ≤ k := by
  by_contra before
  obtain ⟨r, done⟩ := queue.lives.done k lt (Nat.lt_of_not_le before)
  exact open' ⟨_, r, OpFields.life_end done⟩

/-- What is completed has been dispatched. -/
theorem OpFields.dispatched_of_done {events : List OpEvent} {stage : Stage}
    (lived : f.life.run events .waiting = some stage) (done : stage.task = .done) :
    .dispatched ∈ events := by
  have count := life_count lived 1 (by decide)
  rw [if_pos (by cases stage <;> first | exact Nat.le_of_ble_eq_true rfl | cases done)] at count
  obtain ⟨e, member, rank⟩ := List.countP_pos_iff.mp (show 0 < _ by rw [count]; decide)
  cases e with
  | dispatched => exact member
  | _ => simp [OpEvent.rank] at rank

/-- **The turn of a stream without gaps that is published next is close to one that the stream
has reached.** -/
theorem GateInv.near_of_gapless (inv : GateInv s) (few : n ≤ maxIoThreads)
    (earlier : ∀ turn', 0 < turn' → turn' < turn → ∃ w k f, s.HasTurn j turn' w k f) :
    s.Near j turn := by
  by_contra far
  rw [System.Near, not_or, not_exists] at far
  have safe := inv.gateSafe j
  -- None of the last `2 ^ 30` turns is reached, so none of them is completed.
  have waits : ∀ turn', 0 < turn' → turn' < turn → turn ≤ turn' + 2 ^ 30 →
      ∃ w k f, s.HasTurn j turn' w k f ∧ ¬ (s.workers w).Completed k := by
    intro turn' positive before close
    obtain ⟨w, k, f, has⟩ := earlier turn' positive before
    refine ⟨w, k, f, has, fun completed => far.2 turn' ⟨⟨⟨w, k, f, has⟩, ?_⟩, close⟩⟩
    obtain ⟨target, m, there⟩ := completed
    obtain ⟨stage, lived⟩ := inv.locked.lived has.published
    obtain rfl := OpFields.life_completed lived there
    exact safe.reached w k f turn' has (OpFields.dispatched_of_done lived rfl)
  obtain ⟨w₀, -, f₀, -⟩ := earlier 1 (by decide) (by omega)
  have : Nonempty (Fin n) := ⟨w₀⟩
  have : Nonempty OpFields := ⟨f₀⟩
  choose! w k f has using waits
  -- They have a slot each.
  have more : (Finset.univ : Finset (Fin n × Fin queueSize)).card <
      (Finset.Ico (turn - 2 ^ 30) turn).card := by
    rw [Finset.card_univ, Fintype.card_prod, Fintype.card_fin, Fintype.card_fin, Nat.card_Ico]
    have fit : n * queueSize ≤ maxIoThreads * queueSize := Nat.mul_le_mul_right _ few
    have small : maxIoThreads * queueSize < 2 ^ 30 := by decide
    omega
  obtain ⟨a, inA, b, inB, ne, same⟩ := Finset.exists_ne_map_eq_of_card_lt_of_maps_to more
    (f := fun turn' => (w turn', slotAt (k turn'))) fun _ _ => Finset.mem_coe.mpr (Finset.mem_univ _)
  rw [Finset.mem_Ico] at inA inB
  obtain ⟨hasA, openA⟩ := has a (by omega) inA.2 (by omega)
  obtain ⟨hasB, openB⟩ := has b (by omega) inB.2 (by omega)
  obtain ⟨worker, slot⟩ := Prod.mk.inj same
  rw [← worker] at hasB openB
  obtain ⟨m, queue⟩ := inv.locked.queues (w a)
  obtain ⟨ltA, ownA⟩ := List.getElem?_eq_some_iff.mp hasA.published
  obtain ⟨ltB, ownB⟩ := List.getElem?_eq_some_iff.mp hasB.published
  have here : k a = k b := by
    by_contra apart
    exact queue.counters.slotAt_ne (queue.low_of_open ltA openA) ltA (queue.low_of_open ltB openB)
      ltB apart slot
  -- An operation has one turn.
  have published := hasB.published
  rw [← here, hasA.published] at published
  have ticket := hasB.ticket
  rw [← Option.some.inj published, hasA.ticket] at ticket
  exact ne (Prod.mk.inj (Option.some.inj ticket)).2

/-- **Streams without gaps publish nothing far ahead.** -/
theorem GateInv.publishesNear [DecidableEq ι] (inv : GateInv s) (few : n ≤ maxIoThreads)
    (gapless : ∀ i, Gapless s i) (l : Label n ι) : PublishesNear s l := by
  cases l with
  | thread t act =>
      intro fields w head i turn pc ticket
      have held : (s.threads t).held = some fields := by rw [pc]; rfl
      refine inv.near_of_gapless few fun turn' positive before => ?_
      obtain ⟨last, -⟩ := inv.tickets.held t fields i turn held ticket
      rcases gapless i turn' positive (by omega) with published | ⟨u, f, holds, ticket'⟩
      · exact published
      · -- Only the thread itself is about to publish.
        have here : u = t := by
          by_contra other
          rw [inv.locked.alone (SubmitPc.critical_of_held held) other] at holds
          cases holds
        subst here
        rw [held] at holds
        cases holds
        rw [ticket] at ticket'
        cases ticket'
        exact absurd before (Nat.lt_irrefl _)
  | _ => trivial

end OpenDS.Engine
