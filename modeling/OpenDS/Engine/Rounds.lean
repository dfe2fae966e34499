import OpenDS.Engine.GateOrder

/-!
# The rounds of a worker

A worker goes through its queue in rounds: it loads the head, visits what is published up to
it, and is back at the load. An operation that is published when a round begins and whose gate
is open is dispatched in the round, and one whose commands have arrived is completed in it,
whatever submitters, other workers and streams do meanwhile (`served_in_two_rounds`). A stream
that stands at a wait stands there until an operation that it has reached is completed, so no
wait is for ever (`wait_ends`).
-/

set_option autoImplicit false

namespace OpenDS.Engine

open OpenDS.Library OpenDS.Aisio

/-! ## The scan -/

/-- The scan of the worker is at the operation or has it still before it. -/
def IoWorker.Ahead (w : IoWorker) (k : Nat) : Prop :=
  (w.pc = .scan ∨ w.pc.onOp = true) ∧
    ∃ a b, w.i = word 32 a ∧ w.head = word 32 b ∧ a ≤ k ∧ k < b ∧ b ≤ a + queueSize

/-- Why the scan of a worker leaves the operation it is at. -/
inductive IoWorker.Leaves (gate : Nat → BitVec 32) (w : IoWorker) : Prop
  | done : w.pc = .scan → w.current.state = .free → Leaves gate w
  | gated (a : FileOpStream) (turn : Nat) : w.pc = .poll → w.current.fields.u = .stream a turn →
      gated (gate a.stream) turn = true → Leaves gate w
  | submitted : w.pc = .submit → Leaves gate w
  | notYet : w.pc = .reap → ¬ (w.current.chunksRemaining = 0 ∧ w.current.bouncesOutstanding = 0) →
      Leaves gate w
  | reported : w.pc = .free → Leaves gate w

section Worker

variable {gate : Nat → BitVec 32} {stop : Bool} {w w' : IoWorker} {offer : Option Offer} {m : Marks}
  {k : Nat} {c : Choice} {event : Option (Nat × OpEvent)}

theorem WorkerPc.onOp_ne {pc : WorkerPc} (on : pc = .scan ∨ pc.onOp = true) :
    pc ≠ .load ∧ pc ≠ .advance ∧ pc ≠ .stopCheck ∧ pc ≠ .poke ∧ pc ≠ .exited := by
  rcases on with rfl | on
  · simp
  · cases pc <;> first | (cases on; done) | simp

/-- The reads whose commands have arrived are reaped. -/
theorem IoWorker.act_reap (pc : w.pc = .reap)
    (quiet : w.current.chunksRemaining = 0 ∧ w.current.bouncesOutstanding = 0)
    (step : w.act gate stop c = some (w', event)) : w'.pc.onOp = true := by
  cases c with
  | copies ok =>
      simp only [act, pc, if_pos quiet] at step
      cases step
      rfl
  | _ => simp only [act, pc, reduceCtorEq] at step

/-- **The scan comes to every operation before it**, one after the other. -/
theorem IoWorker.Ahead.act (ahead : w.Ahead k) (step : w.act gate stop c = some (w', event)) :
    (w'.record event).Ahead k ∨ w.i = word 32 k ∧ w.Leaves gate := by
  obtain ⟨on, a, b, i, head, upTo, before, close⟩ := ahead
  obtain ⟨notLoad, notAdvance, notStop, notPoke, -⟩ := WorkerPc.onOp_ne on
  have stays : ∀ w'' : IoWorker, w''.pc = .scan ∨ w''.pc.onOp = true → w''.i = w.i → w''.head = w.head →
      w''.Ahead k := fun w'' on' i' head' =>
    ⟨on', a, b, i'.trans i, head'.trans head, upTo, before, close⟩
  have passes : ∀ w'' : IoWorker, w''.pc = .scan → w''.i = w.i + 1#32 → w''.head = w.head →
      w.Leaves gate → w''.Ahead k ∨ w.i = word 32 k ∧ w.Leaves gate := by
    intro w'' scan i' head' leaves
    rcases Nat.eq_or_lt_of_le upTo with rfl | earlier
    · exact .inr ⟨i, leaves⟩
    · refine .inl ⟨.inl scan, a + 1, b, ?_, head'.trans head, earlier, before, by omega⟩
      rw [i', i, word_succ]
  cases IoWorker.act_effect step with
  | load pc => exact absurd pc notLoad
  | scanned pc last =>
      rw [i, head] at last
      have same := eq_of_word_eq (by omega) (by simp only [queueSize] at close; omega) last
      omega
  | skip pc more free => exact passes _ rfl rfl rfl (.done pc free)
  | visit pc' pc more visits =>
      refine .inl (stays _ (.inr ?_) rfl rfl)
      cases visits <;> rfl
  | gated a turn pc args closed => exact passes _ rfl rfl rfl (.gated a turn pc args closed)
  | opened => exact .inl (stays _ (.inr rfl) rfl rfl)
  | dispatchWrite => exact .inl (stays _ (.inr rfl) rfl rfl)
  | dispatchRead => exact .inl (stays _ (.inr rfl) rfl rfl)
  | issue callback nbytes pc => exact .inl (stays _ on rfl rfl)
  | refuse e pc => exact passes _ rfl rfl rfl (.submitted pc)
  | submitted pc => exact passes _ rfl rfl rfl (.submitted pc)
  | arrive c command ok pc there => exact .inl (stays _ on rfl rfl)
  | wrote => exact .inl (stays _ (.inr rfl) rfl rfl)
  | notYet pc =>
      refine passes _ rfl rfl rfl (.notYet pc fun quiet => ?_)
      cases IoWorker.act_reap pc quiet step
  | copied => exact .inl (stays _ (.inr rfl) rfl rfl)
  | store => exact .inl (stays _ (.inr rfl) rfl rfl)
  | complete => exact .inl (stays _ (.inr rfl) rfl rfl)
  | free pc => exact passes _ rfl rfl rfl (.reported pc)
  | retired pc => exact absurd pc notAdvance
  | retire pc => exact absurd pc notAdvance
  | stuck pc => exact absurd pc notAdvance
  | exit pc => exact absurd pc notStop
  | again pc' pc => exact absurd pc notStop
  | poked pc => exact absurd pc notPoke

/-- The word of the scan tells the operation it is at. -/
theorem QueueInv.at_word (inv : QueueInv w offer m) (on : w.pc = .scan ∨ w.pc.onOp = true)
    (low : m.tail ≤ k) (lt : k < w.published.length) (same : w.i = word 32 k) : m.i = k := by
  obtain ⟨i, lowI, upTo⟩ := inv.counters.scan on
  have inPass : w.pc.inPass = true := by
    rcases on with pc | on
    · rw [pc]
      rfl
    · cases pc : w.pc <;> rw [pc] at on <;> first | rfl | cases on
  obtain ⟨-, -, below⟩ := inv.counters.pass inPass
  have room := inv.counters.room
  simp only [queueSize] at room
  have words : word 32 m.i = word 32 k := i.symm.trans same
  rcases Nat.le_total m.i k with order | order
  · exact eq_of_word_eq order (by omega) words
  · exact (eq_of_word_eq order (by omega) words.symm).symm

/-- An operation that has not been dispatched waits. -/
theorem OpFields.waiting_of_not_dispatched {f : OpFields} {events : List OpEvent} {stage : Stage}
    (lived : f.life.run events .waiting = some stage) (not : .dispatched ∉ events) :
    stage = .waiting := by
  have count := life_count lived 1 (by decide)
  have none : events.countP (fun e => e.rank = some 1) = 0 := by
    refine List.countP_eq_zero.mpr fun e member first => not ?_
    cases e with
    | dispatched => exact member
    | _ => simp [OpEvent.rank] at first
  rw [none] at count
  cases stage with
  | waiting => rfl
  | _ => simp [Stage.rank] at count

/-- A gate that is open lets the operation of its turn through. -/
def Opens (gate : Nat → BitVec 32) (f : OpFields) : Prop :=
  ∀ a turn, f.u = .stream a turn → gated (gate a.stream) turn = false

/-- **The scan leaves no operation undispatched** whose gate is open. -/
theorem QueueInv.dispatched_of_leaves (inv : QueueInv w offer m) (low : m.tail ≤ k)
    (lt : k < w.published.length) (here : m.i = k) (leaves : w.Leaves gate)
    (isOpen : .dispatched ∉ w.history k → Opens gate w.published[k]) : .dispatched ∈ w.history k := by
  subst here
  by_contra not
  obtain ⟨stage, lived, shown⟩ := inv.lives.live m.i lt low
  obtain rfl := OpFields.waiting_of_not_dispatched lived not
  have current : w.pc = .scan ∨ w.pc.onOp = true → w.current = w.opAt m.i := inv.counters.current
  have pending : w.pc.late = false → (w.opAt m.i).state = .pending := fun early => shown.rests early
  cases leaves with
  | done pc free =>
      rw [current (.inl pc), pending (by rw [pc]; rfl)] at free
      cases free
  | gated a turn pc args closed =>
      rw [current (.inr (by rw [pc]; rfl)), (inv.slots.window m.i lt low).2] at args
      rw [isOpen not a turn args] at closed
      cases closed
  | submitted pc =>
      have inFlight := inv.lives.reads (.inl pc)
      rw [pending (by rw [pc]; rfl)] at inFlight
      cases inFlight
  | notYet pc =>
      have inFlight := inv.lives.reads (.inr pc)
      rw [pending (by rw [pc]; rfl)] at inFlight
      cases inFlight
  | reported pc =>
      rw [IoWorker.Shows, if_pos ⟨by rw [pc]; rfl, rfl⟩, pc] at shown
      exact shown

/-- What is left to do for a read is to report it: it has been dispatched and its commands have
arrived. -/
structure Answered (w : IoWorker) (k : Nat) : Prop where
  dispatched : .dispatched ∈ w.history k
  arrived : ∀ c ∈ w.commands, c.id ≠ k
  submitted : w.pc = .submit → w.current.id ≠ k

/-- **The scan completes what it leaves**, if it is a write whose gate is open or a read whose
commands have arrived. -/
theorem QueueInv.completed_of_leaves (inv : QueueInv w offer m) (low : m.tail ≤ k)
    (lt : k < w.published.length) (here : w.i = word 32 k) (leaves : w.Leaves gate)
    (ready : w.published[k].isWrite = true ∧ (.dispatched ∉ w.history k → Opens gate w.published[k]) ∨
      Answered w k) : w.Completed k := by
  have on : w.pc = .scan ∨ w.pc.onOp = true := by
    cases leaves with
    | done pc => exact .inl pc
    | gated a turn pc | submitted pc | notYet pc | reported pc =>
        rw [pc]
        exact .inr rfl
  obtain rfl := inv.at_word on low lt here
  have dispatched : .dispatched ∈ w.history m.i := by
    rcases ready with ⟨-, isOpen⟩ | answered
    · exact inv.dispatched_of_leaves low lt rfl leaves isOpen
    · exact answered.dispatched
  have current := inv.counters.current on
  have fields := (inv.slots.window m.i lt low).2
  obtain ⟨stage, lived, shown⟩ := inv.lives.live m.i lt low
  -- An operation in flight is a read whose commands have not arrived.
  have reading : w.pc.late = false → (w.opAt m.i).state = .inFlight → Answered w m.i := by
    intro early inFlight
    rcases ready with ⟨write, -⟩ | answered
    · obtain ⟨-, read⟩ := QueuedOp.reading_of_inFlight (shown.rests early) inFlight
      rw [fields, write] at read
      cases read
    · exact answered
  cases leaves with
  | done pc free =>
      rw [current] at free
      obtain ⟨n, completed⟩ := inv.completed_of_free (by rw [pc]; rfl) low lt free
      exact ⟨_, n, OpFields.life_end completed⟩
  | gated a turn pc args closed =>
      obtain rfl := QueuedOp.waiting_of_pending (shown.rests (by rw [pc]; rfl)) (inv.lives.polls (.inl pc))
      rcases OpFields.entered_of_dispatched lived dispatched with no | no <;> cases no
  | submitted pc =>
      have answered := reading (by rw [pc]; rfl) (inv.lives.reads (.inl pc))
      refine absurd ?_ (answered.submitted pc)
      rw [current, (inv.slots.window m.i lt low).1]
  | notYet pc remaining =>
      have inFlight := inv.lives.reads (.inr pc)
      have answered := reading (by rw [pc]; rfl) inFlight
      obtain ⟨chunks, bounces⟩ := inv.commands.counted m.i low lt inFlight
      rw [outstanding_eq_zero answered.arrived] at chunks bounces
      rw [current] at remaining
      exact absurd ⟨chunks, bounces⟩ remaining
  | reported pc =>
      rw [IoWorker.Shows, if_pos ⟨by rw [pc]; rfl, rfl⟩, pc] at shown
      cases stage with
      | completed n => exact ⟨_, n, OpFields.life_end lived⟩
      | _ => exact shown.elim

end Worker

variable {n : Nat} {ι : Type} {s s' : System n ι} {j turn : Nat} {w : Fin n} {k : Nat} {f : OpFields}

/-! ## Open gates -/

/-- The stream, if any, has reached the operation. -/
def System.Open (s : System n ι) (f : OpFields) : Prop :=
  ∀ j turn, f.ticket = some (j, turn) → s.Reached j turn

theorem gated_gateWord_self (turn : Nat) (released : Bool) :
    gated (gateWord turn released) turn = false := by
  have difference : gateWord turn released - 2#32 * word 32 turn = if released then 1#32 else 0#32 := by
    cases released <;> simp only [gateWord, if_true, Bool.false_eq_true, if_false] <;> bv_omega
  rw [gated, difference]
  cases released <;> decide

/-- **The gate of an operation that the stream has reached is open** until it is dispatched. -/
theorem GateInv.opens (inv : GateInv s) (published : (s.workers w).published[k]? = some f)
    (isOpen : s.Open f) (not : .dispatched ∉ (s.workers w).history k) :
    Opens (fun j => (s.streams j).gate) f := by
  intro a turn args
  have ticket := ticket_eq args
  obtain ⟨g, sim⟩ := inv.gates a.stream
  obtain ⟨stage, lived, task, -⟩ := sim.task inv.locked ⟨published, ticket⟩
  obtain rfl := OpFields.waiting_of_not_dispatched lived not
  obtain ⟨shown, -⟩ := sim.inv.shown_of_waiting task
    (sim.le_of_reached inv.locked (isOpen a.stream turn ticket))
  change gated (s.streams a.stream).gate turn = false
  rw [sim.line.gate, shown]
  exact gated_gateWord_self _ _

section Steps

variable [DecidableEq ι] [NeZero n] {alignedOnly : Bool} {l : Label n ι}

/-- A gate that is open stays so. -/
theorem GateInv.open_of_step (inv : GateInv s) (step : (engine alignedOnly).step s l = some s')
    (isOpen : s.Open f) : s'.Open f :=
  fun j turn ticket => inv.reached_of_step step (isOpen j turn ticket)

/-! ## Rounds -/

/-- The locals of a worker and its outstanding commands are left alone. -/
structure SameScan (worker worker' : IoWorker) : Prop where
  pc : worker'.pc = worker.pc
  i : worker'.i = worker.i
  head : worker'.head = worker.head
  commands : worker'.commands = worker.commands

omit [DecidableEq ι] [NeZero n] in
/-- A worker changes itself alone. -/
theorem System.workerStep_workers {c : Choice} (step : s.workerStep w c = some s') :
    ∃ worker event, (s.workers w).act (fun j => (s.streams j).gate) s.stop c = some (worker, event) ∧
      s'.workers = Function.update s.workers w (worker.record event) := by
  obtain ⟨⟨worker, event⟩, act, rfl⟩ := Option.map_eq_some_iff.mp step
  exact ⟨worker, event, act, ((s.setWorker w (worker.record event)).apply_frame event).2.2.1⟩

/-- A worker takes a step, or others leave its locals alone. -/
theorem scan_of_step (step : (engine alignedOnly).step s l = some s') (w : Fin n) :
    (∃ c worker event, l = .worker w c ∧
      (s.workers w).act (fun j => (s.streams j).gate) s.stop c = some (worker, event) ∧
      s'.workers w = worker.record event) ∨
      (∀ c, l ≠ .worker w c) ∧ SameScan (s.workers w) (s'.workers w) := by
  have put : ∀ (v : Fin n) (worker : IoWorker), SameScan (s.workers v) worker →
      SameScan (s.workers w) (Function.update s.workers v worker w) := by
    intro v worker same
    by_cases here : w = v
    · subst here
      rw [Function.update_self]
      exact same
    · rw [Function.update_of_ne here]
      exact ⟨rfl, rfl, rfl, rfl⟩
  cases l with
  | thread t act =>
      refine .inr ⟨by simp, ?_⟩
      cases System.threadStep_effect step with
      | fillAsync | fillStream | pend | publish => exact put _ _ ⟨rfl, rfl, rfl, rfl⟩
      | _ => exact ⟨rfl, rfl, rfl, rfl⟩
  | worker v c =>
      obtain ⟨worker, event, act, workers⟩ := System.workerStep_workers step
      rw [workers]
      by_cases here : w = v
      · subst here
        exact .inl ⟨c, worker, event, rfl, act, Function.update_self ..⟩
      · refine .inr ⟨fun c' same => here ?_, ?_⟩
        · cases same
          rfl
        · rw [Function.update_of_ne here]
          exact ⟨rfl, rfl, rfl, rfl⟩
  | gpu i =>
      refine .inr ⟨by simp, ?_⟩
      rw [(System.gpuStep_effect step).frame.2.2.1]
      exact ⟨rfl, rfl, rfl, rfl⟩
  | stop =>
      cases step
      exact .inr ⟨by simp, rfl, rfl, rfl, rfl⟩

/-- No other party touches the operation that a worker is at. -/
theorem EngineInv.current_of_step (inv : EngineInv s) (step : (engine alignedOnly).step s l = some s')
    (onOp : (s.workers w).pc.onOp = true) (others : ∀ c, l ≠ .worker w c) :
    (s'.workers w).current.name = (s.workers w).current.name := by
  have filled : ∀ {t : ι} {v : Fin n} {head : BitVec 32} {c : Call} (fields : OpFields),
      s.threads t = .fill c v head →
      (Function.update s.workers v ((s.workers v).fill head fields) w).current.name =
        (s.workers w).current.name := by
    intro t v head c fields pc
    by_cases here : w = v
    · subst here
      have critical : (s.threads t).critical = true := by rw [pc]; rfl
      have offers : (s.threads t).offer w = some ⟨head, none, false⟩ := by
        rw [pc]
        exact if_pos rfl
      rw [Function.update_self]
      exact congrArg QueuedOp.name
        (Function.update_of_ne ((inv.claimed critical offers).2.2 onOp) _ _)
    · rw [Function.update_of_ne here]
  have put : ∀ (v : Fin n) (worker : IoWorker), worker.current.name = (s.workers v).current.name →
      (Function.update s.workers v worker w).current.name = (s.workers w).current.name := by
    intro v worker same
    by_cases here : w = v
    · subst here
      rw [Function.update_self]
      exact same
    · rw [Function.update_of_ne here]
  cases l with
  | thread t act =>
      cases System.threadStep_effect step with
      | fillAsync c v head a pc args => exact filled _ pc
      | fillStream c v head a turn pc args next => exact filled _ pc
      | pend fields v head pc =>
          refine put v _ (put_name ?_ _)
          rfl
      | publish fields v head pc => exact put v _ rfl
      | _ => rfl
  | worker v c =>
      obtain ⟨worker, event, -, workers⟩ := System.workerStep_workers step
      have other : w ≠ v := by
        rintro rfl
        exact others c rfl
      rw [workers, Function.update_of_ne other]
  | gpu i => rw [(System.gpuStep_effect step).frame.2.2.1]
  | stop =>
      cases step
      rfl

/-- **A step of the engine leaves the operation before the scan**, or the worker is at it and
leaves it. -/
theorem ahead_of_step (step : (engine alignedOnly).step s l = some s')
    (ahead : (s.workers w).Ahead k) : (s'.workers w).Ahead k ∨
      (s.workers w).i = word 32 k ∧ (s.workers w).Leaves fun j => (s.streams j).gate := by
  rcases scan_of_step step w with ⟨c, worker, event, -, act, same⟩ | ⟨-, same⟩
  · rw [same]
    exact ahead.act act
  · left
    obtain ⟨on, a, b, i, head, order⟩ := ahead
    exact ⟨by rw [same.pc]; exact on, a, b, same.i.trans i, same.head.trans head, order⟩

/-- A round of a worker, with the steps that others take meanwhile. -/
structure Round (alignedOnly : Bool) (w : Fin n) (labels : List (Label n ι)) (s s' : System n ι) :
    Prop where
  begins : (s.workers w).pc = .load
  starts : labels.head? = some (.worker w .go)
  ran : (engine alignedOnly).run labels s = some s'
  ends : (s'.workers w).pc = .load

/-- **The rule of a round.** What holds of an operation when the scan leaves it, and stays, holds
when a round is over. -/
theorem Round.reaches {labels : List (Label n ι)} (holds goal : System n ι → Prop)
    (round : Round alignedOnly w labels s s') (near : (engine alignedOnly).Meets PublishesNear labels s)
    (keeps : ∀ s l s', GateInv s → (s.workers w).published[k]? = some f → holds s →
      (engine alignedOnly).step s l = some s' → holds s')
    (stays : ∀ s l s', goal s → (engine alignedOnly).step s l = some s' → goal s')
    (passed : ∀ s, GateInv s → (s.workers w).published[k]? = some f → (s.workers w).Completed k → goal s)
    (leaves : ∀ s, GateInv s → (s.workers w).published[k]? = some f → holds s →
      (s.workers w).Ahead k → (s.workers w).i = word 32 k →
      (s.workers w).Leaves (fun j => (s.streams j).gate) → goal s)
    (inv : GateInv s) (published : (s.workers w).published[k]? = some f) (start : holds s) : goal s' := by
  obtain ⟨begins, starts, ran, ends⟩ := round
  obtain ⟨rest, rfl⟩ : ∃ rest, labels = .worker w .go :: rest := List.head?_eq_some_iff.mp starts
  obtain ⟨s₁, step, ran⟩ := Option.bind_eq_some_iff.mp ran
  obtain ⟨here, later⟩ := (Machine.meets_cons_iff step).mp near
  -- The load puts everything that is published and not passed by the tail before the scan.
  have loaded : goal s₁ ∨ (s₁.workers w).Ahead k := by
    obtain ⟨m, queue⟩ := inv.locked.queues w
    obtain ⟨lt, same⟩ := List.getElem?_eq_some_iff.mp published
    by_cases low : m.tail ≤ k
    · right
      obtain ⟨worker, event, act, workers⟩ := System.workerStep_workers step
      simp only [IoWorker.act, begins, Option.some.injEq, Prod.mk.injEq] at act
      obtain ⟨rfl, rfl⟩ := act
      rw [workers, Function.update_self]
      exact ⟨.inl rfl, m.tail, (s.workers w).published.length, queue.counters.tail,
        queue.counters.head, low, lt, queue.counters.room⟩
    · obtain ⟨n, lived⟩ := queue.lives.done k lt (Nat.lt_of_not_le low)
      exact .inl (stays _ _ _ (passed s inv published ⟨_, n, OpFields.life_end lived⟩) step)
  have rule : ∀ s l s', GateInv s ∧ (s.workers w).published[k]? = some f ∧ holds s ∧
      (goal s ∨ (s.workers w).Ahead k) → PublishesNear s l → (engine alignedOnly).step s l = some s' →
      GateInv s' ∧ (s'.workers w).published[k]? = some f ∧ holds s' ∧
        (goal s' ∨ (s'.workers w).Ahead k) := by
    rintro s l s' ⟨inv, published, held, so⟩ near step
    refine ⟨inv.step near step, published_of_step_of_published step published,
      keeps s l s' inv published held step, ?_⟩
    rcases so with done | ahead
    · exact .inl (stays s l s' done step)
    · rcases ahead_of_step step ahead with ahead' | ⟨word, left'⟩
      · exact .inr ahead'
      · exact .inl (stays s l s' (leaves s inv published held ahead word left') step)
  obtain ⟨-, -, -, done | ahead⟩ := Machine.run_invariant rule
    ⟨inv.step here step, published_of_step_of_published step published,
      keeps _ _ _ inv published start step, loaded⟩ later ran
  · exact done
  · exact absurd ends (WorkerPc.onOp_ne ahead.1).1

omit [DecidableEq ι] [NeZero n] in
/-- A completed operation has been dispatched. -/
theorem EngineInv.dispatched_of_completed (inv : EngineInv s)
    (published : (s.workers w).published[k]? = some f) (completed : (s.workers w).Completed k) :
    .dispatched ∈ (s.workers w).history k := by
  obtain ⟨target, m, completed⟩ := completed
  obtain ⟨stage, lived⟩ := inv.lived published
  by_contra not
  obtain rfl := OpFields.waiting_of_not_dispatched lived not
  cases OpFields.life_completed lived completed

omit [DecidableEq ι] [NeZero n] in
/-- An operation that is not completed is in the window of its queue. -/
theorem EngineInv.window (inv : EngineInv s) (published : (s.workers w).published[k]? = some f)
    (open' : ¬ (s.workers w).Completed k) : ∃ m, QueueInv (s.workers w) (s.offer w) m ∧ m.tail ≤ k ∧
      ∃ lt : k < (s.workers w).published.length, (s.workers w).published[k] = f := by
  obtain ⟨m, queue⟩ := inv.queues w
  obtain ⟨lt, same⟩ := List.getElem?_eq_some_iff.mp published
  refine ⟨m, queue, ?_, lt, same⟩
  by_contra before
  obtain ⟨n, done⟩ := queue.lives.done k lt (Nat.lt_of_not_le before)
  exact open' ⟨_, n, OpFields.life_end done⟩

/-- **A round dispatches** what is published when it begins and has its gate open. -/
theorem Round.dispatched {labels : List (Label n ι)} (round : Round alignedOnly w labels s s')
    (near : (engine alignedOnly).Meets PublishesNear labels s) (inv : GateInv s)
    (published : (s.workers w).published[k]? = some f) (isOpen : s.Open f) :
    .dispatched ∈ (s'.workers w).history k := by
  refine round.reaches (fun s => s.Open f) (fun s => .dispatched ∈ (s.workers w).history k) near
    (fun s l s' inv _ isOpen step => inv.open_of_step step isOpen)
    (fun s l s' dispatched step => (history_of_step step w k).subset dispatched)
    (fun s inv published completed => inv.locked.dispatched_of_completed published completed)
    (fun s inv published isOpen ahead word leaves => ?_) inv published isOpen
  by_contra not
  have unfinished : ¬ (s.workers w).Completed k := fun completed =>
    not (inv.locked.dispatched_of_completed published completed)
  obtain ⟨m, queue, low, lt, same⟩ := inv.locked.window published unfinished
  refine not (queue.dispatched_of_leaves low lt (queue.at_word ahead.1 low lt word) leaves fun not => ?_)
  rw [same]
  exact inv.opens published isOpen not

/-- A read whose commands have arrived gets no new ones. -/
theorem Answered.step (answered : Answered (s.workers w) k) (inv : EngineInv s)
    (step : (engine alignedOnly).step s l = some s') : Answered (s'.workers w) k := by
  obtain ⟨dispatched, arrived, submitted⟩ := answered
  have dispatched' := (history_of_step step w k).subset dispatched
  rcases scan_of_step step w with ⟨c, worker, event, -, act, same⟩ | ⟨others, same⟩
  · have effect := IoWorker.act_effect act
    -- What the worker is at when it dispatches has not been dispatched.
    have undispatched : (s.workers w).pc = .dispatch → (s.workers w).current.id ≠ k := by
      rintro pc rfl
      have onOp : (s.workers w).pc.onOp = true := by rw [pc]; rfl
      obtain ⟨m, queue, current, id, published⟩ := inv.at_current onOp
      obtain ⟨low, lt⟩ := queue.counters.i_window onOp
      obtain ⟨stage, lived, shown⟩ := queue.lives.live m.i lt low
      obtain rfl := QueuedOp.waiting_of_pending (shown.rests (by rw [pc]; rfl))
        (queue.lives.polls (.inr pc))
      rw [id] at dispatched
      rcases OpFields.entered_of_dispatched lived dispatched with no | no <;> cases no
    have name : worker.i = (s.workers w).i → worker.current.id = (s.workers w).current.id := by
      intro i
      rw [IoWorker.current, i]
      exact congrArg Prod.snd (effect.name _)
    refine ⟨dispatched', ?_, ?_⟩
    · rw [same]
      cases effect with
      | issue callback nbytes pc =>
          intro c member
          rcases List.mem_append.mp member with old | new
          · exact arrived c old
          · rw [List.mem_singleton.mp new]
            exact submitted pc
      | arrive c' command ok pc there =>
          exact fun c member => arrived c (List.mem_of_mem_eraseIdx member)
      | _ => exact arrived
    · rw [same]
      intro pc
      change worker.current.id ≠ k
      cases effect with
      | dispatchRead at' read =>
          rw [name rfl]
          exact undispatched at'
      | issue callback nbytes at' =>
          rw [name rfl]
          exact submitted at'
      | arrive c' command ok at' there =>
          rw [name rfl]
          exact submitted pc
      | visit pc' at' more visits =>
          cases visits <;> cases pc
      | again pc' at' next => rcases next with rfl | rfl <;> cases pc
      | retire at' more free =>
          rw [show ({ s.workers w with queueTail := _ } : IoWorker).pc = (s.workers w).pc from rfl] at pc
          rw [at'] at pc
          cases pc
      | _ => cases pc
  · refine ⟨dispatched', by rw [same.commands]; exact arrived, fun pc => ?_⟩
    rw [same.pc] at pc
    have name := inv.current_of_step step (by rw [pc]; rfl) others
    rw [show (s'.workers w).current.id = _ from congrArg Prod.snd name]
    exact submitted pc

/-- **A round completes** the write whose gate is open and the read whose commands have arrived. -/
theorem Round.completed {labels : List (Label n ι)} (round : Round alignedOnly w labels s s')
    (near : (engine alignedOnly).Meets PublishesNear labels s) (inv : GateInv s)
    (published : (s.workers w).published[k]? = some f)
    (ready : f.isWrite = true ∧ s.Open f ∨ Answered (s.workers w) k) : (s'.workers w).Completed k := by
  refine round.reaches (fun s => f.isWrite = true ∧ s.Open f ∨ Answered (s.workers w) k)
    (fun s => (s.workers w).Completed k) near (fun s l s' inv _ ready step => ?_) (fun s l s' done step => completed_of_step step done)
    (fun s inv published completed => completed)
    (fun s inv published ready ahead word leaves => ?_) inv published ready
  · exact ready.imp (fun write => ⟨write.1, inv.open_of_step step write.2⟩)
      fun answered => answered.step inv.locked step
  · by_contra unfinished
    obtain ⟨m, queue, low, lt, same⟩ := inv.locked.window published unfinished
    refine unfinished (queue.completed_of_leaves low lt word leaves ?_)
    rw [same]
    exact ready.imp_left fun write => ⟨write.1, inv.opens published write.2⟩

/-! ## Service -/

variable {s₀ s₁ s₂ s₃ : System n ι} {before first between second : List (Label n ι)}
  {futures : Nat → Future} {bytesRead : Nat → Int}

theorem GateInv.run_from {labels : List (Label n ι)} (inv : GateInv s)
    (near : (engine alignedOnly).Meets PublishesNear labels s)
    (ran : (engine alignedOnly).run labels s = some s') : GateInv s' :=
  Machine.run_invariant (fun _ _ _ inv near step => inv.step near step) inv near ran

/-- Two rounds complete an operation whose gate is open when the first one begins, if its commands
have arrived when the second one begins. -/
theorem GateInv.two_rounds (inv : GateInv s₀)
    (near : (engine alignedOnly).Meets PublishesNear (first ++ between ++ second) s₀)
    (one : Round alignedOnly w first s₀ s₁) (ran : (engine alignedOnly).run between s₁ = some s₂)
    (two : Round alignedOnly w second s₂ s₃) (published : (s₀.workers w).published[k]? = some f)
    (isOpen : s₀.Open f) (arrived : ∀ c ∈ (s₂.workers w).commands, c.id ≠ k) :
    GateInv s₃ ∧ (s₃.workers w).published[k]? = some f ∧
      .dispatched ∈ (s₁.workers w).history k ∧ (s₃.workers w).Completed k := by
  obtain ⟨early, near₂⟩ := (Machine.meets_append_iff (Machine.run_append_of one.ran ran)).mp near
  obtain ⟨near₀, near₁⟩ := (Machine.meets_append_iff one.ran).mp early
  have keeps : ∀ (s : System n ι) l s', (s.workers w).published[k]? = some f →
      (engine alignedOnly).step s l = some s' → (s'.workers w).published[k]? = some f :=
    fun _ _ _ published step => published_of_step_of_published step published
  have stays : ∀ (s : System n ι) l s', .dispatched ∈ (s.workers w).history k →
      (engine alignedOnly).step s l = some s' → .dispatched ∈ (s'.workers w).history k :=
    fun _ _ _ dispatched step => (history_of_step step w k).subset dispatched
  have dispatched := one.dispatched near₀ inv published isOpen
  have inv₂ := (inv.run_from near₀ one.ran).run_from near₁ ran
  have published₂ := Machine.run_invariant_of_step keeps
    (Machine.run_invariant_of_step keeps published one.ran) ran
  have answered : Answered (s₂.workers w) k := by
    refine ⟨Machine.run_invariant_of_step stays dispatched ran, arrived, fun pc => ?_⟩
    rw [two.begins] at pc
    cases pc
  exact ⟨inv₂.run_from near₂ two.ran, Machine.run_invariant_of_step keeps published₂ two.ran,
    dispatched, two.completed near₂ inv₂ published₂ (.inr answered)⟩

/-- **No published operation is starved.** Whatever is submitted meanwhile, a round of its worker
dispatches an operation whose gate is open, and a round that begins when its commands have arrived
completes it. -/
theorem served_in_two_rounds
    (near : (engine alignedOnly).Meets PublishesNear (before ++ (first ++ between ++ second))
      (setup n ι futures bytesRead))
    (start : (engine alignedOnly).run before (setup n ι futures bytesRead) = some s₀)
    (one : Round alignedOnly w first s₀ s₁) (ran : (engine alignedOnly).run between s₁ = some s₂)
    (two : Round alignedOnly w second s₂ s₃) (published : (s₀.workers w).published[k]? = some f)
    (isOpen : s₀.Open f) (arrived : ∀ c ∈ (s₂.workers w).commands, c.id ≠ k) :
    .dispatched ∈ (s₁.workers w).history k ∧ ∃ m, .stored f.target m ∈ (s₃.workers w).history k ∧
      .completed f.target m ∈ (s₃.workers w).history k := by
  obtain ⟨early, late⟩ := (Machine.meets_append_iff start).mp near
  obtain ⟨inv, there, dispatched, target, m, completed⟩ :=
    (GateInv.run early start).two_rounds late one ran two published isOpen arrived
  obtain ⟨stage, lived⟩ := inv.locked.lived there
  refine ⟨dispatched, OpFields.reports_of_done lived ?_⟩
  rw [OpFields.life_completed lived completed]
  rfl

/-- **No wait is for ever.** When nobody submits, a wait that a stream stands at is over, or it
is for an operation that the stream has reached, and two rounds of the worker of the operation
end it. -/
theorem wait_ends
    (near : (engine alignedOnly).Meets PublishesNear before (setup n ι futures bytesRead))
    (start : (engine alignedOnly).run before (setup n ι futures bytesRead) = some s₀)
    (free : s₀.submitLock = none) {c : StreamCommand n} {rest : List (StreamCommand n)}
    (front : (s₀.streams j).commands = c :: rest) (awaits : s₀.awaited c = some turn)
    (reached : s₀.announced c = none) :
    released (s₀.streams j).gate turn = true ∨ ∃ w k f, s₀.HasTurn j turn w k f ∧
      ∀ first between second s₁ s₂ s₃,
        (engine alignedOnly).Meets PublishesNear (first ++ between ++ second) s₀ →
        Round alignedOnly w first s₀ s₁ → (engine alignedOnly).run between s₁ = some s₂ →
        (∀ c ∈ (s₂.workers w).commands, c.id ≠ k) → Round alignedOnly w second s₂ s₃ →
        ∀ c ∈ (s₃.streams j).commands, s₃.awaited c = some turn →
          released (s₃.streams j).gate turn = true := by
  have inv := GateInv.run near start
  obtain ⟨g, sim⟩ := inv.gates j
  have member : c ∈ (s₀.streams j).commands := by
    rw [front]
    exact List.mem_cons_self ..
  have head : g.agenda = .await turn :: rest.flatMap s₀.entries := by
    rw [sim.line.agenda_cons front, System.entries, awaits, reached]
    rfl
  obtain ⟨shown, -⟩ := sim.inv.head_await head
  refine ((inv.gateSafe j).waits free c member turn awaits).imp_right ?_
  rintro ⟨w, k, f, has, -⟩
  refine ⟨w, k, f, has, fun first between second s₁ s₂ s₃ near one ran arrived two c' there awaits' => ?_⟩
  have isOpen : s₀.Open f := by
    intro i turn' ticket
    cases has.ticket.symm.trans ticket
    refine ⟨⟨w, k, f, has⟩, fun c' there announced => ?_⟩
    have later := sim.inv.line.lt_of_announce (sim.line.announce_mem there announced)
    omega
  obtain ⟨inv₃, published, -, target, m, completed⟩ :=
    inv.two_rounds near one ran two has.published isOpen arrived
  obtain ⟨g', sim'⟩ := inv₃.gates j
  obtain ⟨stage, lived, task, -⟩ := sim'.task inv₃.locked ⟨published, has.ticket⟩
  rw [OpFields.life_completed lived completed] at task
  have upTo := sim'.inv.line.le_of_await (sim'.line.await_mem there awaits')
  obtain ⟨same, open'⟩ := (sim'.inv.done turn task).resolve_left (by omega)
  rw [sim'.line.gate, same, released_gateWord, open']

end Steps

/-! ## One read in two rounds -/

/-- A read is submitted, and its stream comes to its wait. -/
def reachesRead : List (Label 1 Unit) := submitsRead 1 ++ [.gpu 0]

/-- The round in which the worker dispatches the read. -/
def dispatchRound : List (Label 1 Unit) :=
  ([.go, .go, .go, .go, .issue .chunk 512, .go, .go, .go, .go, .poked 0 true, .go] : List Choice).map
    (.worker 0)

/-- The round in which the worker completes the read, while another one is submitted. -/
def completeRound : List (Label 1 Unit) :=
  ([.go, .go, .copies true] : List Choice).map (.worker 0) ++ submitsRead 5 ++
    List.replicate 7 (.worker 0 .go)

/-- The read, as it is published. -/
def firstRead : OpFields := ⟨false, 1, 4096, .stream ⟨1, 2, 3, 4, 0⟩ 1⟩

/-- The state at the wait of the read, and the rounds past it. -/
structure FirstRead (s₀ s₁ s₃ : System 1 Unit) : Prop where
  near : (engine false).Meets PublishesNear (reachesRead ++ (dispatchRound ++ [] ++ completeRound))
    (setup 1 Unit noFutures fun _ => 0)
  start : (engine false).run reachesRead (setup 1 Unit noFutures fun _ => 0) = some s₀
  free : s₀.submitLock = none
  published : (s₀.workers 0).published[0]? = some firstRead
  commands : (s₀.streams 0).commands = [.wait 1, .copy]
  one : Round false 0 dispatchRound s₀ s₁
  arrived : (s₁.workers 0).commands = []
  two : Round false 0 completeRound s₁ s₃
  waits : (s₃.streams 0).commands = [.wait 1, .copy, .write 2, .wait 2, .copy]

theorem exists_firstRead : ∃ s₀ s₁ s₃, FirstRead s₀ s₁ s₃ := by
  have facts₀ : ((engine false).run reachesRead (setup 1 Unit noFutures fun _ => 0)).map (fun s =>
      ((s.workers 0).pc, s.submitLock, (s.workers 0).published[0]?, (s.streams 0).commands)) =
      some (.load, none, some firstRead, [.wait 1, .copy]) := by decide +kernel
  have facts₁ : ((engine false).run (reachesRead ++ dispatchRound)
      (setup 1 Unit noFutures fun _ => 0)).map (fun s => ((s.workers 0).pc, (s.workers 0).commands)) =
      some (.load, []) := by decide +kernel
  have facts₃ : ((engine false).run (reachesRead ++ dispatchRound ++ completeRound)
      (setup 1 Unit noFutures fun _ => 0)).map (fun s => ((s.workers 0).pc, (s.streams 0).commands)) =
      some (.load, [.wait 1, .copy, .write 2, .wait 2, .copy]) := by decide +kernel
  have early : (engine false).check publishesEarly (reachesRead ++ (dispatchRound ++ [] ++ completeRound))
      (setup 1 Unit noFutures fun _ => 0) = true := by decide +kernel
  obtain ⟨s₀, ran₀, facts₀⟩ := Option.map_eq_some_iff.mp facts₀
  obtain ⟨s₁, ran₁, facts₁⟩ := Option.map_eq_some_iff.mp facts₁
  obtain ⟨s₃, ran₃, facts₃⟩ := Option.map_eq_some_iff.mp facts₃
  simp only [Prod.mk.injEq] at facts₀ facts₁ facts₃
  obtain ⟨pc₀, free, published, commands⟩ := facts₀
  rw [Machine.run_append, ran₁, Option.bind_some] at ran₃
  rw [Machine.run_append, ran₀, Option.bind_some] at ran₁
  exact ⟨s₀, s₁, s₃, Machine.meets_of_check publishesNear_of_early early, ran₀, free, published, commands,
    ⟨pc₀, rfl, ran₁, facts₁.1⟩, facts₁.2, ⟨facts₁.1, rfl, ran₃, facts₃.1⟩, facts₃.2⟩

/-- The read is dispatched in the first round and completed in the second one. -/
theorem served_in_two_rounds_firstRead : ∃ s₁ s₃ : System 1 Unit,
    (engine false).run completeRound s₁ = some s₃ ∧ .dispatched ∈ (s₁.workers 0).history 0 ∧
      ∃ m, .stored (.gate 4 0 1) m ∈ (s₃.workers 0).history 0 ∧
        .completed (.gate 4 0 1) m ∈ (s₃.workers 0).history 0 := by
  obtain ⟨s₀, s₁, s₃, run⟩ := exists_firstRead
  refine ⟨s₁, s₃, run.two.ran, served_in_two_rounds run.near run.start run.one rfl run.two run.published
    (fun j turn ticket => ?_) (by simp [run.arrived])⟩
  cases ticket
  exact ⟨⟨0, 0, firstRead, run.published, rfl⟩, by simp [run.commands, System.announced]⟩

/-- The wait for the read is over past the second round. -/
theorem wait_ends_firstRead : ∃ s₀ s₃ : System 1 Unit, (s₀.streams 0).commands = [.wait 1, .copy] ∧
    released (s₀.streams 0).gate 1 = false ∧
    (engine false).run (dispatchRound ++ completeRound) s₀ = some s₃ ∧
    released (s₃.streams 0).gate 1 = true := by
  obtain ⟨s₀, s₁, s₃, run⟩ := exists_firstRead
  obtain ⟨early, late⟩ := (Machine.meets_append_iff run.start).mp run.near
  have closed : released (s₀.streams 0).gate 1 = false := by
    have shut : ((engine false).run reachesRead (setup 1 Unit noFutures fun _ => 0)).map (fun s =>
        released (s.streams 0).gate 1) = some false := by decide +kernel
    rw [run.start, Option.map_some] at shut
    exact Option.some.inj shut
  refine ⟨s₀, s₃, run.commands, closed, Machine.run_append_of run.one.ran run.two.ran, ?_⟩
  rcases wait_ends (j := 0) early run.start run.free run.commands rfl rfl with
    over' | ⟨w, k, f, has, ends⟩
  · rw [closed] at over'
    cases over'
  · obtain ⟨rfl, rfl⟩ := (GateInv.run early run.start).alone 0 1 w k f 0 0 firstRead has
      ⟨run.published, rfl⟩
    exact ends _ _ _ _ _ _ late run.one rfl (by simp [run.arrived]) run.two (.wait 1)
      (by simp [run.waits]) rfl

end OpenDS.Engine
