import OpenDS.Library.Turnstile
import OpenDS.Engine.RejectedSubmits

/-!
# The gates of the streams

The gate word of a stream, the commands that are enqueued to it and the operations that
are published for it make up a turnstile (`OpenDS.Library.turnstile`): the turn that is
shown is in the gate word, which holds twice the turn and one more once it has been
released, in 32 bits. The stream's commands announce and await turns, in both modes of
`submit_stream_op`.
-/

set_option autoImplicit false

namespace OpenDS.Engine

open OpenDS.Library OpenDS.Aisio

variable {n : Nat} {ι : Type}

/-! ## Gate words -/

/-- What the gate word holds when a turn is shown. -/
def gateWord (turn : Nat) (released : Bool) : BitVec 32 :=
  2#32 * word 32 turn + if released then 1#32 else 0#32

theorem gateWord_closed (turn : Nat) : gateWord turn false = 2#32 * word 32 turn :=
  BitVec.add_zero _

theorem gateWord_released (turn : Nat) : gateWord turn true = 2#32 * word 32 turn + 1#32 := rfl

/-- The wait for the turn that is shown ends when the turn is released. -/
theorem released_gateWord (turn : Nat) (open' : Bool) :
    released (gateWord turn open') turn = open' := by
  have difference : gateWord turn open' - (2#32 * word 32 turn + 1#32) =
      if open' then 0#32 else -1#32 := by
    cases open' <;> simp only [gateWord, if_true, Bool.false_eq_true, if_false] <;> bv_omega
  rw [released, difference]
  cases open' <;> decide

/-- A gate that shows a turn less than `2 ^ 30` turns before another one is closed for it. -/
theorem gated_gateWord {shown turn : Nat} (open' : Bool) (later : shown < turn)
    (near : turn ≤ shown + 2 ^ 30) : gated (gateWord shown open') turn = true := by
  obtain ⟨d, rfl⟩ := Nat.exists_eq_add_of_lt later
  have difference : gateWord shown open' - 2#32 * word 32 (shown + d + 1) =
      (if open' then 1#32 else 0#32) - 2#32 * word 32 (d + 1) := by
    have split : word 32 (shown + d + 1) = word 32 shown + word 32 (d + 1) := by
      rw [word_add, Nat.add_assoc]
    rw [split, gateWord, BitVec.mul_add]
    generalize 2#32 * word 32 shown = x
    generalize 2#32 * word 32 (d + 1) = y
    cases open' <;> simp only [if_true, Bool.false_eq_true, if_false] <;> bv_omega
  have double : (2#32 * word 32 (d + 1)).toNat = 2 * (d + 1) := by
    rw [BitVec.toNat_mul, BitVec.toNat_ofNat, BitVec.toNat_ofNat]
    omega
  rw [gated, difference, decide_eq_true_eq, BitVec.toInt_neg_iff, BitVec.toNat_sub, double]
  cases open' <;> simp only [if_true, Bool.false_eq_true, if_false, BitVec.toNat_ofNat] <;> omega

/-! ## The turnstile of a stream -/

/-- How far the task of an operation has come. -/
def Stage.task : Stage → TaskState
  | .waiting => .waiting
  | .completed _ => .done
  | _ => .running

theorem Stage.task_eq (stage : Stage) :
    stage.task = if stage.rank = 0 then .waiting else if stage.rank = 4 then .done else .running := by
  cases stage <;> rfl

theorem Stage.task_ne_absent (stage : Stage) : stage.task ≠ .absent := by
  cases stage <;> simp [task]

/-- Only the dispatch of an operation and its completion move its task. -/
theorem OpFields.life_task {f : OpFields} {stage stage' : Stage} {e : OpEvent}
    (step : f.life.step stage e = some stage') :
    (e = .dispatched ∧ stage.task = .waiting ∧ stage'.task = .running) ∨
      (e.completes = true ∧ stage.task = .running ∧ stage'.task = .done) ∨
      (e ≠ .dispatched ∧ e.completes = false ∧ stage'.task = stage.task) := by
  have bound : stage'.rank ≤ 4 := by cases stage' <;> simp [Stage.rank]
  simp only [Stage.task_eq]
  rcases life_rank step with ⟨none, same⟩ | ⟨here, next⟩
  · refine .inr (.inr ⟨?_, ?_, by rw [same]⟩)
    · rintro rfl
      cases none
    · cases e with
      | completed => cases none
      | _ => rfl
  · rw [next] at here bound ⊢
    cases e with
    | dispatched =>
        have first : stage.rank = 0 := by simpa [OpEvent.rank] using here.symm
        exact .inl ⟨rfl, by simp [first]⟩
    | completed target m =>
        have last : stage.rank = 3 := by simpa [OpEvent.rank] using here.symm
        exact .inr (.inl ⟨rfl, by simp [last]⟩)
    | wrote | copied =>
        have middle : stage.rank = 1 := by simpa [OpEvent.rank] using here.symm
        exact .inr (.inr ⟨by simp, rfl, by simp [middle]⟩)
    | stored =>
        have middle : stage.rank = 2 := by simpa [OpEvent.rank] using here.symm
        exact .inr (.inr ⟨by simp, rfl, by simp [middle]⟩)
    | _ => cases here

/-- How far the submission of an operation to a stream has come. -/
def SubmitPc.booking (j : Nat) : SubmitPc n → Option Booking
  | .gate fields _ _ => if fields.ticket.map Prod.fst = some j then some .taken else none
  | .wait fields _ _ => if fields.ticket.map Prod.fst = some j then some .announced else none
  | .pend fields _ _ => if fields.ticket.map Prod.fst = some j then some .awaited else none
  | .publish fields _ _ => if fields.ticket.map Prod.fst = some j then some .awaited else none
  | _ => none

namespace System

variable (s : System n ι)

/-- The turn of a stream that is being booked. -/
def booking (j : Nat) : Option Booking := s.submitLock.bind fun t => (s.threads t).booking j

/-- The turn of the operation in a slot. -/
def turnOf (w : Fin n) (slot : Fin queueSize) : Option Nat :=
  ((s.workers w).fileOpQueue slot).fields.ticket.map Prod.snd

/-- The turn that a command announces. -/
def announced : StreamCommand n → Option Nat
  | .write turn => some turn
  | .park w slot => s.turnOf w slot
  | _ => none

/-- The turn that a command awaits. -/
def awaited : StreamCommand n → Option Nat
  | .wait turn => some turn
  | .park w slot => s.turnOf w slot
  | .spin _ turn => some turn
  | _ => none

/-- What a command is on the agenda. -/
def entries (c : StreamCommand n) : List AgendaEntry :=
  (s.announced c).toList.map .announce ++ (s.awaited c).toList.map .await

/-- A callback that is parked on a stream has an operation of the stream, which is
published or about to be. -/
def Parked (j : Nat) (w : Fin n) (slot : Fin queueSize) : Prop :=
  ∃ k f turn, slot = slotAt k ∧ ((s.workers w).opAt k).fields = f ∧ f.ticket = some (j, turn) ∧
    ((s.workers w).published[k]? = some f ∨ k = (s.workers w).published.length ∧
      ∃ t head, s.threads t = .pend f w head ∨ s.threads t = .publish f w head)

end System

/-- An operation in a queue has a turn of a stream. -/
structure System.HasTurn (s : System n ι) (j turn : Nat) (w : Fin n) (k : Nat) (f : OpFields) :
    Prop where
  published : (s.workers w).published[k]? = some f
  ticket : f.ticket = some (j, turn)

/-- The stream shows what the turnstile shows. -/
structure GateLine (s : System n ι) (j : Nat) (g : Turnstile) : Prop where
  turns : g.turns = (s.streams j).turns
  gate : (s.streams j).gate = gateWord g.shown g.released
  agenda : g.agenda = (s.streams j).commands.flatMap s.entries
  booking : g.booking = s.booking j
  spins : ∀ target turn, .spin target turn ∈ (s.streams j).commands → target = j
  parks : ∀ w slot, .park w slot ∈ (s.streams j).commands → s.Parked j w slot

/-- The queues hold the tasks of the turnstile. -/
structure GateTasks (s : System n ι) (j : Nat) (g : Turnstile) : Prop where
  tasks : ∀ w k f turn stage, s.HasTurn j turn w k f →
    f.life.run ((s.workers w).history k) .waiting = some stage → g.tasks turn = stage.task
  absent : ∀ turn, (∀ w, ∀ f ∈ (s.workers w).published, f.ticket ≠ some (j, turn)) →
    g.tasks turn = .absent
  polled : ∀ w turn, (s.workers w).pc = .dispatch →
    (s.workers w).current.fields.ticket = some (j, turn) → turn ≤ g.shown
  near : ∀ turn, g.tasks turn = .waiting → turn ≤ g.shown + 2 ^ 30

/-- The stream and the queues together are a turnstile. -/
structure GateSim (s : System n ι) (j : Nat) (g : Turnstile) : Prop where
  inv : TurnstileInv g
  line : GateLine s j g
  served : GateTasks s j g

/-- **What holds of the gates at any time.** -/
structure GateInv (s : System n ι) : Prop where
  locked : EngineInv s
  tickets : Tickets s
  alone : ∀ j turn w k f w' k' f', s.HasTurn j turn w k f → s.HasTurn j turn w' k' f' →
    w = w' ∧ k = k'
  gates : ∀ j, ∃ g, GateSim s j g

variable {s s' : System n ι} {j : Nat} {g g' : Turnstile} {t : ι}

/-! ## Published operations -/

/-- What a queue shows of a published operation. -/
theorem EngineInv.lived (inv : EngineInv s) {w : Fin n} {k : Nat} {f : OpFields}
    (published : (s.workers w).published[k]? = some f) :
    ∃ stage, f.life.run ((s.workers w).history k) .waiting = some stage := by
  obtain ⟨lt, rfl⟩ := List.getElem?_eq_some_iff.mp published
  obtain ⟨m, queue⟩ := inv.queues w
  exact queue.lived lt

/-- The operation of a task is published. -/
theorem GateTasks.exists_published (served : GateTasks s j g) {turn : Nat}
    (there : g.tasks turn ≠ .absent) :
    ∃ w k f, s.HasTurn j turn w k f := by
  by_contra none
  refine there (served.absent turn fun w f member ticket => none ?_)
  obtain ⟨k, published⟩ := List.getElem?_of_mem member
  exact ⟨w, k, f, published, ticket⟩

/-- A turn that is still announced has a task that waits, if any. -/
theorem GateSim.waiting_of_announced (sim : GateSim s j g) {turn : Nat}
    (announced : .announce turn ∈ g.agenda) (there : g.tasks turn ≠ .absent) :
    g.tasks turn = .waiting := by
  have later := sim.inv.line.lt_of_announce announced
  cases state : g.tasks turn with
  | absent => exact absurd state there
  | waiting => rfl
  | running =>
      have same := (sim.inv.running turn state).1
      omega
  | done =>
      rcases sim.inv.done turn state with before | ⟨same, -⟩ <;> omega

/-- A command of a stream that announces a turn has it on the agenda. -/
theorem GateLine.announce_mem (line : GateLine s j g) {c : StreamCommand n} {turn : Nat}
    (member : c ∈ (s.streams j).commands) (announced : s.announced c = some turn) :
    .announce turn ∈ g.agenda := by
  rw [line.agenda]
  refine List.mem_flatMap.mpr ⟨c, member, List.mem_append_left _ ?_⟩
  rw [announced]
  exact List.mem_singleton_self _

theorem GateLine.await_mem (line : GateLine s j g) {c : StreamCommand n} {turn : Nat}
    (member : c ∈ (s.streams j).commands) (awaited : s.awaited c = some turn) :
    .await turn ∈ g.agenda := by
  rw [line.agenda]
  refine List.mem_flatMap.mpr ⟨c, member, List.mem_append_right _ ?_⟩
  rw [awaited]
  exact List.mem_singleton_self _

/-- A turn that is on the agenda is announced by a command of the stream. -/
theorem GateLine.exists_announced (line : GateLine s j g) {turn : Nat}
    (member : .announce turn ∈ g.agenda) :
    ∃ c ∈ (s.streams j).commands, s.announced c = some turn := by
  rw [line.agenda] at member
  obtain ⟨c, there, member⟩ := List.mem_flatMap.mp member
  refine ⟨c, there, ?_⟩
  rcases List.mem_append.mp member with announced | awaited
  · obtain ⟨turn', same, entry⟩ := List.mem_map.mp announced
    cases entry
    exact Option.mem_toList.mp same
  · obtain ⟨turn', same, entry⟩ := List.mem_map.mp awaited
    cases entry

/-- The stream has reached the turn of a published operation: what announces the turn is not
enqueued any more. -/
def System.Reached (s : System n ι) (j turn : Nat) : Prop :=
  (∃ w k f, s.HasTurn j turn w k f) ∧
    ∀ c ∈ (s.streams j).commands, s.announced c ≠ some turn

/-- The turn is at most `2 ^ 30` turns past one that the stream has reached, or past the
start. -/
def System.Near (s : System n ι) (j turn : Nat) : Prop :=
  turn ≤ 2 ^ 30 ∨ ∃ reached, s.Reached j reached ∧ turn ≤ reached + 2 ^ 30

/-- What the stream has reached is not past the turn that is shown. -/
theorem GateSim.le_of_reached (sim : GateSim s j g) (inv : EngineInv s) {turn : Nat}
    (reached : s.Reached j turn) : turn ≤ g.shown := by
  obtain ⟨⟨w, k, f, has⟩, gone⟩ := reached
  obtain ⟨stage, lived⟩ := inv.lived has.published
  have task := sim.served.tasks w k f turn stage has lived
  by_contra later
  have waits : .await turn ∈ g.agenda := by
    cases state : g.tasks turn with
    | absent =>
        rw [task] at state
        cases stage <;> cases state
    | waiting => exact sim.inv.live turn (.inl state)
    | running => exact absurd (sim.inv.running turn state).1 (by omega)
    | done => rcases sim.inv.done turn state with before | ⟨same, -⟩ <;> omega
  obtain ⟨c, member, announced⟩ :=
    sim.line.exists_announced (sim.inv.line.announces waits (by omega))
  exact gone c member announced

theorem GateSim.le_of_near (sim : GateSim s j g) (inv : EngineInv s) {turn : Nat}
    (near : s.Near j turn) : turn ≤ g.shown + 2 ^ 30 := by
  rcases near with start | ⟨reached, there, close⟩
  · omega
  · have upTo := sim.le_of_reached inv there
    omega

/-- The operation of a parked callback has its turn on the stream. -/
theorem System.Parked.turnOf {w : Fin n} {slot : Fin queueSize} (parked : s.Parked j w slot) :
    ∃ turn, s.turnOf w slot = some turn := by
  obtain ⟨k, f, turn, rfl, fields, ticket, -⟩ := parked
  refine ⟨turn, ?_⟩
  change ((s.workers w).opAt k).fields.ticket.map Prod.snd = _
  rw [fields, ticket]
  rfl

/-- **A callback that is parked is not in the slot that a submitter fills.** -/
theorem GateInv.parked_ne (inv : GateInv s) {c : Call} {w : Fin n} {head : BitVec 32}
    (pc : s.threads t = .fill c w head) {slot : Fin queueSize}
    (parked : .park w slot ∈ (s.streams j).commands) : slot ≠ slotOf head := by
  obtain ⟨g, sim⟩ := inv.gates j
  have critical : (s.threads t).critical = true := by rw [pc]; rfl
  obtain ⟨k, f, turn, rfl, fields, ticket, publishes⟩ := sim.line.parks w slot parked
  obtain ⟨m, queue⟩ := inv.locked.queues w
  have offer : s.offer w = some ⟨head, none, false⟩ := by
    rw [inv.locked.offer_eq critical, pc]
    exact if_pos rfl
  obtain ⟨word, room, -, -⟩ := queue.slots.offered _ offer
  have slot : slotOf head = slotAt (s.workers w).published.length := by
    rw [show head = _ from word, slotOf_word]
  rw [slot]
  rcases publishes with published | ⟨-, t', head', held⟩
  · obtain ⟨lt, rfl⟩ := List.getElem?_eq_some_iff.mp published
    obtain ⟨stage, lived⟩ := queue.lived lt
    have task := sim.served.tasks w k _ turn stage ⟨published, ticket⟩ lived
    have announced : s.announced (.park w (slotAt k)) = some turn := by
      change ((s.workers w).opAt k).fields.ticket.map Prod.snd = _
      rw [fields, ticket]
      rfl
    have waiting := sim.waiting_of_announced (sim.line.announce_mem parked announced)
      (task ▸ stage.task_ne_absent)
    have low : m.tail ≤ k := by
      by_contra before
      obtain ⟨n, done⟩ := queue.lives.done k lt (by omega)
      rw [lived] at done
      cases done
      rw [task] at waiting
      cases waiting
    exact slotAt_ne lt (by omega)
  · -- The holder of the lock is not about to publish.
    have holds := inv.locked.holder critical
    have critical' : (s.threads t').critical = true := by
      rcases held with held | held <;> rw [held] <;> rfl
    have holds' := inv.locked.holder critical'
    rw [holds] at holds'
    cases holds'
    rw [pc] at held
    rcases held with held | held <;> cases held

end OpenDS.Engine
