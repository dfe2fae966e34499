import OpenDS.Engine.GateService

/-!
# The order of a stream

What the gates guarantee, in both modes of `submit_stream_op`: the operations of a stream
are served one at a time in the order of their turns, each of them after the stream has
come to it, and the stream waits for no operation that nobody will complete (`GateSafe`).

The turn of an operation is compared with a gate word in 32 bits, so none may be published
more than `2 ^ 30` turns past the last one that the stream has reached. Turns that are lost
to failed calls count: past `2 ^ 30 - 1` of them in a row two operations in a queue are
dispatched in the wrong order (`lost_turns_break_order`).
-/

set_option autoImplicit false

namespace OpenDS.Engine

open OpenDS.Library OpenDS.Aisio

variable {n : Nat} {ι : Type} {s : System n ι} {j : Nat} {g : Turnstile} {w : Fin n} {k turn : Nat}
  {f : OpFields} {events : List OpEvent} {stage : Stage}

/-! ## Lives and tasks -/

/-- An operation that has been dispatched does not wait. -/
theorem OpFields.entered_of_dispatched (lived : f.life.run events .waiting = some stage)
    (dispatched : .dispatched ∈ events) : stage.task = .running ∨ stage.task = .done := by
  have count := life_count lived 1 (by decide)
  have positive : 0 < events.countP (fun e => e.rank = some 1) :=
    List.countP_pos_iff.mpr ⟨_, dispatched, by simp [OpEvent.rank]⟩
  cases stage with
  | waiting => simp [count, Stage.rank] at positive
  | completed n => exact .inr rfl
  | _ => exact .inl rfl

/-- An operation whose task is done has stored its result before it was completed. -/
theorem OpFields.reports_of_done (lived : f.life.run events .waiting = some stage)
    (done : stage.task = .done) :
    ∃ n, .stored f.target n ∈ events ∧ .completed f.target n ∈ events := by
  cases stage with
  | completed n =>
      refine ⟨n, ?_, life_end lived⟩
      have count := life_count lived 3 (by decide)
      rw [if_pos (show 3 ≤ (Stage.completed n).rank from Nat.le_succ 3)] at count
      obtain ⟨e, member, rank⟩ := List.countP_pos_iff.mp (show 0 < _ by rw [count]; decide)
      cases e with
      | stored target m =>
          obtain ⟨m', result, own⟩ := life_own lived _ member trivial
          cases result
          rw [← own.1, ← own.2]
          exact member
      | _ => simp [OpEvent.rank] at rank
  | _ => cases done

/-- **An operation that is not completed has its slot.** -/
theorem EngineInv.not_freed (inv : EngineInv s) (published : (s.workers w).published[k]? = some f)
    (lived : f.life.run ((s.workers w).history k) .waiting = some stage) (open' : stage.task ≠ .done) :
    ((s.workers w).opAt k).fields = f ∧ ((s.workers w).opAt k).state ≠ .free := by
  obtain ⟨m, queue⟩ := inv.queues w
  obtain ⟨lt, rfl⟩ := List.getElem?_eq_some_iff.mp published
  have low : m.tail ≤ k := by
    by_contra before
    obtain ⟨n, done⟩ := queue.lives.done k lt (Nat.lt_of_not_le before)
    rw [lived] at done
    cases done
    exact open' rfl
  refine ⟨(queue.slots.window k lt low).2, ?_⟩
  obtain ⟨stage', lived', shown⟩ := queue.lives.live k lt low
  rw [lived] at lived'
  cases lived'
  unfold IoWorker.Shows at shown
  split at shown
  · -- The worker is about to report the operation.
    cases pc : (s.workers w).pc <;> cases stage <;> rw [pc] at shown <;>
      first | exact shown.elim | exact shown.2 | exact absurd rfl open' | skip
    rw [show _ = FileOpState.pending from shown]
    decide
  · cases stage with
    | waiting =>
        rw [show _ = FileOpState.pending from shown]
        decide
    | reading bytesAcc err =>
        rw [shown.1]
        decide
    | completed n => exact absurd rfl open'
    | _ => exact shown.elim

/-! ## What the gates guarantee -/

/-- The operation is between its dispatch and the release of its gate. -/
def System.InService (s : System n ι) (w : Fin n) (k : Nat) : Prop :=
  .dispatched ∈ (s.workers w).history k ∧ ¬ (s.workers w).Completed k

/-- **What the gates of a stream guarantee.** Its operations are served one at a time and in
the order of their turns, whichever queues they are in. An operation is dispatched when
nothing that announces its turn is left on the stream, and what awaits the turn has left
the stream when the operation has stored its byte count and released its gate. When nobody
submits, a wait on the stream is for an operation in its slot or is over, and a callback
that is parked has its operation in its slot. -/
structure GateSafe (s : System n ι) (j : Nat) : Prop where
  alone : ∀ w k f turn w' k' f' turn', s.HasTurn j turn w k f → s.HasTurn j turn' w' k' f' →
    s.InService w k → s.InService w' k' → w = w' ∧ k = k'
  order : ∀ w k f turn w' k' f' turn', s.HasTurn j turn w k f → s.HasTurn j turn' w' k' f' →
    turn < turn' → .dispatched ∈ (s.workers w').history k' → (s.workers w).Completed k
  reached : ∀ w k f turn, s.HasTurn j turn w k f → .dispatched ∈ (s.workers w).history k →
    ∀ c ∈ (s.streams j).commands, s.announced c ≠ some turn
  passed : ∀ w k f turn, s.HasTurn j turn w k f →
    (∀ c ∈ (s.streams j).commands, s.awaited c ≠ some turn) →
    ∃ n, .stored f.target n ∈ (s.workers w).history k ∧ .completed f.target n ∈ (s.workers w).history k
  waits : s.submitLock = none → ∀ c ∈ (s.streams j).commands, ∀ turn, s.awaited c = some turn →
    released (s.streams j).gate turn = true ∨ ∃ w k f, s.HasTurn j turn w k f ∧
      ((s.workers w).opAt k).fields = f ∧ ((s.workers w).opAt k).state ≠ .free
  parks : s.submitLock = none → ∀ w slot, .park w slot ∈ (s.streams j).commands →
    ∃ k f turn, slot = slotAt k ∧ s.HasTurn j turn w k f ∧ s.turnOf w slot = some turn ∧
      ((s.workers w).opAt k).fields = f ∧ ((s.workers w).opAt k).state ≠ .free

/-- A turn that is on the agenda is awaited by a command of the stream. -/
theorem GateLine.exists_awaited (line : GateLine s j g) (member : .await turn ∈ g.agenda) :
    ∃ c ∈ (s.streams j).commands, s.awaited c = some turn := by
  rw [line.agenda] at member
  obtain ⟨c, there, member⟩ := List.mem_flatMap.mp member
  refine ⟨c, there, ?_⟩
  rcases List.mem_append.mp member with announced | awaited
  · obtain ⟨turn', same, entry⟩ := List.mem_map.mp announced
    cases entry
  · obtain ⟨turn', same, entry⟩ := List.mem_map.mp awaited
    cases entry
    exact Option.mem_toList.mp same

namespace GateSim

/-- A published operation has a task. -/
theorem task (sim : GateSim s j g) (inv : EngineInv s) (has : s.HasTurn j turn w k f) :
    ∃ stage, f.life.run ((s.workers w).history k) .waiting = some stage ∧ g.tasks turn = stage.task ∧
      g.tasks turn ≠ .absent := by
  obtain ⟨stage, lived⟩ := inv.lived has.published
  have task := sim.served.tasks w k f turn stage has lived
  exact ⟨stage, lived, task, task ▸ stage.task_ne_absent⟩

theorem entered (sim : GateSim s j g) (inv : EngineInv s) (has : s.HasTurn j turn w k f)
    (dispatched : .dispatched ∈ (s.workers w).history k) :
    g.tasks turn = .running ∨ g.tasks turn = .done := by
  obtain ⟨stage, lived, task, -⟩ := sim.task inv has
  rw [task]
  exact OpFields.entered_of_dispatched lived dispatched

theorem completed (sim : GateSim s j g) (inv : EngineInv s) (has : s.HasTurn j turn w k f)
    (done : g.tasks turn = .done) :
    ∃ n, .stored f.target n ∈ (s.workers w).history k ∧
      .completed f.target n ∈ (s.workers w).history k := by
  obtain ⟨stage, lived, task, -⟩ := sim.task inv has
  exact OpFields.reports_of_done lived (task.symm.trans done)

theorem in_slot (sim : GateSim s j g) (inv : EngineInv s) (has : s.HasTurn j turn w k f)
    (open' : g.tasks turn ≠ .done) :
    ((s.workers w).opAt k).fields = f ∧ ((s.workers w).opAt k).state ≠ .free := by
  obtain ⟨stage, lived, task, -⟩ := sim.task inv has
  exact inv.not_freed has.published lived (by rwa [← task])

/-- An operation in service runs. -/
theorem running (sim : GateSim s j g) (inv : EngineInv s) (has : s.HasTurn j turn w k f)
    (service : s.InService w k) : g.tasks turn = .running := by
  rcases sim.entered inv has service.1 with running | done
  · exact running
  · obtain ⟨n, -, completed⟩ := sim.completed inv has done
    exact absurd ⟨_, n, completed⟩ service.2

end GateSim

/-- **Gates that are in order guarantee all of it.** -/
theorem GateInv.gateSafe (inv : GateInv s) (j : Nat) : GateSafe s j := by
  obtain ⟨g, sim⟩ := inv.gates j
  refine ⟨fun w k f turn w' k' f' turn' has has' service service' => ?_,
    fun w k f turn w' k' f' turn' has has' before dispatched => ?_,
    fun w k f turn has dispatched c member announced => ?_, fun w k f turn has gone => ?_,
    fun free c member turn awaited => ?_, fun free w slot member => ?_⟩
  · -- Both turns are shown.
    obtain ⟨rfl, -⟩ := sim.inv.running turn (sim.running inv.locked has service)
    obtain ⟨rfl, -⟩ := sim.inv.running turn' (sim.running inv.locked has' service')
    exact inv.alone j _ w k f w' k' f' has has'
  · obtain ⟨-, -, -, there⟩ := sim.task inv.locked has
    have done := sim.inv.done_before before (sim.entered inv.locked has' dispatched) there
    obtain ⟨n, -, completed⟩ := sim.completed inv.locked has done
    exact ⟨_, n, completed⟩
  · have later := sim.inv.line.lt_of_announce (sim.line.announce_mem member announced)
    rcases sim.entered inv.locked has dispatched with running | done
    · exact absurd (sim.inv.running turn running).1 later.ne'
    · rcases sim.inv.done turn done with before | ⟨same, -⟩
      · exact absurd before later.not_gt
      · exact absurd same later.ne'
  · obtain ⟨-, -, -, there⟩ := sim.task inv.locked has
    have left : ¬ (g.tasks turn = .waiting ∨ g.tasks turn = .running) := fun live => by
      obtain ⟨c, member, awaited⟩ := sim.line.exists_awaited (sim.inv.live turn live)
      exact gone c member awaited
    refine sim.completed inv.locked has ?_
    cases state : g.tasks turn with
    | absent => exact absurd state there
    | waiting => exact absurd (.inl state) left
    | running => exact absurd (.inr state) left
    | done => rfl
  · have still : g.booking = none := by
      rw [sim.line.booking, System.booking, free]
      rfl
    have under := sim.inv.task_of_await (sim.line.await_mem member awaited) still
    have there : g.tasks turn ≠ .absent := by
      rcases under with state | state | ⟨state, -⟩ <;> rw [state] <;> decide
    obtain ⟨w, k, f, has⟩ := sim.served.exists_published there
    rcases under with state | state | ⟨-, same, open'⟩
    · exact .inr ⟨w, k, f, has, sim.in_slot inv.locked has (by rw [state]; decide)⟩
    · exact .inr ⟨w, k, f, has, sim.in_slot inv.locked has (by rw [state]; decide)⟩
    · left
      rw [sim.line.gate, same, released_gateWord, open']
  · obtain ⟨k, f, turn, rfl, fields, ticket, publishes⟩ := sim.line.parks w slot member
    have announced : s.turnOf w (slotAt k) = some turn := by
      change ((s.workers w).opAt k).fields.ticket.map Prod.snd = _
      rw [fields, ticket]
      rfl
    rcases publishes with published | ⟨-, t, head, held⟩
    · have has : s.HasTurn j turn w k f := ⟨published, ticket⟩
      obtain ⟨-, -, -, there⟩ := sim.task inv.locked has
      have waiting := sim.waiting_of_announced (sim.line.announce_mem member announced) there
      exact ⟨k, f, turn, rfl, has, announced, sim.in_slot inv.locked has (by rw [waiting]; decide)⟩
    · -- Nobody is about to publish.
      have critical : (s.threads t).critical = true := by
        rcases held with held | held <;> rw [held] <;> rfl
      have holds := inv.locked.holder critical
      rw [free] at holds
      cases holds

/-- **The gates of a stream.** In every state of a run that publishes no operation more than
`2 ^ 30` turns past the last one that its stream has reached, the gates of every stream
keep their guarantees, in both modes, for any number of threads and workers, whichever
calls fail and however often the counters wrap. -/
theorem gates_of_run [DecidableEq ι] [NeZero n] {alignedOnly : Bool} {labels : List (Label n ι)}
    {futures : Nat → Future} {bytesRead : Nat → Int}
    (near : (engine alignedOnly).Meets PublishesNear labels (setup n ι futures bytesRead))
    (ran : (engine alignedOnly).run labels (setup n ι futures bytesRead) = some s) (j : Nat) :
    GateSafe s j :=
  (GateInv.run near ran).gateSafe j

/-- A read of stream 0 with its own cells. -/
def readInto (cell : Nat) : Call :=
  ⟨false, 1, 4096, .stream ⟨cell, cell + 1, cell + 2, cell + 3, 0⟩⟩

/-- A read that is submitted with all of its calls. -/
def submitsRead (cell : Nat) : List (Label 1 Unit) :=
  .thread () (.call (readInto cell)) :: List.replicate 3 (.thread () .go) ++
    List.replicate 2 (.thread () (.accel true)) ++ List.replicate 3 (.thread () .go) ++
    [.thread () (.accel true)]

/-- Compute whether what a step publishes is among the first `2 ^ 30` turns. -/
def publishesEarly (s : System 1 Unit) : Label 1 Unit → Bool
  | .thread t _ => match s.threads t with
    | .publish fields _ _ => fields.ticket.all fun ticket => decide (ticket.2 ≤ 2 ^ 30)
    | _ => true
  | _ => true

theorem publishesNear_of_early (s : System 1 Unit) (l : Label 1 Unit)
    (early : publishesEarly s l = true) : PublishesNear s l := by
  cases l with
  | thread t act =>
      intro fields w head j turn pc ticket
      simp only [publishesEarly, pc, ticket, Option.all_some, decide_eq_true_eq] at early
      exact .inl early
  | _ => trivial

/-- A read that is served, and one behind it. -/
theorem gates_of_run_twoReads :
    ∃ s : System 1 Unit, (engine false).run (submitsRead 1 ++ servesRead ++ submitsRead 5)
        (setup 1 Unit noFutures fun _ => 0) = some s ∧ GateSafe s 0 ∧
      ((s.workers 0).history 0).length = 6 ∧ (s.workers 0).history 1 = [] ∧
      (s.streams 0).commands = [.wait 1, .copy, .write 2, .wait 2, .copy] := by
  have served : ((engine false).run (submitsRead 1 ++ servesRead ++ submitsRead 5)
      (setup 1 Unit noFutures fun _ => 0)).map (fun s =>
        (((s.workers 0).history 0).length, (s.workers 0).history 1, (s.streams 0).commands)) =
      some (6, [], [.wait 1, .copy, .write 2, .wait 2, .copy]) := by decide +kernel
  have early : (engine false).check publishesEarly (submitsRead 1 ++ servesRead ++ submitsRead 5)
      (setup 1 Unit noFutures fun _ => 0) = true := by decide +kernel
  obtain ⟨s, ran, facts⟩ := Option.map_eq_some_iff.mp served
  rw [Prod.mk.injEq, Prod.mk.injEq] at facts
  exact ⟨s, ran, gates_of_run (Machine.meets_of_check publishesNear_of_early early) ran 0, facts⟩

/-! ## Lost turns -/

/-- A read whose gate cannot be enqueued. -/
def losesRead : List (Label 1 Unit) :=
  .thread () (.call (readInto 1)) :: List.replicate 3 (.thread () .go) ++
    [.thread () (.accel false), .thread () .go]

/-- The slot that the reads that are lost have been written to. -/
def lostOp : Nat → QueuedOp
  | 0 => zeroOp
  | k + 1 => { zeroOp with fields := ⟨false, 1, 4096, .stream ⟨1, 2, 3, 4, 0⟩ (k + 1)⟩ }

/-- The engine past a number of reads that are lost. -/
def afterLost (k : Nat) : System 1 Unit :=
  { setup 1 Unit noFutures fun _ => 0 with
    workers := fun _ => zeroWorker.put (slotAt 0) (lostOp k)
    rrNext := word 32 k
    streams := Function.update (fun _ => ⟨0, 0, []⟩) 0 ⟨k, 0, []⟩ }

theorem afterLost_zero : afterLost 0 = setup 1 Unit noFutures fun _ => 0 := by
  have workers : zeroWorker.put (slotAt 0) (lostOp 0) = zeroWorker := by
    simp [IoWorker.put, lostOp, zeroWorker]
  simp [afterLost, workers, setup]

/-- What the thread of a read that is lost leaves. -/
theorem run_losesRead (s : System 1 Unit) (idle : s.threads = fun _ => .idle) (free : s.submitLock = none)
    (room : (s.workers 0).hasRoom = true) :
    (engine false).run losesRead s = some
      { s with
        rrNext := s.rrNext + 1#32
        workers := fun _ => (s.workers 0).fill (s.workers 0).queueHead
          ⟨false, 1, 4096, .stream ⟨1, 2, 3, 4, 0⟩ ((s.streams 0).turns + 1)⟩
        streams := Function.update s.streams 0 { s.streams 0 with turns := (s.streams 0).turns + 1 } } := by
  have only : ∀ w : Fin 1, w = 0 := fun w => Subsingleton.elim w 0
  have worker : ∀ worker, Function.update s.workers 0 worker = fun _ => worker := by
    intro worker
    funext w
    rw [only w, Function.update_self]
  have thread : ∀ (threads : Unit → SubmitPc 1) pc, Function.update threads () pc = fun _ => pc := by
    intro threads pc
    funext t
    exact Function.update_self _ _ _
  simp [losesRead, engine, System.threadStep, System.setThread, System.setWorker, System.setStream, System.enqueued,
    thread, worker, idle, free, room, readInto, only (route s.rrNext)]

/-- The next read that is lost is written to the same slot. -/
theorem fill_lostOp (k : Nat) : (zeroWorker.put (slotAt 0) (lostOp k)).fill 0#32
    ⟨false, 1, 4096, .stream ⟨1, 2, 3, 4, 0⟩ (k + 1)⟩ = zeroWorker.put (slotAt 0) (lostOp (k + 1)) := by
  have slot : slotOf 0#32 = slotAt 0 := slotOf_word 0
  simp only [IoWorker.fill, IoWorker.put, slot, Function.update_self, Function.update_idem]
  cases k <;> rfl

theorem run_afterLost (k : Nat) :
    (engine false).run losesRead (afterLost k) = some (afterLost (k + 1)) := by
  have room : ((afterLost k).workers 0).hasRoom = true := show zeroWorker.hasRoom = true by decide
  rw [run_losesRead (afterLost k) rfl rfl room]
  have stream : (afterLost k).streams 0 = ⟨k, 0, []⟩ := rfl
  have worker : (afterLost k).workers 0 = zeroWorker.put (slotAt 0) (lostOp k) := rfl
  have streams : Function.update (afterLost k).streams 0 ⟨k + 1, 0, []⟩ = (afterLost (k + 1)).streams :=
    Function.update_idem ..
  have next : (afterLost k).rrNext + 1#32 = (afterLost (k + 1)).rrNext := word_succ k
  simp only [stream, worker, streams, next]
  rw [show (zeroWorker.put (slotAt 0) (lostOp k)).queueHead = 0#32 from rfl, fill_lostOp]
  rfl

/-- Any number of reads may be lost in a row. -/
theorem run_replicate_losesRead (k : Nat) :
    (engine false).run (List.replicate k losesRead).flatten (setup 1 Unit noFutures fun _ => 0) =
      some (afterLost k) := by
  induction k with
  | zero => exact congrArg some afterLost_zero.symm
  | succ k ih =>
      rw [List.replicate_succ', List.flatten_append, Machine.run_append, ih, Option.bind_some,
        List.flatten_singleton]
      exact run_afterLost k

/-- A call of the accelerator that fails. -/
def Label.fails : Label n ι → Bool
  | .thread _ (.accel ok) => !ok
  | _ => false

theorem countP_losesRead (k : Nat) : (List.replicate k losesRead).flatten.countP Label.fails = k := by
  rw [List.countP_flatten, List.map_replicate, List.sum_replicate]
  exact Nat.mul_one k

/-- The worker scans two reads that are behind their gates. -/
def scansBoth : List (Label 1 Unit) := List.replicate 6 (.worker 0 .go)

/-- **Lost turns break the order.** Fewer than `2 ^ 30` calls fail, in a row. The two reads
behind them wait in one queue and on one stream, which has not come to either of them; the
gate is closed for the first one, and the worker dispatches the second one. -/
theorem lost_turns_break_order :
    ∃ (labels : List (Label 1 Unit)) (s : System 1 Unit) (f f' : OpFields),
      labels.countP Label.fails < 2 ^ 30 ∧
      (engine false).run labels (setup 1 Unit noFutures fun _ => 0) = some s ∧
      s.HasTurn 0 (2 ^ 30) 0 0 f ∧ s.HasTurn 0 (2 ^ 30 + 1) 0 1 f' ∧
      (s.workers 0).history 0 = [] ∧ .dispatched ∈ (s.workers 0).history 1 ∧
      .write (2 ^ 30 + 1) ∈ (s.streams 0).commands ∧ ¬ GateSafe s 0 := by
  have goesOn : ((engine false).run (submitsRead 1 ++ submitsRead 5 ++ scansBoth)
      (afterLost (2 ^ 30 - 1))).map (fun s => ((s.workers 0).published.map OpFields.ticket,
        (s.workers 0).history 0, (s.workers 0).history 1, (s.streams 0).commands)) =
      some ([some (0, 2 ^ 30), some (0, 2 ^ 30 + 1)], [], [.dispatched],
        [.write (2 ^ 30), .wait (2 ^ 30), .copy, .write (2 ^ 30 + 1), .wait (2 ^ 30 + 1), .copy]) := by
    decide +kernel
  obtain ⟨s, ran, facts⟩ := Option.map_eq_some_iff.mp goesOn
  simp only [Prod.mk.injEq] at facts
  obtain ⟨tickets, waits, dispatched, commands⟩ := facts
  obtain ⟨f, rest, published, ticket, last⟩ := List.map_eq_cons_iff.mp tickets
  obtain ⟨f', none, rfl, ticket', empty⟩ := List.map_eq_cons_iff.mp last
  obtain rfl := List.map_eq_nil_iff.mp empty
  have has : s.HasTurn 0 (2 ^ 30) 0 0 f := ⟨by rw [published]; rfl, ticket⟩
  have has' : s.HasTurn 0 (2 ^ 30 + 1) 0 1 f' := ⟨by rw [published]; rfl, ticket'⟩
  have entered : .dispatched ∈ (s.workers 0).history 1 := by
    rw [dispatched]
    exact List.mem_singleton_self _
  have quiet : (submitsRead 1 ++ submitsRead 5 ++ scansBoth).countP Label.fails = 0 := by decide
  refine ⟨(List.replicate (2 ^ 30 - 1) losesRead).flatten ++ (submitsRead 1 ++ submitsRead 5 ++ scansBoth),
    s, f, f', ?_, ?_, has, has', waits, entered, ?_, fun safe => ?_⟩
  · rw [List.countP_append, countP_losesRead, quiet]
    decide
  · rw [Machine.run_append, run_replicate_losesRead, Option.bind_some]
    exact ran
  · rw [commands]
    simp
  · obtain ⟨target, n, completed⟩ :=
      safe.order 0 0 f _ 0 1 f' _ has has' (Nat.lt_succ_self _) entered
    rw [waits] at completed
    cases completed

end OpenDS.Engine
