import OpenDS.Engine.GateSubmits

/-!
# The service of the gates

A stream works through its agenda. A worker is admitted at the gate of an operation when it
dispatches it, and releases the gate when it completes the operation; what else it does
concerns no gate.
-/

set_option autoImplicit false

namespace OpenDS.Engine

open OpenDS.Library OpenDS.Aisio

variable {n : Nat} {ι : Type} {s s' : System n ι} {i j : Nat} {g g' : Turnstile}

/-! ## Streams -/

/-- What is parked is parked still where threads and workers are left alone. -/
theorem System.Parked.still {w : Fin n} {slot : Fin queueSize} (parked : s.Parked j w slot)
    (threads : s'.threads = s.threads) (workers : s'.workers = s.workers) : s'.Parked j w slot := by
  rw [System.Parked, threads, workers]
  exact parked

theorem System.entries_still (workers : s'.workers = s.workers) : s'.entries = s.entries := by
  funext c
  cases c with
  | park w slot => simp only [System.entries, System.announced, System.awaited, System.turnOf, workers]
  | _ => rfl

/-- A stream is done with a command, or has come to its second half. -/
theorem GateLine.serve (line : GateLine s j g) (new : List (StreamCommand n)) {c : StreamCommand n}
    {rest : List (StreamCommand n)} {gate : BitVec 32} (commands : (s.streams j).commands = c :: rest)
    (stream : s'.streams j = ⟨(s.streams j).turns, gate, new ++ rest⟩)
    (threads : s'.threads = s.threads) (lock : s'.submitLock = s.submitLock)
    (workers : s'.workers = s.workers) (turns : g'.turns = g.turns) (booking : g'.booking = g.booking)
    (shows : gate = gateWord g'.shown g'.released)
    (agenda : g'.agenda = new.flatMap s.entries ++ rest.flatMap s.entries)
    (spins : ∀ target turn, .spin target turn ∈ new → target = j)
    (parks : ∀ w slot, .park w slot ∉ new) : GateLine s' j g' := by
  have old : ∀ {c'}, c' ∈ rest → c' ∈ (s.streams j).commands := fun member => by
    rw [commands]
    exact List.mem_cons_of_mem _ member
  refine ⟨?_, ?_, ?_, ?_, fun target turn member => ?_, fun w slot member => ?_⟩
  · rw [stream, turns, line.turns]
  · rw [stream, shows]
  · rw [agenda, stream, System.entries_still workers, List.flatMap_append]
  · rw [booking, line.booking, System.booking, System.booking, lock, threads]
  · rw [stream] at member
    rcases List.mem_append.mp member with member | member
    · exact spins target turn member
    · exact line.spins target turn (old member)
  · rw [stream] at member
    rcases List.mem_append.mp member with member | member
    · exact absurd member (parks w slot)
    · exact (line.parks w slot (old member)).still threads workers

/-- What a stream has before it is on the agenda. -/
theorem GateLine.agenda_cons (line : GateLine s j g) {c : StreamCommand n}
    {rest : List (StreamCommand n)} (commands : (s.streams j).commands = c :: rest) :
    g.agenda = s.entries c ++ rest.flatMap s.entries := by
  rw [line.agenda, commands, List.flatMap_cons]

/-- The stream passes a wait when the gate has been released. -/
theorem GateSim.done_of_released (sim : GateSim s j g) {turn : Nat} {rest : List AgendaEntry}
    (agenda : g.agenda = .await turn :: rest) (passes : released (s.streams j).gate turn = true) :
    g.tasks turn = .done := by
  obtain ⟨rfl, -⟩ := sim.inv.head_await agenda
  rw [sim.line.gate, released_gateWord] at passes
  exact sim.inv.released passes

/-- A stream passes the wait that is before it. -/
theorem GateSim.passes (sim : GateSim s j g) {turn : Nat} {c : StreamCommand n}
    {rest : List (StreamCommand n)} (front : (s.streams j).commands = c :: rest)
    (entries : s.entries c = [.await turn]) (passes : released (s.streams j).gate turn = true)
    (stream : s'.streams j = { s.streams j with commands := rest }) (threads : s'.threads = s.threads)
    (lock : s'.submitLock = s.submitLock) (workers : s'.workers = s.workers) : ∃ g, GateSim s' j g := by
  have agenda := sim.line.agenda_cons front
  rw [entries] at agenda
  exact ⟨_, sim.inv.awaited_at agenda (sim.done_of_released agenda passes),
    sim.line.serve [] front stream threads lock workers rfl rfl sim.line.gate rfl (by simp)
      (by simp), sim.served.still workers rfl (Nat.le_refl _)⟩

/-- The callback that is parked on a stream is one of the stream. -/
theorem GateInv.park_eq (inv : GateInv s) {w : Fin n} {slot : Fin queueSize} {a : FileOpStream}
    {turn : Nat} (parked : .park w slot ∈ (s.streams j).commands)
    (args : ((s.workers w).fileOpQueue slot).fields.u = .stream a turn) : a.stream = j := by
  obtain ⟨g, sim⟩ := inv.gates j
  obtain ⟨k, f, turn', rfl, fields, ticket, -⟩ := sim.line.parks w slot parked
  rw [show ((s.workers w).fileOpQueue (slotAt k)).fields = f from fields] at args
  rw [ticket_eq args, Option.some.injEq, Prod.mk.injEq] at ticket
  exact ticket.1

/-- A step of a stream leaves the other ones alone. -/
theorem GateInv.gpu_stream (inv : GateInv s) (effect : GpuEffect s i s') (other : j ≠ i) :
    s'.streams j = s.streams j := by
  cases effect with
  | park w slot rest a turn front args =>
      obtain rfl := inv.park_eq (by rw [front]; exact List.mem_cons_self ..) args
      exact (Function.update_of_ne other _ _).trans (Function.update_of_ne other _ _)
  | _ => exact Function.update_of_ne other _ _

/-- **A step of a stream is one of its turnstile.** -/
theorem GateInv.gpu (inv : GateInv s) (effect : GpuEffect s i s') : ∃ g, GateSim s' j g := by
  obtain ⟨g, sim⟩ := inv.gates j
  obtain ⟨threads, lock, workers, -⟩ := effect.frame
  by_cases here : j = i
  · subst here
    cases effect with
    | write turn rest front =>
        have agenda : g.agenda = .announce turn :: rest.flatMap s.entries := sim.line.agenda_cons front
        have later : g.shown < turn := sim.inv.line.lt_of_announce (by rw [agenda]; exact List.mem_cons_self ..)
        exact ⟨_, sim.inv.announced_at agenda, sim.line.serve [] front
          (Function.update_self _ _ _) rfl rfl rfl rfl rfl (gateWord_closed turn).symm rfl (by simp) (by simp),
          sim.served.still rfl rfl later.le⟩
    | wait turn rest front passes =>
        exact sim.passes front rfl passes (Function.update_self _ _ _) rfl rfl rfl
    | park w slot rest a turn front args =>
        obtain rfl := inv.park_eq (by rw [front]; exact List.mem_cons_self ..) args
        have turnOf : s.turnOf w slot = some turn := by
          rw [System.turnOf, ticket_eq args]
          rfl
        have agenda : g.agenda = .announce turn :: (.await turn :: rest.flatMap s.entries) := by
          rw [sim.line.agenda_cons front, System.entries, System.announced, System.awaited, turnOf]
          rfl
        have later : g.shown < turn := sim.inv.line.lt_of_announce (by rw [agenda]; exact List.mem_cons_self ..)
        refine ⟨_, sim.inv.announced_at agenda, sim.line.serve [.spin a.stream turn] front
          ((Function.update_self _ _ _).trans ?_) rfl rfl rfl rfl rfl (gateWord_closed turn).symm rfl
          (by simp) (by simp), sim.served.still rfl rfl later.le⟩
        simp only [System.setStream, Function.update_self]
        rfl
    | spin target turn rest front passes =>
        obtain rfl := sim.line.spins target turn (by rw [front]; exact List.mem_cons_self ..)
        exact sim.passes front rfl passes (Function.update_self _ _ _) rfl rfl rfl
    | copy rest front =>
        exact ⟨g, sim.inv, sim.line.serve [] front (Function.update_self _ _ _) rfl rfl rfl rfl rfl
          sim.line.gate (sim.line.agenda_cons front) (by simp) (by simp),
          sim.served.still rfl rfl (Nat.le_refl _)⟩
  · have stream := inv.gpu_stream effect here
    refine ⟨g, sim.inv, sim.line.still ⟨fun w slot _ => by rw [workers], fun w => by rw [workers],
      fun t f w head held => ?_⟩ stream ?_, sim.served.still workers rfl (Nat.le_refl _)⟩
    · rw [workers, threads]
      exact .inr ⟨rfl, held⟩
    · rw [System.booking, System.booking, lock, threads]

/-! ## Workers -/

section Workers

variable {gate : Nat → BitVec 32} {stop : Bool} {worker worker' : IoWorker} {w : Fin n} {k : Nat}
  {e : OpEvent} {event : Option (Nat × OpEvent)} {f : OpFields} {stage stage' : Stage} {turn : Nat}

/-- The fields of an operation and its place among those published. -/
def QueuedOp.name (op : QueuedOp) : OpFields × Nat := (op.fields, op.id)

theorem put_name {slot : Fin queueSize} {op : QueuedOp}
    (same : op.name = (worker.fileOpQueue slot).name) (slot' : Fin queueSize) :
    ((worker.put slot op).fileOpQueue slot').name = (worker.fileOpQueue slot').name := by
  change (Function.update worker.fileOpQueue slot op slot').name = _
  rw [Function.update_apply]
  split
  · rename_i here
    rw [same, here]
  · rfl

/-- A step of a worker changes neither the fields nor the places of what is in its queue. -/
theorem WorkerEffect.name (effect : WorkerEffect gate stop worker event worker')
    (slot : Fin queueSize) :
    (worker'.fileOpQueue slot).name = (worker.fileOpQueue slot).name := by
  cases effect with
  | dispatchRead => exact put_name (by rfl) slot
  | issue callback nbytes => exact put_name (by cases callback <;> rfl) slot
  | refuse e => exact put_name (by rfl) slot
  | arrive c command ok =>
      refine put_name ?_ slot
      cases c.callback <;> cases ok <;> simp only [QueuedOp.arrive, QueuedOp.chunkCb, QueuedOp.bounceCb] <;>
        split <;> rfl
  | free => exact put_name (by rfl) slot
  | _ => rfl

theorem WorkerEffect.fields (effect : WorkerEffect gate stop worker event worker')
    (slot : Fin queueSize) :
    (worker'.fileOpQueue slot).fields = (worker.fileOpQueue slot).fields :=
  congrArg Prod.fst (effect.name slot)

/-- A worker comes to the dispatch of an operation of a stream from its gate. -/
theorem WorkerEffect.opens (effect : WorkerEffect gate stop worker event worker')
    (pc : worker'.pc = .dispatch) (ticket : worker'.current.fields.ticket = some (j, turn)) :
    worker.pc = .poll ∧ worker.current.fields.ticket = some (j, turn) ∧
      Engine.gated (gate j) turn = false := by
  cases effect with
  | visit pc' here more visits =>
      cases pc
      cases visits with
      | dispatch a state args =>
          rw [show ({ worker with pc := .dispatch } : IoWorker).current = worker.current from rfl,
            OpFields.ticket, args] at ticket
          cases ticket
  | opened a turn' here args passes =>
      have ticket : worker.current.fields.ticket = some (j, turn) := ticket
      have same := (ticket_eq args).symm.trans ticket
      rw [Option.some.injEq, Prod.mk.injEq] at same
      obtain ⟨rfl, rfl⟩ := same
      exact ⟨here, ticket, passes⟩
  | again pc' here next => rcases next with rfl | rfl <;> cases pc
  | issue callback nbytes here =>
      rw [show (({ worker with commands := _ } : IoWorker).put _ _).pc = worker.pc from rfl, here] at pc
      cases pc
  | arrive c command ok here =>
      rw [show (({ worker with commands := _ } : IoWorker).put _ _).pc = worker.pc from rfl] at pc
      rcases here with here | here <;> rw [here] at pc <;> cases pc
  | retire here =>
      rw [show ({ worker with queueTail := _ } : IoWorker).pc = worker.pc from rfl, here] at pc
      cases pc
  | _ => cases pc

/-- A worker dispatches the operation that it is at. -/
theorem WorkerEffect.dispatches (effect : WorkerEffect gate stop worker (some (k, .dispatched)) worker') :
    worker.pc = .dispatch ∧ k = worker.current.id := by
  cases effect with
  | dispatchWrite pc => exact ⟨pc, rfl⟩
  | dispatchRead pc => exact ⟨pc, rfl⟩

/-- The operation that a worker is at is published. -/
theorem EngineInv.at_current (inv : EngineInv s) (onOp : (s.workers w).pc.onOp = true) :
    ∃ m, QueueInv (s.workers w) (s.offer w) m ∧ (s.workers w).current = (s.workers w).opAt m.i ∧
      (s.workers w).current.id = m.i ∧
      (s.workers w).published[m.i]? = some (s.workers w).current.fields := by
  obtain ⟨m, queue⟩ := inv.queues w
  obtain ⟨current, -, low, lt, id⟩ := queue.place onOp
  refine ⟨m, queue, current, current ▸ id, ?_⟩
  rw [List.getElem?_eq_getElem lt, current, (queue.slots.window m.i lt low).2]

/-- **A gate that is open for an operation shows its turn.** -/
theorem GateInv.shown_of_open (inv : GateInv s) (sim : GateSim s j g) (pc : (s.workers w).pc = .poll)
    (ticket : (s.workers w).current.fields.ticket = some (j, turn))
    (passes : gated (s.streams j).gate turn = false) : turn ≤ g.shown := by
  have onOp : (s.workers w).pc.onOp = true := by rw [pc]; rfl
  obtain ⟨m, queue, current, -, published⟩ := inv.locked.at_current onOp
  obtain ⟨low, lt⟩ := queue.counters.i_window onOp
  obtain ⟨stage, lived, shown⟩ := queue.lives.live m.i lt low
  obtain rfl := QueuedOp.waiting_of_pending (shown.rests (by rw [pc]; rfl)) (queue.lives.polls (.inl pc))
  have waiting : g.tasks turn = .waiting := by
    refine sim.served.tasks w m.i _ turn .waiting ⟨published, ticket⟩ ?_
    rw [← (List.getElem?_eq_some_iff.mp published).2]
    exact lived
  by_contra later
  rw [sim.line.gate, gated_gateWord g.released (Nat.lt_of_not_le later) (sim.served.near turn waiting)]
    at passes
  cases passes

/-- Something happens to an operation of the stream. -/
theorem GateTasks.happens (tasks : GateTasks s j g) (inv : GateInv s) (has : s.HasTurn j turn w k f)
    (published : ∀ v, (s'.workers v).published = (s.workers v).published)
    (history : ∀ v i, (s'.workers v).history i =
      (s.workers v).history i ++ if v = w ∧ i = k then [e] else [])
    (lived : f.life.run ((s.workers w).history k) .waiting = some stage)
    (step : f.life.step stage e = some stage')
    (polled : ∀ v turn, (s'.workers v).pc = .dispatch →
      (s'.workers v).current.fields.ticket = some (j, turn) → turn ≤ g'.shown)
    (same : ∀ t, g'.tasks t = if t = turn then stage'.task else g.tasks t)
    (shown : g.shown ≤ g'.shown) : GateTasks s' j g' := by
  have old := tasks.tasks w k f turn stage has lived
  refine ⟨fun v i f' turn' stage'' has' lived' => ?_, fun turn' none => ?_, polled, fun turn' waiting => ?_⟩
  · have has' : s.HasTurn j turn' v i f' := ⟨published v ▸ has'.published, has'.ticket⟩
    rw [history] at lived'
    rw [same]
    by_cases here : v = w ∧ i = k
    · obtain ⟨rfl, rfl⟩ := here
      obtain rfl : f' = f := Option.some.inj (has'.published.symm.trans has.published)
      rw [if_pos ⟨rfl, rfl⟩, Machine.run_append, lived, Option.bind_some, Machine.run_cons, step] at lived'
      cases lived'
      have ticket := has'.ticket.symm.trans has.ticket
      rw [Option.some.injEq, Prod.mk.injEq] at ticket
      rw [if_pos ticket.2]
    · rw [if_neg here, List.append_nil] at lived'
      rw [if_neg, tasks.tasks v i f' turn' stage'' has' lived']
      rintro rfl
      exact here (inv.alone j turn' v i f' w k f has' has)
  · have absent := tasks.absent turn' fun v f' member => none v f' (by rw [published]; exact member)
    rw [same, if_neg, absent]
    rintro rfl
    refine none w f ?_ has.ticket
    rw [published]
    exact List.mem_of_getElem? has.published
  · rw [same] at waiting
    have near : g.tasks turn' = .waiting := by
      split at waiting
      · rename_i here
        rcases OpFields.life_task step with ⟨-, -, running⟩ | ⟨-, -, done⟩ | ⟨-, -, still⟩
        · rw [running] at waiting
          cases waiting
        · rw [done] at waiting
          cases waiting
        · rw [here, old, ← still, waiting]
      · exact waiting
    exact (tasks.near turn' near).trans (Nat.add_le_add_right shown _)

/-- What happens to an operation leaves the streams alone, unless it completes it. -/
theorem apply_streams (event : Nat × OpEvent) (other : event.2.completes = false) :
    (s.apply (some event)).streams = s.streams := by
  obtain ⟨k, e⟩ := event
  cases e with
  | stored target m => cases target <;> rfl
  | completed => cases other
  | _ => rfl

/-- The completion of an operation releases its gate. -/
theorem apply_completed {m : Int} (k : Nat) : (s.apply (some (k, .completed f.target m))).streams j =
    match f.ticket with
    | none => s.streams j
    | some (i, turn) =>
      if j = i then { s.streams j with gate := gateWord turn true } else s.streams j := by
  rcases f with ⟨isWrite, h, bufBase, u⟩
  cases u with
  | async a => rfl
  | stream a turn =>
      change Function.update s.streams a.stream _ j = _
      rw [Function.update_apply]
      simp only [OpFields.ticket]
      split
      · rename_i here
        rw [here, gateWord_released]
      · rfl

/-- What a step of a worker leaves alone, and what it writes down. -/
structure WorkerFrame (s s' : System n ι) (w : Fin n) (event : Option (Nat × OpEvent)) : Prop where
  threads : s'.threads = s.threads
  lock : s'.submitLock = s.submitLock
  streams : s'.streams = (s.apply event).streams
  published : ∀ v, (s'.workers v).published = (s.workers v).published
  fields : ∀ v slot, ((s'.workers v).fileOpQueue slot).fields = ((s.workers v).fileOpQueue slot).fields
  log : ∀ v, (s'.workers v).log = (s.workers v).log ++ if v = w then event.toList else []

theorem System.workerStep_frame {c : Choice} (step : s.workerStep w c = some s') :
    ∃ event worker, WorkerEffect (fun j => (s.streams j).gate) s.stop (s.workers w) event worker ∧
      s'.workers = Function.update s.workers w (worker.record event) ∧ WorkerFrame s s' w event := by
  obtain ⟨event, worker, effect, rfl⟩ := System.workerStep_effect step
  obtain ⟨threads, lock, workers, -⟩ := (s.setWorker w (worker.record event)).apply_frame event
  have here : ∀ v, (((s.setWorker w (worker.record event)).apply event).workers v) =
      if v = w then worker.record event else s.workers v := fun v => by
    rw [workers]
    exact Function.update_apply ..
  have same := published_of_effect effect
  refine ⟨event, worker, effect, workers, threads, lock, ?_, fun v => ?_, fun v slot => ?_, fun v => ?_⟩
  · unfold System.apply
    split <;> rfl
  all_goals rw [here]; split
  · rename_i v_eq
    rw [v_eq]
    exact same.1
  · rfl
  · rename_i v_eq
    rw [v_eq]
    exact effect.fields slot
  · rfl
  · rename_i v_eq
    rw [v_eq]
    exact congrArg (· ++ event.toList) same.2
  · rw [List.append_nil]

namespace WorkerFrame

theorem booking (frame : WorkerFrame s s' w event) (j : Nat) : s'.booking j = s.booking j := by
  rw [System.booking, System.booking, frame.lock, frame.threads]

theorem keeps (frame : WorkerFrame s s' w event) (j : Nat) : KeepsParked s s' j :=
  ⟨fun v slot _ => frame.fields v slot, fun v => by rw [frame.published],
    fun t f v head held => .inr ⟨frame.published v, by rw [frame.threads]; exact held⟩⟩

theorem history (frame : WorkerFrame s s' w (some (k, e))) (v : Fin n) (i : Nat) :
    (s'.workers v).history i = (s.workers v).history i ++ if v = w ∧ i = k then [e] else [] := by
  rw [IoWorker.history, frame.log, List.filter_append, List.map_append, IoWorker.history]
  congr 1
  by_cases here : v = w <;> by_cases mine : k = i <;> simp [here, mine, eq_comm]

theorem history_none (frame : WorkerFrame s s' w none) (v : Fin n) (i : Nat) :
    (s'.workers v).history i = (s.workers v).history i := by
  rw [IoWorker.history, frame.log, IoWorker.history, Option.toList_none, ite_self, List.append_nil]

/-- What is written down is a step of the life of a published operation. -/
theorem lives (frame : WorkerFrame s s' w (some (k, e))) (inv : EngineInv s) (inv' : EngineInv s') :
    ∃ f stage stage', (s.workers w).published[k]? = some f ∧
      f.life.run ((s.workers w).history k) .waiting = some stage ∧ f.life.step stage e = some stage' := by
  obtain ⟨m, queue⟩ := inv'.queues w
  have lt : k < (s'.workers w).published.length := by
    refine queue.lives.fresh (k, e) ?_
    rw [frame.log, if_pos rfl]
    exact List.mem_append_right _ (List.mem_singleton_self _)
  obtain ⟨stage', lived'⟩ := inv'.lived (List.getElem?_eq_getElem lt)
  have published : (s.workers w).published[k]? = some (s'.workers w).published[k] := by
    rw [← frame.published]
    exact List.getElem?_eq_getElem lt
  obtain ⟨stage, lived⟩ := inv.lived published
  refine ⟨_, stage, stage', published, lived, ?_⟩
  rw [frame.history, if_pos ⟨rfl, rfl⟩, Machine.run_append, lived, Option.bind_some, Machine.run_cons]
    at lived'
  obtain ⟨next, step, same⟩ := Option.bind_eq_some_iff.mp lived'
  cases same
  exact step

/-- What happens to an operation of another stream leaves the stream alone. -/
theorem streams_other (frame : WorkerFrame s s' w (some (k, e)))
    (step : f.life.step stage e = some stage') (other : ∀ turn, f.ticket ≠ some (j, turn)) :
    s'.streams j = s.streams j := by
  rw [frame.streams]
  cases completes : e.completes with
  | false => exact congrFun (apply_streams _ completes) j
  | true =>
      cases e with
      | completed target m =>
          obtain ⟨n, -, target, -⟩ := (OpFields.life_step_own step).2 trivial
          rw [target, apply_completed]
          cases ticket : f.ticket with
          | none => rfl
          | some pair =>
              refine if_neg ?_
              rintro rfl
              exact other pair.2 ticket
      | _ => cases completes

/-- The completion of an operation opens its gate. -/
theorem streams_completes (frame : WorkerFrame s s' w (some (k, e)))
    (step : f.life.step stage e = some stage') (ticket : f.ticket = some (j, turn))
    (completes : e.completes = true) :
    s'.streams j = { s.streams j with gate := gateWord turn true } := by
  cases e with
  | completed target m =>
      obtain ⟨n, -, target, -⟩ := (OpFields.life_step_own step).2 trivial
      rw [frame.streams, target, apply_completed, ticket]
      exact if_pos rfl
  | _ => cases completes

end WorkerFrame

end Workers

/-- A worker that comes to a dispatch has been at the gate, which showed the turn. -/
theorem GateInv.polled_after {w : Fin n} {event : Option (Nat × OpEvent)} {worker : IoWorker}
    (inv : GateInv s) (sim : GateSim s j g)
    (effect : WorkerEffect (fun j => (s.streams j).gate) s.stop (s.workers w) event worker)
    (workers : s'.workers = Function.update s.workers w (worker.record event)) (v : Fin n) (turn : Nat)
    (pc : (s'.workers v).pc = .dispatch)
    (ticket : (s'.workers v).current.fields.ticket = some (j, turn)) : turn ≤ g.shown := by
  rw [workers] at pc ticket
  by_cases here : v = w
  · subst here
    rw [Function.update_self] at pc ticket
    obtain ⟨poll, ticket, passes⟩ := effect.opens pc ticket
    exact inv.shown_of_open sim poll ticket passes
  · rw [Function.update_of_ne here] at pc ticket
    exact sim.served.polled v turn pc ticket

/-- **A step of a worker is one of the turnstile of each stream, or none.** -/
theorem GateInv.worker {w : Fin n} {c : Choice} (inv : GateInv s) (inv' : EngineInv s')
    (step : s.workerStep w c = some s') : ∃ g, GateSim s' j g := by
  obtain ⟨event, worker, effect, workers, frame⟩ := System.workerStep_frame step
  obtain ⟨g, sim⟩ := inv.gates j
  have polled := inv.polled_after sim effect workers
  have booking := frame.booking j
  cases event with
  | none =>
      exact ⟨g, sim.inv, sim.line.still (frame.keeps j) (by rw [frame.streams]; rfl) booking,
        sim.served.frame frame.published (fun v i _ _ _ => frame.history_none v i) polled rfl
          (Nat.le_refl _)⟩
  | some event =>
      obtain ⟨k, e⟩ := event
      obtain ⟨f, stage, stage', published, lived, step⟩ := frame.lives inv.locked inv'
      by_cases own : ∃ turn, f.ticket = some (j, turn)
      · obtain ⟨turn, ticket⟩ := own
        have has : s.HasTurn j turn w k f := ⟨published, ticket⟩
        have task := sim.served.tasks w k f turn stage has lived
        rcases OpFields.life_task step with ⟨rfl, waiting, running⟩ | ⟨completes, running, done⟩ |
          ⟨-, quiet, still⟩
        · -- The operation is dispatched at the turn that the worker has been shown.
          obtain ⟨pc, rfl⟩ := effect.dispatches
          have onOp : (s.workers w).pc.onOp = true := by rw [pc]; rfl
          obtain ⟨m, queue, -, id, same⟩ := inv.locked.at_current onOp
          rw [id, same, Option.some.injEq] at published
          have upTo := sim.served.polled w turn pc (published ▸ ticket)
          have line := sim.line.still (frame.keeps j)
            (by rw [frame.streams]; exact congrFun (apply_streams _ rfl) j) booking
          exact ⟨_, sim.inv.enter (task.trans waiting) upTo, ⟨line.turns, line.gate, line.agenda,
            line.booking, line.spins, line.parks⟩, sim.served.happens inv has frame.published
              frame.history lived step polled (fun t => by rw [running]; rfl) (Nat.le_refl _)⟩
        · -- The gate has shown the turn since the dispatch.
          obtain ⟨shown, -⟩ := sim.inv.running turn (task.trans running)
          have stream := frame.streams_completes step ticket completes
          refine ⟨_, sim.inv.release (task.trans running), sim.line.append (frame.keeps j) [] ?_ ?_ ?_
            (List.append_nil _).symm ?_ (by simp) (by simp), sim.served.happens inv has frame.published
              frame.history lived step (fun v t pc at' => shown ▸ polled v t pc at')
              (fun t => by rw [done]; rfl) shown.ge⟩
          · rw [stream, List.append_nil]
          · rw [stream]
            exact sim.line.turns
          · rw [stream]
          · rw [booking]
            exact sim.line.booking
        · refine ⟨g, sim.inv, sim.line.still (frame.keeps j)
            (by rw [frame.streams]; exact congrFun (apply_streams _ quiet) j) booking,
            sim.served.happens inv has frame.published frame.history lived step polled (fun t => ?_)
              (Nat.le_refl _)⟩
          split
          · rename_i same
            rw [same, task, still]
          · rfl
      · have other : ∀ turn, f.ticket ≠ some (j, turn) := fun turn ticket => own ⟨turn, ticket⟩
        refine ⟨g, sim.inv, sim.line.still (frame.keeps j) (frame.streams_other step other) booking,
          sim.served.frame frame.published (fun v i f' turn has => ?_) polled rfl (Nat.le_refl _)⟩
        rw [frame.history, if_neg, List.append_nil]
        rintro ⟨rfl, rfl⟩
        obtain rfl : f' = f := Option.some.inj (has.published.symm.trans published)
        exact other turn has.ticket

/-! ## Runs -/

/-- **An operation that a step publishes is near**: its turn is at most `2 ^ 30` turns past
the last one of its stream that the stream has reached. -/
def PublishesNear (s : System n ι) : Label n ι → Prop
  | .thread t _ => ∀ fields w head j turn, s.threads t = .publish fields w head →
      fields.ticket = some (j, turn) → s.Near j turn
  | _ => True

section Steps

variable [DecidableEq ι] [NeZero n] {alignedOnly : Bool} {l : Label n ι} {w : Fin n} {k turn : Nat}
  {f : OpFields}

/-- A step publishes the operation of its thread, or nothing. -/
theorem published_of_step (step : (engine alignedOnly).step s l = some s') :
    (∀ w, (s'.workers w).published = (s.workers w).published) ∨
      ∃ t fields w head, s.threads t = .publish fields w head ∧
        s'.workers = Function.update s.workers w ((s.workers w).publish head) := by
  cases l with
  | thread t act =>
      cases System.threadStep_effect step with
      | publish fields w head pc => exact .inr ⟨t, fields, w, head, pc, rfl⟩
      | fillAsync | fillStream | pend => exact .inl (setWorker_published s rfl)
      | _ => exact .inl fun _ => rfl
  | worker w c =>
      obtain ⟨event, worker, effect, rfl⟩ := System.workerStep_effect step
      obtain ⟨-, -, workers, -⟩ := (s.setWorker w (worker.record event)).apply_frame event
      rw [workers]
      exact .inl (setWorker_published s (published_of_effect effect).1)
  | gpu j =>
      obtain ⟨-, -, workers, -⟩ := (System.gpuStep_effect step).frame
      exact .inl fun w => by rw [workers]
  | stop =>
      cases step
      exact .inl fun _ => rfl

/-- What has happened to an operation is not undone. -/
theorem history_of_step (step : (engine alignedOnly).step s l = some s') (w : Fin n) (k : Nat) :
    (s.workers w).history k <+: (s'.workers w).history k := by
  have put : ∀ (v : Fin n) (worker : IoWorker), worker.log = (s.workers v).log →
      (s.workers w).history k <+: (Function.update s.workers v worker w).history k := by
    intro v worker same
    by_cases here : w = v
    · subst here
      rw [Function.update_self, IoWorker.history, IoWorker.history, same]
    · rw [Function.update_of_ne here]
  cases l with
  | thread t act =>
      cases System.threadStep_effect step with
      | fillAsync | fillStream | pend | publish => exact put _ _ rfl
      | _ => exact List.prefix_rfl
  | worker v c =>
      obtain ⟨event, worker, -, -, frame⟩ := System.workerStep_frame step
      cases event with
      | none => rw [frame.history_none]
      | some e =>
          rw [frame.history]
          exact List.prefix_append _ _
  | gpu i => rw [(System.gpuStep_effect step).frame.2.2.1]
  | stop =>
      cases step
      exact List.prefix_rfl

/-- What is completed stays so. -/
theorem completed_of_step (step : (engine alignedOnly).step s l = some s')
    (completed : (s.workers w).Completed k) : (s'.workers w).Completed k := by
  obtain ⟨target, m, there⟩ := completed
  exact ⟨target, m, (history_of_step step w k).subset there⟩

/-- What is published stays published. -/
theorem published_prefix_of_step (step : (engine alignedOnly).step s l = some s') (w : Fin n) :
    (s.workers w).published <+: (s'.workers w).published := by
  rcases published_of_step step with same | ⟨t, fields, v, head, -, workers⟩
  · rw [same]
  · rw [workers]
    by_cases here : w = v
    · subst here
      rw [Function.update_self]
      exact List.prefix_append _ _
    · rw [Function.update_of_ne here]

theorem published_of_step_of_published (step : (engine alignedOnly).step s l = some s')
    (published : (s.workers w).published[k]? = some f) : (s'.workers w).published[k]? = some f := by
  obtain ⟨more, same⟩ := published_prefix_of_step step w
  obtain ⟨lt, -⟩ := List.getElem?_eq_some_iff.mp published
  rw [← same, List.getElem?_append_left lt]
  exact published

/-- A callback that is parked stands for the turn it was parked for. -/
theorem GateInv.turnOf_of_step (inv : GateInv s) (step : (engine alignedOnly).step s l = some s')
    {v : Fin n} {slot : Fin queueSize} (parked : .park v slot ∈ (s.streams j).commands) :
    s'.turnOf v slot = s.turnOf v slot := by
  suffices same : ((s'.workers v).fileOpQueue slot).fields = ((s.workers v).fileOpQueue slot).fields by
    rw [System.turnOf, same, System.turnOf]
  cases l with
  | thread t act =>
      cases System.threadStep_effect step with
      | fillAsync c v' head a pc args =>
          exact (inv.fill_keeps (j := j) pc rfl rfl).fields v slot parked
      | fillStream c v' head a turn pc args next =>
          exact (inv.fill_keeps (j := j) pc rfl rfl).fields v slot parked
      | pend fields v' head pc => exact (pend_fields rfl).fields v slot
      | publish fields v' head pc => exact (publish_fields rfl).fields v slot
      | _ => rfl
  | worker v' c =>
      obtain ⟨event, worker, -, -, frame⟩ := System.workerStep_frame step
      exact frame.fields v slot
  | gpu i => rw [(System.gpuStep_effect step).frame.2.2.1]
  | stop =>
      cases step
      rfl

/-- What a step enqueues to a stream announces no turn but that of a thread that holds it. -/
theorem GateInv.enqueued_of_step (inv : GateInv s) (step : (engine alignedOnly).step s l = some s')
    {c : StreamCommand n} (member : c ∈ (s'.streams j).commands) :
    c ∈ (s.streams j).commands ∨ ∀ turn, s'.announced c = some turn →
      ∃ t fields, (s.threads t).held = some fields ∧ fields.ticket = some (j, turn) := by
  have enqueued : ∀ (i : Nat) (new : StreamCommand n), c ∈ ((s.enqueue i new).streams j).commands →
      c ∈ (s.streams j).commands ∨ j = i ∧ c = new := by
    intro i new member
    simp only [System.enqueue, System.setStream, Function.update_apply] at member
    split at member
    · rename_i here
      subst here
      rcases List.mem_append.mp member with old | last
      · exact .inl old
      · exact .inr ⟨rfl, List.mem_singleton.mp last⟩
    · exact .inl member
  cases l with
  | thread t act =>
      cases System.threadStep_effect step with
      | fillStream c' v head a turn pc args next =>
          have same : ((s.setStream a.stream { s.streams a.stream with turns := turn }).streams j).commands =
              (s.streams j).commands := setStream_commands s (by rfl) j
          exact .inl (same ▸ member)
      | park fields v head a turn pc args aligned =>
          refine (enqueued _ _ member).imp_right ?_
          rintro ⟨rfl, rfl⟩ turn' announced
          have critical : (s.threads t).critical = true := by rw [pc]; rfl
          have offers : (s.threads t).offer v = some ⟨head, some fields, false⟩ := by
            rw [pc]
            exact if_pos rfl
          obtain ⟨-, held, -⟩ := inv.locked.claimed critical offers
          refine ⟨t, fields, by rw [pc]; rfl, ?_⟩
          change ((s.workers v).fileOpQueue (slotOf head)).fields.ticket.map Prod.snd = some turn' at announced
          rw [held fields rfl, ticket_eq args] at announced
          cases announced
          exact ticket_eq args
      | write fields v head a turn pc args aligned =>
          refine (enqueued _ _ member).imp_right ?_
          rintro ⟨rfl, rfl⟩ turn' announced
          cases announced
          exact ⟨t, fields, by rw [pc]; rfl, ticket_eq args⟩
      | wait fields v head a turn pc args =>
          refine (enqueued _ _ member).imp_right ?_
          rintro ⟨rfl, rfl⟩ turn' announced
          cases announced
      | copy i pc =>
          refine (enqueued _ _ member).imp_right ?_
          rintro ⟨rfl, rfl⟩ turn' announced
          cases announced
      | _ => exact .inl member
  | worker v c' =>
      obtain ⟨event, worker, -, rfl⟩ := System.workerStep_effect step
      rw [apply_commands] at member
      exact .inl member
  | gpu i =>
      -- A stream takes a command off, and puts the second half of a callback in its place.
      have popped : ∀ {stream : Stream n} {front} {rest : List (StreamCommand n)}, (s.streams i).commands = front :: rest →
          (∀ c' ∈ stream.commands, c' ∈ rest ∨ ∃ target turn, c' = .spin target turn) →
          c ∈ ((s.setStream i stream).streams j).commands →
          c ∈ (s.streams j).commands ∨ ∃ target turn, c = .spin target turn := by
        intro stream front rest commands new member
        simp only [System.setStream, Function.update_apply] at member
        split at member
        · rename_i here
          subst here
          rcases new c member with old | spin
          · rw [commands]
            exact .inl (List.mem_cons_of_mem _ old)
          · exact .inr spin
        · exact .inl member
      have silent : (∃ target turn, c = .spin target turn) → ∀ turn, s'.announced c = some turn →
          ∃ t fields, (s.threads t).held = some fields ∧ fields.ticket = some (j, turn) := by
        rintro ⟨target, turn, rfl⟩ turn' announced
        cases announced
      cases System.gpuStep_effect step with
      | write turn rest front =>
          exact (popped front (fun c' there => .inl there) member).imp_right silent
      | wait turn rest front =>
          exact (popped front (fun c' there => .inl there) member).imp_right silent
      | park v slot rest a turn front args =>
          rw [System.setGate, setStream_commands _ (by rfl)] at member
          refine (popped front (fun c' there => ?_) member).imp_right silent
          rcases List.mem_cons.mp there with rfl | old
          · exact .inr ⟨_, _, rfl⟩
          · exact .inl old
      | spin target turn rest front =>
          exact (popped front (fun c' there => .inl there) member).imp_right silent
      | copy rest front => exact (popped front (fun c' there => .inl there) member).imp_right silent
  | stop =>
      cases step
      exact .inl member

/-- **A stream does not come back** behind an operation that it has reached. -/
theorem GateInv.reached_of_step (inv : GateInv s) (step : (engine alignedOnly).step s l = some s')
    (reached : s.Reached j turn) : s'.Reached j turn := by
  obtain ⟨⟨v, i, f, has⟩, gone⟩ := reached
  refine ⟨⟨v, i, f, published_of_step_of_published step has.published, has.ticket⟩,
    fun c member announced => ?_⟩
  rcases inv.enqueued_of_step step member with old | fresh
  · refine gone c old ?_
    cases c with
    | park u slot =>
        rw [System.announced, inv.turnOf_of_step step old] at announced
        exact announced
    | write | wait | spin | copy => exact announced
  · obtain ⟨t, fields, held, ticket⟩ := fresh turn announced
    exact (inv.tickets.held t fields j turn held ticket).2 v f
      (List.mem_of_getElem? has.published) has.ticket

/-- A turn is that of one operation. -/
theorem GateInv.alone_step (inv : GateInv s) (step : (engine alignedOnly).step s l = some s')
    {turn k k' : Nat} {w w' : Fin n} {f f' : OpFields} (has : s'.HasTurn j turn w k f)
    (has' : s'.HasTurn j turn w' k' f') : w = w' ∧ k = k' := by
  rcases published_of_step step with published | ⟨t, fields, v, head, pc, workers⟩
  · exact inv.alone j turn w k f w' k' f' ⟨published w ▸ has.published, has.ticket⟩
      ⟨published w' ▸ has'.published, has'.ticket⟩
  · have fresh : ∀ {u i g}, s.HasTurn j turn u i g → fields.ticket ≠ some (j, turn) := by
      intro u i g old ticket
      obtain ⟨-, fresh⟩ := inv.tickets.held t fields j turn (by rw [pc]; rfl) ticket
      exact fresh u g (List.mem_of_getElem? old.published) old.ticket
    rcases inv.locked.hasTurn_publish pc workers has with old | ⟨rfl, rfl, rfl⟩ <;>
      rcases inv.locked.hasTurn_publish pc workers has' with old' | ⟨rfl, rfl, rfl⟩
    · exact inv.alone j turn w k f w' k' f' old old'
    · exact absurd has'.ticket (fresh old)
    · exact absurd has.ticket (fresh old')
    · exact ⟨rfl, rfl⟩

/-- **A step that publishes nothing far ahead keeps the gates in order.** -/
theorem GateInv.step (inv : GateInv s) (near : PublishesNear s l)
    (step : (engine alignedOnly).step s l = some s') : GateInv s' := by
  have inv' := inv.locked.step step
  refine ⟨inv', inv.tickets.step (inv.locked.tickets step),
    fun j turn w k f w' k' f' has has' => inv.alone_step step has has', fun j => ?_⟩
  cases l with
  | thread t act =>
      exact inv.thread inv' (System.threadStep_effect step)
        fun fields w head turn pc ticket => near fields w head j turn pc ticket
  | worker w c => exact inv.worker inv' step
  | gpu i => exact inv.gpu (System.gpuStep_effect step)
  | stop =>
      cases step
      obtain ⟨g, sim⟩ := inv.gates j
      exact ⟨g, sim.inv, sim.line.still ⟨fun _ _ _ => rfl, fun _ => List.prefix_rfl,
        fun t f w head held => .inr ⟨rfl, held⟩⟩ rfl rfl, sim.served.still rfl rfl (Nat.le_refl _)⟩

end Steps

theorem GateInv.start (futures : Nat → Future) (bytesRead : Nat → Int) :
    GateInv (setup n ι futures bytesRead) := by
  have none : ∀ {j turn w k f}, ¬ (setup n ι futures bytesRead).HasTurn j turn w k f := fun has => by
    cases has.published
  refine ⟨.start futures bytesRead, .start futures bytesRead,
    fun j turn w k f w' k' f' has => absurd has none, fun j => ?_⟩
  refine ⟨.fresh, .fresh, ⟨rfl, rfl, rfl, rfl, by simp [setup], by simp [setup]⟩,
    ⟨fun w k f turn stage has => ?_, fun _ _ => rfl, fun w turn pc => ?_, fun turn waiting => ?_⟩⟩
  · exact absurd has none
  · cases pc
  · cases waiting

/-- **The gates are in order in every state of a run that publishes nothing far ahead.** -/
theorem GateInv.run [DecidableEq ι] [NeZero n] {alignedOnly : Bool} {labels : List (Label n ι)}
    {futures : Nat → Future} {bytesRead : Nat → Int}
    (meets : (engine alignedOnly).Meets PublishesNear labels (setup n ι futures bytesRead))
    (ran : (engine alignedOnly).run labels (setup n ι futures bytesRead) = some s) : GateInv s :=
  Machine.run_invariant (fun _ _ _ inv near step => inv.step near step) (.start futures bytesRead)
    meets ran

end OpenDS.Engine
