import OpenDS.DataPath.Effects

/-!
# The data path refines the engine

The engine under the data path is the engine of `OpenDS.Engine`: every step of the data
path is one of its steps or leaves it alone (`IoInv.refines`). So the queues and the lock
are in order in every reachable state of the data path, and the commands of an NVMe queue
are those the engine counts.
-/

set_option autoImplicit false

namespace OpenDS.DataPath

open OpenDS.Library (Machine Memory Ptr)
open OpenDS.Aisio OpenDS.Engine

variable {n : Nat} {ι : Type} {d : Driver} {s s' : IoState n ι} {w : Fin n}

/-! ## What holds at any time -/

/-- What holds of a worker: its NVMe queue holds what the engine counts, it is in
`start_read_op` or has no plan, and a read that it is about to plan is as
`dispatch_pending` has reset it. -/
structure WorkerInv (s : IoState n ι) (w : Fin n) : Prop where
  linked : (s.sys.workers w).commands = (s.wires w).map Wire.queued
  idle : (s.sys.workers w).pc ≠ .submit → s.submission w = none
  fresh : (s.sys.workers w).pc = .submit → s.submission w = none →
    (s.sys.workers w).current.chunksRemaining = 0 ∧
      (s.sys.workers w).current.bouncesOutstanding = 0 ∧
      (s.sys.workers w).current.bytesAcc = 0 ∧ (s.sys.workers w).current.err = none

/-- **What holds of the data path at any time.** -/
structure IoInv (s : IoState n ι) : Prop where
  engine : EngineInv s.sys
  workers : ∀ w, WorkerInv s w

/-! ## Threads -/

/-- What a thread can change of a worker that it has offered an operation to, or not:
the slot at the head, and the operations published. -/
structure Undisturbed (offer : Option Offer) (w w' : IoWorker) : Prop where
  pc : w'.pc = w.pc
  i : w'.i = w.i
  commands : w'.commands = w.commands
  log : w'.log = w.log
  published : ∃ more, w'.published = w.published ++ more
  opAt : ∀ m, QueueInv w offer m → ∀ k, m.tail ≤ k → k < w.published.length →
    w'.opAt k = w.opAt k

theorem Undisturbed.refl (offer : Option Offer) (w : IoWorker) : Undisturbed offer w w :=
  ⟨rfl, rfl, rfl, rfl, ⟨[], (List.append_nil _).symm⟩, fun _ _ _ _ _ => rfl⟩

/-- A thread writes to the slot that it offers. -/
theorem Undisturbed.put (o : Offer) (w : IoWorker) (op : QueuedOp) :
    Undisturbed (some o) w (w.put (slotOf o.head) op) := by
  refine ⟨rfl, rfl, rfl, rfl, ⟨[], (List.append_nil _).symm⟩, fun m queue k low lt => ?_⟩
  have holds := queue.slots.offered o rfl
  have room := holds.room
  refine Function.update_of_ne ?_ _ _
  rw [holds.head, slotOf_word]
  exact slotAt_ne lt (by omega)

/-- **A thread disturbs no operation that is published.** -/
theorem undisturbed_of_effect [DecidableEq ι] [NeZero n] {alignedOnly : Bool}
    {s s' : System n ι} {t : ι} (inv : EngineInv s) (effect : ThreadEffect alignedOnly s t s')
    (w : Fin n) : Undisturbed (s.offer w) (s.workers w) (s'.workers w) := by
  -- The change of the worker that an operation is offered to.
  have at' : ∀ {v : Fin n} {o : Offer} {worker : IoWorker}, (s.threads t).critical = true →
      (s.threads t).offer v = some o → Undisturbed (some o) (s.workers v) worker →
      Undisturbed (s.offer w) (s.workers w) (Function.update s.workers v worker w) := by
    intro v o worker critical offered changed
    by_cases same : w = v
    · subst same
      rw [Function.update_self, inv.offer_eq critical w, offered]
      exact changed
    · rw [Function.update_of_ne same]
      exact .refl _ _
  cases effect with
  | fillAsync c v head a pc args =>
      exact at' (by rw [pc]; rfl) (by rw [pc]; exact if_pos rfl)
        (.put ⟨head, none, false⟩ _ _)
  | fillStream c v head a turn pc args next =>
      exact at' (by rw [pc]; rfl) (by rw [pc]; exact if_pos rfl)
        (.put ⟨head, none, false⟩ _ _)
  | pend fields v head pc =>
      exact at' (by rw [pc]; rfl) (by rw [pc]; exact if_pos rfl)
        (.put ⟨head, some fields, false⟩ _ _)
  | publish fields v head pc =>
      exact at' (o := ⟨head, some fields, true⟩) (by rw [pc]; rfl) (by rw [pc]; exact if_pos rfl)
        ⟨rfl, rfl, rfl, rfl, ⟨_, rfl⟩, fun _ _ _ _ _ => rfl⟩
  | _ => exact .refl _ _

/-- The worker stays at its operation while a thread takes a step. -/
theorem Undisturbed.current {worker worker' : IoWorker} {offer : Option Offer} {m : Marks}
    (same : Undisturbed offer worker worker') (queue : QueueInv worker offer m)
    (onOp : worker.pc.onOp = true) : worker'.current = worker.current := by
  obtain ⟨at', slot, low, lt, -⟩ := queue.place onOp
  have kept := same.opAt m queue m.i low lt
  rw [at', ← kept, IoWorker.current, same.i, slot, IoWorker.opAt]

/-! ## Workers -/

/-- The event is none of the submission and the completion of a read. -/
def Outer : OpEvent → Prop
  | .dispatched => True
  | .wrote _ => True
  | .stored _ _ => True
  | .completed _ _ => True
  | _ => False

/-- What a quiet step does, and that it leaves the NVMe queue alone. -/
theorem QuietChoice.effect {c : Choice} {sys : System n ι} (quiet : QuietChoice s w c)
    (outside : (s.sys.workers w).pc ≠ .submit) (step : s.sys.workerStep w c = some sys) :
    ∃ event worker, WorkerEffect (fun j => (s.sys.streams j).gate) s.sys.stop (s.sys.workers w)
        event worker ∧ sys = (s.sys.setWorker w (worker.record event)).apply event ∧
      worker.commands = (s.sys.workers w).commands ∧ ∀ e, event = some e → Outer e.2 := by
  obtain ⟨⟨worker, event⟩, act, rfl⟩ := Option.map_eq_some_iff.mp step
  have effect := IoWorker.act_effect act
  refine ⟨event, worker, effect, rfl, ?_⟩
  cases effect with
  | issue callback nbytes pc => exact absurd pc outside
  | refuse e pc => exact absurd pc outside
  | arrive x command ok pc there =>
      -- The engine completes a command on another choice only.
      have poke := pc.resolve_left outside
      rcases quiet with ⟨rfl, -⟩ | ⟨rfl, -⟩ <;> simp [IoWorker.act, poke] at act
  | copied ok pc chunks bounces =>
      rcases quiet with ⟨rfl, -⟩ | ⟨-, some'⟩
      · simp [IoWorker.act, pc] at act
      · exact absurd ⟨chunks, bounces⟩ some'
  | dispatchWrite | dispatchRead | wrote | store | complete =>
      refine ⟨rfl, fun e same => ?_⟩
      cases same
      trivial
  | _ => exact ⟨rfl, fun e no => (by cases no)⟩

/-- The worker is in `start_read_op` past a step from outside only if it has dispatched a
read. -/
theorem dispatches_of_effect {gate : Nat → BitVec 32} {stop : Bool} {worker worker' : IoWorker}
    {event : Option (Nat × OpEvent)} (effect : WorkerEffect gate stop worker event worker')
    (outside : worker.pc ≠ .submit) (inside : worker'.pc = .submit) :
    worker' = ({ worker with pc := .submit } : IoWorker).put (slotOf worker.i) worker.current.start ∧
      worker.pc = .dispatch ∧ event = some (worker.current.id, .dispatched) := by
  cases effect with
  | dispatchRead pc read => exact ⟨rfl, pc, rfl⟩
  | visit pc' pc more visits => cases visits <;> cases inside
  | again pc' pc next => rcases next with rfl | rfl <;> cases inside
  | issue callback nbytes pc => exact absurd pc outside
  | refuse e pc => exact absurd pc outside
  | submitted pc => exact absurd pc outside
  | arrive x command ok pc there => exact absurd inside outside
  | retire pc more state => exact absurd inside outside
  | _ => cases inside

theorem engineArrive_of_step {command : Nat} {ok : Bool} {sys : System n ι}
    (step : s.sys.workerStep w (.poked command ok) = some sys) :
    ∃ c, (s.sys.workers w).commands[command]? = some c ∧
      sys = (s.sys.setWorker w ((({ s.sys.workers w with
          commands := (s.sys.workers w).commands.eraseIdx command } : IoWorker).put c.slot
        (((s.sys.workers w).fileOpQueue c.slot).arrive c.callback c.nbytes ok)).record
          (some (c.id, .arrived c.callback c.nbytes ok)))) := by
  obtain ⟨⟨worker, event⟩, act, rfl⟩ := Option.map_eq_some_iff.mp step
  have arrives : (s.sys.workers w).arrive command ok = some (worker, event) := by
    cases pc : (s.sys.workers w).pc <;> simp only [IoWorker.act, pc, reduceCtorEq] at act <;>
      exact act
  obtain ⟨c, there, rfl, rfl⟩ := (s.sys.workers w).arrive_eq_some arrives
  exact ⟨c, there, rfl⟩

/-! ## Inside `start_read_op` -/

section Proceed

variable {a : Answer} {task : ReadTask}

/-- The worker past `proceed`. -/
theorem proceed_worker (new : List Wire) (event : Option OpEvent) (op : QueuedOp)
    (wires : s.newWires d w task.st = new) (what : eventOf a new task = event)
    (counts : absorb (s.sys.workers w).current task.st.op = op) :
    (s.proceed d w a task).sys = s.sys.setWorker w
      ((({ (if task.sub.isNone then (s.sys.workers w).next else s.sys.workers w) with
          commands := (s.sys.workers w).commands ++ new.map Wire.queued } : IoWorker).put
        (slotOf (s.sys.workers w).i) op).record
          (event.map fun e => ((s.sys.workers w).current.id, e))) := by
  subst wires what counts
  unfold IoState.proceed
  cases task.sub <;> rfl

theorem put_current (worker : IoWorker) : worker.put (slotOf worker.i) worker.current = worker := by
  unfold IoWorker.put IoWorker.current
  rw [Function.update_eq_self]

/-- Nothing that the engine knows of has changed. -/
theorem proceed_still (none : s.newWires d w task.st = []) {sub : Submission}
    (goesOn : task.sub = some sub) (asks : a ≠ .submitted)
    (counts : absorb (s.sys.workers w).current task.st.op = (s.sys.workers w).current) :
    (s.proceed d w a task).sys = s.sys := by
  have event : eventOf a [] task = Option.none := by
    cases a <;> simp [eventOf, goesOn]
  rw [proceed_worker [] Option.none _ none event counts, goesOn]
  have worker : (({ s.sys.workers w with
      commands := (s.sys.workers w).commands ++ [] } : IoWorker).put (slotOf (s.sys.workers w).i)
        (s.sys.workers w).current).record Option.none = s.sys.workers w := by
    rw [List.append_nil]
    have put := put_current (s.sys.workers w)
    simp only [IoWorker.record, Option.toList_none, List.append_nil]
    exact put
  simp only [Option.isNone_some, Bool.false_eq_true, if_false, List.map_nil, Option.map_none]
  rw [worker, System.setWorker, Function.update_eq_self]

/-- The queue has taken a command. -/
theorem proceed_issue (pc : (s.sys.workers w).pc = .submit) (x : Wire)
    (wires : s.newWires d w task.st = [x]) (slot : x.slot = slotOf (s.sys.workers w).i)
    (id : x.id = (s.sys.workers w).current.id) {sub : Submission} (goesOn : task.sub = some sub)
    (counts : absorb (s.sys.workers w).current task.st.op =
      (s.sys.workers w).current.issue x.cmd.callback x.nbytes) :
    s.sys.workerStep w (.issue x.cmd.callback x.nbytes) = some (s.proceed d w a task).sys := by
  rw [proceed_worker [x] (some (.issued x.cmd.callback x.nbytes)) _ wires (by cases a <;> rfl) counts,
    goesOn]
  simp only [System.workerStep, IoWorker.act, pc, Option.map_some, System.apply,
    Option.isNone_some, Bool.false_eq_true, if_false, List.map_cons, List.map_nil, Wire.queued,
    slot, id]

/-- The submission has failed. -/
theorem proceed_refuse (pc : (s.sys.workers w).pc = .submit)
    (wires : s.newWires d w task.st = []) (out : task.sub = none) (asks : a ≠ .submitted) (e : OpError)
    (counts : absorb (s.sys.workers w).current task.st.op =
      { (s.sys.workers w).current with err := some e }) :
    s.sys.workerStep w (.refuse e) = some (s.proceed d w a task).sys := by
  have err : task.st.op.err = some e := congrArg QueuedOp.err counts
  have event : eventOf a [] task = some (.refused e) := by
    cases a <;> simp [eventOf, out, err] at asks ⊢
  rw [proceed_worker [] (some (.refused e)) _ wires event counts, out]
  simp only [System.workerStep, IoWorker.act, pc, Option.map_some, System.apply, List.map_nil,
    List.append_nil]
  rfl

/-- The submission has come to its end. -/
theorem proceed_submitted (pc : (s.sys.workers w).pc = .submit)
    (wires : s.newWires d w task.st = []) (out : task.sub = none)
    (counts : absorb (s.sys.workers w).current task.st.op = (s.sys.workers w).current) :
    s.sys.workerStep w .go = some (s.proceed d w .submitted task).sys := by
  rw [proceed_worker [] none _ wires rfl counts, out]
  have put := put_current (s.sys.workers w)
  have next : (s.sys.workers w).next.put (slotOf (s.sys.workers w).i) (s.sys.workers w).current =
      (s.sys.workers w).next := by
    unfold IoWorker.put IoWorker.current
    exact congrArg (fun queue => { (s.sys.workers w).next with fileOpQueue := queue })
      (Function.update_eq_self _ _)
  simp only [System.workerStep, IoWorker.act, pc, Option.map_some, System.apply, List.map_nil,
    List.append_nil, Option.map_none, Option.isNone_none, if_true]
  exact congrArg (fun worker : IoWorker => some (s.sys.setWorker w (worker.record none))) next.symm

/-- How the engine sees an answer to the read that a worker is submitting. -/
inductive Move (d : Driver) (s : IoState n ι) (w : Fin n) (a : Answer) (task : ReadTask) : Prop where
  | still (sub : Submission) : s.newWires d w task.st = [] → task.sub = some sub →
      a ≠ .submitted →
      absorb (s.sys.workers w).current task.st.op = (s.sys.workers w).current → Move d s w a task
  | issue (x : Wire) (sub : Submission) : s.newWires d w task.st = [x] →
      x.slot = slotOf (s.sys.workers w).i → x.id = (s.sys.workers w).current.id →
      x.place = (s.ops w (slotOf (s.sys.workers w).i)).issued.length → task.sub = some sub →
      absorb (s.sys.workers w).current task.st.op =
        (s.sys.workers w).current.issue x.cmd.callback x.nbytes → Move d s w a task
  | refuse (e : OpError) : s.newWires d w task.st = [] → task.sub = none → a ≠ .submitted →
      absorb (s.sys.workers w).current task.st.op =
        { (s.sys.workers w).current with err := some e } → Move d s w a task
  | submitted : a = .submitted → s.newWires d w task.st = [] → task.sub = none →
      absorb (s.sys.workers w).current task.st.op = (s.sys.workers w).current → Move d s w a task

/-- A move is a step of the engine or leaves it alone. -/
theorem Move.refines (pc : (s.sys.workers w).pc = .submit) (move : Move d s w a task) :
    (s.proceed d w a task).sys = s.sys ∨
      ∃ c, s.sys.workerStep w c = some (s.proceed d w a task).sys := by
  cases move with
  | still sub wires goesOn asks counts => exact .inl (proceed_still wires goesOn asks counts)
  | issue x sub wires slot id place goesOn counts =>
      exact .inr ⟨_, proceed_issue pc x wires slot id goesOn counts⟩
  | refuse e wires out asks counts => exact .inr ⟨_, proceed_refuse pc wires out asks e counts⟩
  | submitted asks wires out counts =>
      subst asks
      exact .inr ⟨_, proceed_submitted pc wires out counts⟩

/-- The queue has been given no command. -/
theorem newWires_nil {st : ReadState}
    (same : st.issued = (s.view w (slotOf (s.sys.workers w).i)).issued) : s.newWires d w st = [] := by
  rw [IoState.newWires, same]
  simp [IoState.view]

/-- The queue has been given one command. -/
theorem newWires_cons {st : ReadState} {c : Command}
    (more : st.issued = (s.view w (slotOf (s.sys.workers w).i)).issued ++ [c]) :
    s.newWires d w st = [⟨slotOf (s.sys.workers w).i, c, wireBytes d st c,
      (s.sys.workers w).current.id, (s.ops w (slotOf (s.sys.workers w).i)).issued.length⟩] := by
  rw [IoState.newWires, more]
  simp [IoState.view]

/-- What the queue takes of an item is one command, which the operation counts. -/
theorem takes_issue {item : Item} {st st' : ReadState} (takes : item.Takes d st st') :
    ∃ c, st'.issued = st.issued ++ [c] ∧ ∀ op : QueuedOp, absorb op st.op = op →
      absorb op st'.op = op.issue c.callback (wireBytes d st' c) := by
  cases item with
  | chunk slba nlb dst =>
      cases takes
      refine ⟨_, rfl, fun op counts => ?_⟩
      rw [← counts]
      rfl
  | bounceRead buf absDst slba srcOff nbytes =>
      cases takes
      refine ⟨_, by rw [describe_issued]; rfl, fun op counts => ?_⟩
      rw [← counts]
      simp [wireBytes, absorb, QueuedOp.issue]
  | _ => exact takes.elim

/-- **Each answer of `start_read_op` is a move.** -/
theorem told_moves {sub : Submission}
    (effect : TaskEffect d s.disk ⟨s.view w (slotOf (s.sys.workers w).i), some sub⟩ a task)
    (pokes : ∀ place ok, a ≠ .arrived place ok) : Move d s w a task := by
  have counts : absorb (s.sys.workers w).current (s.view w (slotOf (s.sys.workers w).i)).op =
      (s.sys.workers w).current := rfl
  cases effect with
  | entered alloc absDst slba srcOff nbytes rest buf st submitting entered =>
      cases (enterPartial_ok entered).1 with
      | stream mode head first => exact .still _ (newWires_nil rfl) rfl (by simp) rfl
      | host mode held => exact .still _ (newWires_nil rfl) rfl (by simp) rfl
  | barred alloc absDst slba srcOff nbytes rest st submitting barred =>
      obtain ⟨e, held, rfl, -⟩ := enterPartial_out barred
      exact .refuse e (newWires_nil rfl) rfl (by simp) rfl
  | retry busy item rest submitting waits => exact .still _ (newWires_nil rfl) rfl (by simp) counts
  | arrived place ok outstanding poking => exact absurd rfl (pokes place ok)
  | poked todo submitting => exact .still _ (newWires_nil rfl) rfl (by simp) counts
  | taken item rest st submitting takes =>
      obtain ⟨c, issued, count⟩ := takes_issue takes
      exact .issue _ _ (newWires_cons issued) rfl rfl rfl rfl (count _ counts)
  | refused item rest submitting waits =>
      exact .refuse .deviceDriverError (newWires_nil rfl) rfl (by simp) rfl
  | rejected takes e rest submitting => exact .refuse e (newWires_nil rfl) rfl (by simp) rfl
  | submitted submitting => exact .submitted rfl (newWires_nil rfl) rfl counts
  | fails cells getExtents e outside => cases outside
  | planned cells getExtents items outside => cases outside
  | reaped ok outside => cases outside

/-- An operation that `dispatch_pending` has reset is not changed by another reset. -/
theorem absorb_dispatched {op : QueuedOp} (chunks : op.chunksRemaining = 0)
    (bounces : op.bouncesOutstanding = 0) (bytes : op.bytesAcc = 0) (err : op.err = none)
    (st : ReadState) : absorb op (dispatched st).op = op := by
  obtain ⟨state, fields, chunksRemaining, bouncesOutstanding, bytesAcc, err', id⟩ := op
  cases chunks
  cases bounces
  cases bytes
  cases err
  rfl

/-- **The plan of a read is a move.** -/
theorem began_moves (inv : WorkerInv s w) (pc : (s.sys.workers w).pc = .submit)
    (fresh : s.submission w = none) (cells : Request)
    (getExtents : Nat → Except Int (List Extent)) :
    Move d s w (.resolved cells getExtents) (.begin d { obliging s.disk with getExtents := getExtents }
      (s.requested w (slotOf (s.sys.workers w).i) cells)) := by
  obtain ⟨chunks, bounces, bytes, err⟩ := inv.fresh pc fresh
  have reset := absorb_dispatched chunks bounces bytes err
    (s.requested w (slotOf (s.sys.workers w).i) cells)
  have none : ∀ st : ReadState, st.issued = [] → s.newWires d w st = [] := by
    intro st empty
    rw [IoState.newWires, empty]
    simp
  unfold ReadTask.begin
  simp only
  split
  · rename_i e failed
    refine .refuse e (none _ rfl) rfl (by simp) ?_
    exact (congrArg (fun op : QueuedOp => { op with err := some e }) reset :)
  · exact .still _ (none _ rfl) rfl (by simp) reset

/-- The worker past `proceed`: where it stands, and its NVMe queue. -/
theorem proceed_queue (a : Answer) (task : ReadTask) :
    ((s.proceed d w a task).sys.workers w).commands =
        (s.sys.workers w).commands ++ (s.newWires d w task.st).map Wire.queued ∧
      (task.sub = none → ((s.proceed d w a task).sys.workers w).pc = .scan) ∧
      (task.sub ≠ none → ((s.proceed d w a task).sys.workers w).pc = (s.sys.workers w).pc ∧
        ((s.proceed d w a task).sys.workers w).i = (s.sys.workers w).i) := by
  rw [proceed_worker _ _ _ rfl rfl rfl]
  simp only [System.setWorker, Function.update_self]
  cases sub : task.sub with
  | none => exact ⟨rfl, fun _ => rfl, fun goesOn => absurd rfl goesOn⟩
  | some sub => exact ⟨rfl, fun out => (by cases out), fun _ => ⟨rfl, rfl⟩⟩

end Proceed

/-! ## Every step -/

/-- A step of the engine's worker leaves the other workers alone, and does not lose what
happens to an operation. -/
theorem engineWorker_of_step {c : Choice} {sys : System n ι}
    (step : s.sys.workerStep w c = some sys) :
    ∃ worker event, (s.sys.workers w).act (fun j => (s.sys.streams j).gate) s.sys.stop c =
        some (worker, event) ∧ sys.workers = Function.update s.sys.workers w (worker.record event) := by
  obtain ⟨⟨worker, event⟩, act, rfl⟩ := Option.map_eq_some_iff.mp step
  refine ⟨worker, event, act, ?_⟩
  obtain ⟨-, -, workers, -⟩ := (s.sys.setWorker w (worker.record event)).apply_frame event
  exact workers

/-- **Every step of a worker is a step of the engine or leaves it alone.** -/
theorem IoEffect.refines (inv : WorkerInv s w) (effect : IoEffect d s w s') :
    s'.sys = s.sys ∨ ∃ c, s.sys.workerStep w c = some s'.sys := by
  cases effect with
  | quiet c sys outside quiet step => exact .inr ⟨c, step⟩
  | began cells getExtents pc fresh => exact (began_moves inv pc fresh cells getExtents).refines pc
  | told sub c a task pc submitting answers step =>
      refine (told_moves (ReadTask.step_effect step) fun place ok same => ?_).refines pc
      subst same
      cases c <;> simp [IoChoice.answer] at answers
      split at answers <;> cases answers
  | arrived x command ok sys pokes there step => exact .inr ⟨_, step⟩
  | wrote ret disk sys pc step => exact .inr ⟨_, step⟩
  | reaped ok sys pc chunks bounces step => exact .inr ⟨_, step⟩
  | released m sys pc step => exact .inr ⟨_, step⟩

/-- What a worker has been doing holds past its step. -/
theorem IoEffect.workerInv (inv : WorkerInv s w) (effect : IoEffect d s w s') : WorkerInv s' w := by
  -- A step that stands past it elsewhere than in `start_read_op`.
  have elsewhere : ∀ {sys : System n ι} {s' : IoState n ι}, s'.sys = sys →
      s'.wires = s.wires → s'.submission = s.submission → (s.sys.workers w).pc ≠ .submit →
      (sys.workers w).commands = (s.sys.workers w).commands → (sys.workers w).pc ≠ .submit →
      WorkerInv s' w := by
    intro sys s' same wires submission outside commands outside'
    refine ⟨?_, fun _ => ?_, fun pc => ?_⟩
    · rw [same, commands, wires]
      exact inv.linked
    · rw [submission]
      exact inv.idle outside
    · rw [same] at pc
      exact absurd pc outside'
  have proceeds : ∀ (a : Answer) (task : ReadTask), (s.sys.workers w).pc = .submit →
      WorkerInv (s.proceed d w a task) w := by
    intro a task pc
    obtain ⟨commands, out, goesOn⟩ := proceed_queue (d := d) (s := s) (w := w) a task
    have wires : (s.proceed d w a task).wires w = s.wires w ++ s.newWires d w task.st :=
      Function.update_self ..
    have submission : (s.proceed d w a task).submission w = task.sub := Function.update_self ..
    refine ⟨?_, fun outside => ?_, fun inside none => ?_⟩
    · rw [commands, wires, List.map_append, inv.linked]
    · rw [submission]
      by_contra more
      exact outside ((goesOn more).1.trans pc)
    · rw [submission] at none
      rw [out none] at inside
      cases inside
  cases effect with
  | quiet c sys outside quiet step =>
      obtain ⟨event, worker, effect, same, commands, -⟩ := quiet.effect outside step
      obtain ⟨-, -, workers, -⟩ := (s.sys.setWorker w (worker.record event)).apply_frame event
      have here : sys.workers w = worker.record event := by
        rw [same, workers]
        exact Function.update_self ..
      by_cases inside : worker.pc = .submit
      · obtain ⟨rfl, -, -⟩ := dispatches_of_effect effect outside inside
        refine ⟨?_, fun outside' => ?_, fun _ _ => ?_⟩
        · rw [here]
          exact inv.linked
        · rw [here] at outside'
          exact absurd rfl outside'
        · have current : (sys.workers w).current = (s.sys.workers w).current.start := by
            rw [here]
            exact Function.update_self ..
          rw [current]
          exact ⟨rfl, rfl, rfl, rfl⟩
      · refine elsewhere rfl rfl rfl outside ?_ ?_
        · rw [here]
          exact commands
        · rw [here]
          exact inside
  | began cells getExtents pc fresh => exact proceeds _ _ pc
  | told sub c a task pc submitting answers step => exact proceeds _ _ pc
  | arrived x command ok sys pokes there step =>
      obtain ⟨c, queued, rfl⟩ := engineArrive_of_step step
      refine ⟨?_, fun outside => ?_, fun inside none => ?_⟩
      · simp only [System.setWorker, Function.update_self]
        change (s.sys.workers w).commands.eraseIdx command = _
        rw [inv.linked, List.eraseIdx_map]
      · refine inv.idle fun pc => outside ?_
        simp only [System.setWorker, Function.update_self]
        exact pc
      · simp only [System.setWorker, Function.update_self] at inside
        have pc : (s.sys.workers w).pc = .submit := inside
        obtain ⟨-, sub, submitting, -⟩ := pokes.resolve_right fun poke => by
          rw [pc] at poke
          cases poke
        cases submitting.symm.trans none
  | wrote ret disk sys pc step =>
      obtain ⟨worker, event, act, workers⟩ := engineWorker_of_step step
      simp only [IoWorker.act, pc, Option.some.injEq, Prod.mk.injEq] at act
      obtain ⟨rfl, rfl⟩ := act
      exact elsewhere rfl rfl rfl (by rw [pc]; simp) (by rw [workers, Function.update_self]; rfl)
        (by rw [workers, Function.update_self]; simp [IoWorker.record])
  | reaped ok sys pc chunks bounces step =>
      obtain ⟨worker, event, act, workers⟩ := engineWorker_of_step step
      simp only [IoWorker.act, pc, chunks, bounces, and_self, if_true, Option.some.injEq,
        Prod.mk.injEq] at act
      obtain ⟨rfl, rfl⟩ := act
      exact elsewhere rfl rfl rfl (by rw [pc]; simp) (by rw [workers, Function.update_self]; rfl)
        (by rw [workers, Function.update_self]; simp [IoWorker.record])
  | released m sys pc step =>
      obtain ⟨worker, event, act, workers⟩ := engineWorker_of_step step
      simp only [IoWorker.act, pc, Option.some.injEq, Prod.mk.injEq] at act
      obtain ⟨rfl, rfl⟩ := act
      exact elsewhere rfl rfl rfl (by rw [pc]; simp) (by rw [workers, Function.update_self]; rfl)
        (by rw [workers, Function.update_self]; simp [IoWorker.record])

/-- A step of a worker leaves the other workers and their reads alone. -/
theorem IoEffect.others (inv : WorkerInv s w) (effect : IoEffect d s w s') {v : Fin n} (other : v ≠ w) :
    s'.sys.workers v = s.sys.workers v ∧ s'.wires v = s.wires v ∧ s'.ops v = s.ops v ∧
      s'.submission v = s.submission v ∧ s'.answers v = s.answers v := by
  have workers : s'.sys.workers v = s.sys.workers v := by
    rcases effect.refines inv with same | ⟨c, step⟩
    · rw [same]
    · obtain ⟨worker, event, -, workers⟩ := engineWorker_of_step step
      rw [workers, Function.update_of_ne other]
  refine ⟨workers, ?_⟩
  cases effect with
  | quiet | wrote | released => exact ⟨rfl, rfl, rfl, rfl⟩
  | began | told =>
      exact ⟨Function.update_of_ne other _ _, Function.update_of_ne other _ _,
        Function.update_of_ne other _ _, Function.update_of_ne other _ _⟩
  | arrived =>
      exact ⟨Function.update_of_ne other _ _, rfl, rfl, Function.update_of_ne other _ _⟩
  | reaped => exact ⟨rfl, rfl, rfl, Function.update_of_ne other _ _⟩

/-- What holds of a worker does not depend on what threads and streams do. -/
theorem WorkerInv.undisturbed (inv : WorkerInv s w) (engine : EngineInv s.sys)
    (same : Undisturbed (s.sys.offer w) (s.sys.workers w) (s'.sys.workers w))
    (wires : s'.wires = s.wires) (submission : s'.submission = s.submission) : WorkerInv s' w := by
  refine ⟨?_, fun outside => ?_, fun pc fresh => ?_⟩
  · rw [same.commands, wires]
    exact inv.linked
  · rw [same.pc] at outside
    rw [submission]
    exact inv.idle outside
  · rw [same.pc] at pc
    rw [submission] at fresh
    obtain ⟨m, queue⟩ := engine.queues w
    rw [same.current queue (by rw [pc]; rfl)]
    exact inv.fresh pc fresh

theorem IoInv.start (futures : Nat → Future) (bytesRead : Nat → Int) (mem : Memory Space UInt8)
    (disk : Nat → Nat → UInt8) : IoInv (ioSetup n ι futures bytesRead mem disk) where
  engine := .start futures bytesRead
  workers _ := ⟨rfl, fun _ => rfl, fun pc => (by cases pc)⟩

variable [DecidableEq ι] [NeZero n] {l : IoLabel n ι}

/-- **The data path refines the engine**: every step is one of the engine's or leaves it
alone. -/
theorem IoInv.refines (inv : IoInv s) (step : (io d).step s l = some s') :
    s'.sys = s.sys ∨ ∃ l', (Engine.engine d.assumeAlignedOnly).step s.sys l' = some s'.sys := by
  cases l with
  | thread t act =>
      obtain ⟨sys, stepped, rfl⟩ := Option.map_eq_some_iff.mp step
      exact .inr ⟨.thread t act, stepped⟩
  | worker w c =>
      rcases (IoState.workerStep_effect step).refines (inv.workers w) with same | ⟨c', stepped⟩
      · exact .inl same
      · exact .inr ⟨.worker w c', stepped⟩
  | gpu j =>
      obtain ⟨sys, stepped, rfl⟩ := Option.map_eq_some_iff.mp step
      exact .inr ⟨.gpu j, stepped⟩
  | stop =>
      cases step
      exact .inr ⟨.stop, rfl⟩

/-- **Every step keeps the data path in order.** -/
theorem IoInv.step (inv : IoInv s) (step : (io d).step s l = some s') : IoInv s' := by
  have engine : EngineInv s'.sys := by
    rcases inv.refines step with same | ⟨l', stepped⟩
    · rw [same]
      exact inv.engine
    · exact inv.engine.step stepped
  refine ⟨engine, fun v => ?_⟩
  cases l with
  | thread t act =>
      obtain ⟨sys, stepped, rfl⟩ := Option.map_eq_some_iff.mp step
      have effect := System.threadStep_effect stepped
      exact (inv.workers v).undisturbed inv.engine (undisturbed_of_effect inv.engine effect v) rfl rfl
  | worker w c =>
      have effect := IoState.workerStep_effect step
      by_cases same : v = w
      · subst same
        exact effect.workerInv (inv.workers v)
      · obtain ⟨worker, wires, -, submission, -⟩ := effect.others (inv.workers w) same
        obtain ⟨linked, idle, fresh⟩ := inv.workers v
        exact ⟨by rw [worker, wires]; exact linked, by rw [worker, submission]; exact idle,
          by rw [worker, submission]; exact fresh⟩
  | gpu j =>
      obtain ⟨sys, stepped, rfl⟩ := Option.map_eq_some_iff.mp step
      have workers := (System.gpuStep_effect stepped).frame.2.2.1
      refine (inv.workers v).undisturbed inv.engine ?_ rfl rfl
      simp only [workers]
      exact .refl _ _
  | stop =>
      cases step
      exact (inv.workers v).undisturbed inv.engine (.refl _ _) rfl rfl

/-- **The data path is in order in every reachable state.** -/
theorem IoInv.run {labels : List (IoLabel n ι)} {futures : Nat → Future} {bytesRead : Nat → Int}
    {mem : Memory Space UInt8} {disk : Nat → Nat → UInt8}
    (ran : (io d).run labels (ioSetup n ι futures bytesRead mem disk) = some s) : IoInv s := by
  have keeps : ∀ (s : IoState n ι) l s', IoInv s → (io d).step s l = some s' → IoInv s' := by
    intro s l s' inv step
    exact inv.step step
  exact Machine.run_invariant_of_step keeps (.start futures bytesRead mem disk) ran

end OpenDS.DataPath
