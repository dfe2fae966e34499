import OpenDS.Engine.Op

/-!
# The I/O workers of `opends_aisio.c`

`struct io_worker` and the steps of its thread, `io_thread_main`. A step is one load
or store of something that another thread sees, with the code of the worker around
it. What the worker cannot decide is an argument of its step: the commands that
`start_read_op` issues, the commands that a poke completes, and the results of
`pwrite_op` and of the copies out of the bounce buffer.

A worker reads the gate words of the streams and the stop flag, and otherwise its
own queue. What a step does to an operation is an event.
-/

set_option autoImplicit false

namespace OpenDS.Engine

open OpenDS.Library OpenDS.Aisio

/-- `FILE_OP_QUEUE_SIZE`. -/
def queueSize : Nat := 1024

theorem slot_lt (i : BitVec 32) : (i &&& BitVec.ofNat 32 (queueSize - 1)).toNat < queueSize := by
  rw [BitVec.toNat_and]
  exact Nat.lt_of_le_of_lt Nat.and_le_right (by decide)

/-- `i & FILE_OP_QUEUE_MASK`. -/
def slotOf (i : BitVec 32) : Fin queueSize := ⟨(i &&& BitVec.ofNat 32 (queueSize - 1)).toNat, slot_lt i⟩

/-- `struct file_op` in a queue. `id` is no field of the source: it is the place of
the operation among those published to the queue, and no step depends on it. -/
structure QueuedOp where
  state : FileOpState
  fields : OpFields
  chunksRemaining : Int
  bouncesOutstanding : Int
  bytesAcc : Nat
  err : Option OpError
  id : Nat
  deriving DecidableEq, Repr

/-- A command of the worker's NVMe queue: the slot its callback is given, and what
it moves. `id` is that of the operation that issued it, and no step depends on it. -/
structure QueuedCommand where
  slot : Fin queueSize
  callback : Callback
  nbytes : Nat
  id : Nat
  deriving DecidableEq, Repr

/-- Where `io_thread_main` stands. -/
inductive WorkerPc where
  /-- Before the load of `queue_head`. -/
  | load
  /-- At the head of the scan. -/
  | scan
  /-- In `poll_stream_pending`. -/
  | poll
  /-- In `dispatch_pending`. -/
  | dispatch
  /-- In `start_read_op`. -/
  | submit
  /-- In `pwrite_op`. -/
  | pwrite
  /-- In `reap_in_flight`. -/
  | reap
  /-- Before the store of the result. -/
  | result (n : Int)
  /-- Before the store to the future's `done` or to the gate. -/
  | release (n : Int)
  /-- Before the store of `FILE_OP_FREE`. -/
  | free
  /-- At the head of the loop that advances `queue_tail`. -/
  | advance
  /-- Before the load of `stop`. -/
  | stopCheck
  /-- In `xnvme_queue_poke` at the end of an iteration. -/
  | poke
  /-- Out of the loop. -/
  | exited
  deriving DecidableEq, Repr

/-- `struct io_worker` with the locals of its thread. `published` and `log` are the
history of the queue: what was published to it, and what happened to each operation
since. No step depends on them. -/
structure IoWorker where
  fileOpQueue : Fin queueSize → QueuedOp
  queueHead : BitVec 32
  queueTail : BitVec 32
  commands : List QueuedCommand
  pc : WorkerPc
  head : BitVec 32
  i : BitVec 32
  busy : Bool
  published : List OpFields
  log : List (Nat × OpEvent)

/-- What the environment decides in a step. -/
inductive Choice where
  | go
  | issue (callback : Callback) (nbytes : Nat)
  | refuse (e : OpError)
  | poked (command : Nat) (ok : Bool)
  | wrote (ret : Int)
  | copies (ok : Bool)
  deriving DecidableEq, Repr

/-- The stream gate of an operation has not opened: `(int32_t)(gate - 2 * seq) < 0`. -/
def gated (gate : BitVec 32) (turn : Nat) : Bool :=
  decide ((gate - 2#32 * word 32 turn).toInt < 0)

namespace QueuedOp

/-- The operation past `dispatch_pending` of a read. -/
def start (op : QueuedOp) : QueuedOp :=
  { op with
    state := .inFlight
    chunksRemaining := 0
    bouncesOutstanding := 0
    bytesAcc := 0
    err := none }

/-- `submit_read_middle` or `submit_bounce_read` past a command the queue has taken. -/
def issue (callback : Callback) (nbytes : Nat) (op : QueuedOp) : QueuedOp :=
  match callback with
  | .chunk => { op with chunksRemaining := op.chunksRemaining + 1 }
  | .bounce =>
    { op with
      bouncesOutstanding := op.bouncesOutstanding + 1
      bytesAcc := op.bytesAcc + nbytes }

/-- `chunk_cb`. -/
def chunkCb (nbytes : Nat) (ok : Bool) (op : QueuedOp) : QueuedOp :=
  let op := if ok then { op with bytesAcc := op.bytesAcc + nbytes }
    else { op with err := some .deviceDriverError }
  { op with chunksRemaining := op.chunksRemaining - 1 }

/-- `bounce_cb`. -/
def bounceCb (ok : Bool) (op : QueuedOp) : QueuedOp :=
  let op := if !ok && op.err.isNone then { op with err := some .deviceDriverError } else op
  { op with bouncesOutstanding := op.bouncesOutstanding - 1 }

/-- The callback of a command. -/
def arrive (callback : Callback) (nbytes : Nat) (ok : Bool) (op : QueuedOp) : QueuedOp :=
  match callback with
  | .chunk => chunkCb nbytes ok op
  | .bounce => bounceCb ok op

end QueuedOp

namespace IoWorker

/-- The operation the scan stands at. -/
def current (w : IoWorker) : QueuedOp := w.fileOpQueue (slotOf w.i)

/-- Store an operation. -/
def put (w : IoWorker) (slot : Fin queueSize) (op : QueuedOp) : IoWorker :=
  { w with fileOpQueue := Function.update w.fileOpQueue slot op }

/-- The scan goes on. -/
def next (w : IoWorker) : IoWorker := { w with pc := .scan, i := w.i + 1#32 }

/-- A poke completes an outstanding command. -/
def arrive (w : IoWorker) (command : Nat) (ok : Bool) :
    Option (IoWorker × Option (Nat × OpEvent)) :=
  (w.commands[command]?).map fun c =>
    (({ w with commands := w.commands.eraseIdx command } : IoWorker).put c.slot
      ((w.fileOpQueue c.slot).arrive c.callback c.nbytes ok),
      some (c.id, .arrived c.callback c.nbytes ok))

/-- One step of `io_thread_main`, with what it does to an operation. -/
def act (gate : Nat → BitVec 32) (stop : Bool) (w : IoWorker) (c : Choice) :
    Option (IoWorker × Option (Nat × OpEvent)) :=
  let op := w.current
  match w.pc, c with
  | .load, .go =>
    some ({ w with pc := .scan, head := w.queueHead, i := w.queueTail, busy := false }, none)
  | .scan, .go =>
    if w.i = w.head then some ({ w with pc := .advance }, none)
    else match op.state with
      | .free => some (w.next, none)
      | .pending => match op.fields.u with
        | .async _ => some ({ w with pc := .dispatch }, none)
        | .stream _ _ => some ({ w with pc := .poll }, none)
      | .inFlight => some ({ w with pc := .reap }, none)
  | .poll, .go => match op.fields.u with
    | .async _ => none
    | .stream a turn =>
      if gated (gate a.stream) turn then some ({ w.next with busy := true }, none)
      else some ({ w with pc := .dispatch }, none)
  | .dispatch, .go =>
    if op.fields.isWrite then some ({ w with pc := .pwrite }, some (op.id, .dispatched))
    else some (({ w with pc := .submit } : IoWorker).put (slotOf w.i) op.start,
      some (op.id, .dispatched))
  | .submit, .issue callback nbytes =>
    some (({ w with commands := w.commands ++ [⟨slotOf w.i, callback, nbytes, op.id⟩] } :
      IoWorker).put (slotOf w.i) (op.issue callback nbytes),
      some (op.id, .issued callback nbytes))
  | .submit, .poked command ok => w.arrive command ok
  | .submit, .refuse e =>
    some (w.next.put (slotOf w.i) { op with err := some e }, some (op.id, .refused e))
  | .submit, .go => some (w.next, none)
  | .pwrite, .wrote ret => some ({ w with pc := .result (writeResult ret) }, some (op.id, .wrote ret))
  | .reap, .copies ok =>
    if op.chunksRemaining = 0 ∧ op.bouncesOutstanding = 0 then
      some ({ w with pc := .result (op.fields.readResult op.bytesAcc op.err ok) },
        some (op.id, .copied ok))
    else some (w.next, none)
  | .result n, .go => some ({ w with pc := .release n }, some (op.id, .stored op.fields.target n))
  | .release n, .go => some ({ w with pc := .free }, some (op.id, .completed op.fields.target n))
  | .free, .go => some (w.next.put (slotOf w.i) { op with state := .free }, none)
  | .advance, .go =>
    if w.queueTail = w.head then some ({ w with pc := .stopCheck }, none)
    else if (w.fileOpQueue (slotOf w.queueTail)).state = .free then
      some ({ w with queueTail := w.queueTail + 1#32 }, none)
    else some ({ w with pc := .stopCheck, busy := true }, none)
  | .stopCheck, .go =>
    if stop && !w.busy then some ({ w with pc := .exited }, none)
    else if w.busy then some ({ w with pc := .poke }, none)
    else some ({ w with pc := .load }, none)
  | .poke, .poked command ok => w.arrive command ok
  | .poke, .go => some ({ w with pc := .load }, none)
  | _, _ => none

end IoWorker

/-! ## What a step can do -/

/-- Where the scan turns to from an operation that it does not skip. -/
inductive Visits (op : QueuedOp) : WorkerPc → Prop where
  | dispatch (a : FileOpAsync) : op.state = .pending → op.fields.u = .async a → Visits op .dispatch
  | poll (a : FileOpStream) (turn : Nat) : op.state = .pending → op.fields.u = .stream a turn →
      Visits op .poll
  | reap : op.state = .inFlight → Visits op .reap

/-- The effects of the steps of a worker. -/
inductive WorkerEffect (gate : Nat → BitVec 32) (stop : Bool) (w : IoWorker) :
    Option (Nat × OpEvent) → IoWorker → Prop where
  | load : w.pc = .load → WorkerEffect gate stop w none
      { w with pc := .scan, head := w.queueHead, i := w.queueTail, busy := false }
  | scanned : w.pc = .scan → w.i = w.head → WorkerEffect gate stop w none { w with pc := .advance }
  | skip : w.pc = .scan → w.i ≠ w.head → w.current.state = .free →
      WorkerEffect gate stop w none w.next
  | visit (pc : WorkerPc) : w.pc = .scan → w.i ≠ w.head → Visits w.current pc →
      WorkerEffect gate stop w none { w with pc := pc }
  | gated (a : FileOpStream) (turn : Nat) : w.pc = .poll → w.current.fields.u = .stream a turn →
      gated (gate a.stream) turn = true → WorkerEffect gate stop w none { w.next with busy := true }
  | opened (a : FileOpStream) (turn : Nat) : w.pc = .poll → w.current.fields.u = .stream a turn →
      Engine.gated (gate a.stream) turn = false →
      WorkerEffect gate stop w none { w with pc := .dispatch }
  | dispatchWrite : w.pc = .dispatch → w.current.fields.isWrite = true →
      WorkerEffect gate stop w (some (w.current.id, .dispatched)) { w with pc := .pwrite }
  | dispatchRead : w.pc = .dispatch → w.current.fields.isWrite = false →
      WorkerEffect gate stop w (some (w.current.id, .dispatched))
        (({ w with pc := .submit } : IoWorker).put (slotOf w.i) w.current.start)
  | issue (callback : Callback) (nbytes : Nat) : w.pc = .submit →
      WorkerEffect gate stop w (some (w.current.id, .issued callback nbytes))
        (({ w with commands := w.commands ++ [⟨slotOf w.i, callback, nbytes, w.current.id⟩] } :
          IoWorker).put (slotOf w.i) (w.current.issue callback nbytes))
  | refuse (e : OpError) : w.pc = .submit →
      WorkerEffect gate stop w (some (w.current.id, .refused e))
        (w.next.put (slotOf w.i) { w.current with err := some e })
  | submitted : w.pc = .submit → WorkerEffect gate stop w none w.next
  | arrive (c : QueuedCommand) (command : Nat) (ok : Bool) : w.pc = .submit ∨ w.pc = .poke →
      w.commands[command]? = some c →
      WorkerEffect gate stop w (some (c.id, .arrived c.callback c.nbytes ok))
        (({ w with commands := w.commands.eraseIdx command } : IoWorker).put c.slot
          ((w.fileOpQueue c.slot).arrive c.callback c.nbytes ok))
  | wrote (ret : Int) : w.pc = .pwrite → WorkerEffect gate stop w (some (w.current.id, .wrote ret))
      { w with pc := .result (writeResult ret) }
  | notYet : w.pc = .reap → WorkerEffect gate stop w none w.next
  | copied (ok : Bool) : w.pc = .reap → w.current.chunksRemaining = 0 →
      w.current.bouncesOutstanding = 0 → WorkerEffect gate stop w (some (w.current.id, .copied ok))
      { w with pc := .result (w.current.fields.readResult w.current.bytesAcc w.current.err ok) }
  | store (n : Int) : w.pc = .result n →
      WorkerEffect gate stop w (some (w.current.id, .stored w.current.fields.target n))
      { w with pc := .release n }
  | complete (n : Int) : w.pc = .release n →
      WorkerEffect gate stop w (some (w.current.id, .completed w.current.fields.target n))
      { w with pc := .free }
  | free : w.pc = .free → WorkerEffect gate stop w none
      (w.next.put (slotOf w.i) { w.current with state := .free })
  | retired : w.pc = .advance → w.queueTail = w.head →
      WorkerEffect gate stop w none { w with pc := .stopCheck }
  | retire : w.pc = .advance → w.queueTail ≠ w.head →
      (w.fileOpQueue (slotOf w.queueTail)).state = .free →
      WorkerEffect gate stop w none { w with queueTail := w.queueTail + 1#32 }
  | stuck : w.pc = .advance → w.queueTail ≠ w.head →
      (w.fileOpQueue (slotOf w.queueTail)).state ≠ .free →
      WorkerEffect gate stop w none { w with pc := .stopCheck, busy := true }
  | exit : w.pc = .stopCheck → stop = true → w.busy = false →
      WorkerEffect gate stop w none { w with pc := .exited }
  | again (pc : WorkerPc) : w.pc = .stopCheck → pc = .poke ∨ pc = .load →
      WorkerEffect gate stop w none { w with pc := pc }
  | poked : w.pc = .poke → WorkerEffect gate stop w none { w with pc := .load }

theorem IoWorker.arrive_eq_some {w w' : IoWorker} {command : Nat} {ok : Bool}
    {event : Option (Nat × OpEvent)} (arrived : w.arrive command ok = some (w', event)) :
    ∃ c, w.commands[command]? = some c ∧ event = some (c.id, .arrived c.callback c.nbytes ok) ∧
      w' = ({ w with commands := w.commands.eraseIdx command } : IoWorker).put c.slot
        ((w.fileOpQueue c.slot).arrive c.callback c.nbytes ok) := by
  obtain ⟨c, there, out⟩ := Option.map_eq_some_iff.mp arrived
  rw [Prod.mk.injEq] at out
  exact ⟨c, there, out.2.symm, out.1.symm⟩

/-- **Every step of a worker has one of the effects.** -/
theorem IoWorker.act_effect {gate : Nat → BitVec 32} {stop : Bool} {w w' : IoWorker} {c : Choice}
    {event : Option (Nat × OpEvent)} (step : w.act gate stop c = some (w', event)) :
    WorkerEffect gate stop w event w' := by
  have arrived : ∀ {command ok}, w.pc = .submit ∨ w.pc = .poke →
      w.arrive command ok = some (w', event) → WorkerEffect gate stop w event w' := by
    intro command ok pc arrived
    obtain ⟨c, there, rfl, rfl⟩ := w.arrive_eq_some arrived
    exact .arrive c command ok pc there
  cases pc : w.pc with
  | load =>
      cases c with
      | go =>
          simp only [act, pc] at step
          cases step
          exact .load pc
      | _ => simp only [act, pc, reduceCtorEq] at step
  | scan =>
      cases c with
      | go =>
          simp only [act, pc] at step
          split at step
          · rename_i last
            cases step
            exact .scanned pc last
          · rename_i more
            split at step
            · rename_i state
              cases step
              exact .skip pc more state
            · rename_i state
              split at step
              · rename_i args
                cases step
                exact .visit _ pc more (.dispatch _ state args)
              · rename_i args
                cases step
                exact .visit _ pc more (.poll _ _ state args)
            · rename_i state
              cases step
              exact .visit _ pc more (.reap state)
      | _ => simp only [act, pc, reduceCtorEq] at step
  | poll =>
      cases c with
      | go =>
          simp only [act, pc] at step
          split at step
          · cases step
          · rename_i args
            split at step
            · rename_i closed
              cases step
              exact .gated _ _ pc args closed
            · rename_i closed
              cases step
              exact .opened _ _ pc args (Bool.not_eq_true _ ▸ closed)
      | _ => simp only [act, pc, reduceCtorEq] at step
  | dispatch =>
      cases c with
      | go =>
          simp only [act, pc] at step
          split at step
          · rename_i write
            cases step
            exact .dispatchWrite pc write
          · rename_i read
            cases step
            exact .dispatchRead pc (Bool.not_eq_true _ ▸ read)
      | _ => simp only [act, pc, reduceCtorEq] at step
  | submit =>
      cases c with
      | go =>
          simp only [act, pc] at step
          cases step
          exact .submitted pc
      | issue callback nbytes =>
          simp only [act, pc] at step
          cases step
          simpa only [pc] using WorkerEffect.issue callback nbytes pc
      | refuse e =>
          simp only [act, pc] at step
          cases step
          exact .refuse e pc
      | poked command ok =>
          simp only [act, pc] at step
          exact arrived (.inl pc) step
      | _ => simp only [act, pc, reduceCtorEq] at step
  | pwrite =>
      cases c with
      | wrote ret =>
          simp only [act, pc] at step
          cases step
          exact .wrote ret pc
      | _ => simp only [act, pc, reduceCtorEq] at step
  | reap =>
      cases c with
      | copies ok =>
          simp only [act, pc] at step
          split at step
          · rename_i all
            cases step
            exact .copied ok pc all.1 all.2
          · cases step
            exact .notYet pc
      | _ => simp only [act, pc, reduceCtorEq] at step
  | result n =>
      cases c with
      | go =>
          simp only [act, pc] at step
          cases step
          exact .store n pc
      | _ => simp only [act, pc, reduceCtorEq] at step
  | release n =>
      cases c with
      | go =>
          simp only [act, pc] at step
          cases step
          exact .complete n pc
      | _ => simp only [act, pc, reduceCtorEq] at step
  | free =>
      cases c with
      | go =>
          simp only [act, pc] at step
          cases step
          exact .free pc
      | _ => simp only [act, pc, reduceCtorEq] at step
  | advance =>
      cases c with
      | go =>
          simp only [act, pc] at step
          split at step
          · rename_i last
            cases step
            exact .retired pc last
          · rename_i more
            split at step
            · rename_i state
              cases step
              simpa only [pc] using WorkerEffect.retire pc more state
            · rename_i state
              cases step
              exact .stuck pc more state
      | _ => simp only [act, pc, reduceCtorEq] at step
  | stopCheck =>
      cases c with
      | go =>
          simp only [act, pc] at step
          split at step
          · rename_i out
            cases step
            simp only [Bool.and_eq_true, Bool.not_eq_true'] at out
            exact .exit pc out.1 out.2
          · split at step
            · cases step
              exact .again _ pc (.inl rfl)
            · cases step
              exact .again _ pc (.inr rfl)
      | _ => simp only [act, pc, reduceCtorEq] at step
  | poke =>
      cases c with
      | go =>
          simp only [act, pc] at step
          cases step
          exact .poked pc
      | poked command ok =>
          simp only [act, pc] at step
          exact arrived (.inr pc) step
      | _ => simp only [act, pc, reduceCtorEq] at step
  | exited => cases c <;> simp only [act, pc, reduceCtorEq] at step

end OpenDS.Engine
