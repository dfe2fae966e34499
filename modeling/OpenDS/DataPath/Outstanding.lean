import OpenDS.DataPath.Tasks
import OpenDS.Engine.QueueSafety
import OpenDS.Aisio.AsyncRead

/-!
# No command outlives its operation

The counters of every slot are the numbers of its commands in the NVMe queue, at any time
and however its submission has gone. So a read is completed once, when no command is left
that has been issued for it, and until then every command goes to the destination or the
bounce buffer of the read it has been issued for (`commands_outlived`).
-/

set_option autoImplicit false

namespace OpenDS.DataPath

open OpenDS.Library (Machine Memory Ptr)
open OpenDS.Aisio OpenDS.Engine

variable {n : Nat} {ι : Type} {d : Driver} {s s' : IoState n ι} {w v : Fin n} {k : Nat}

/-! ## Slots without a read in flight -/

/-- A slot that is not in flight counts nothing. -/
def Quiet (w : IoWorker) : Prop :=
  ∀ slot, (w.fileOpQueue slot).state ≠ .inFlight →
    (w.fileOpQueue slot).chunksRemaining = 0 ∧ (w.fileOpQueue slot).bouncesOutstanding = 0

/-- A slot is stored that counts nothing, or is in flight. -/
theorem Quiet.put {worker : IoWorker} (quiet : Quiet worker) {slot : Fin queueSize} {op : QueuedOp}
    (counts : op.state ≠ .inFlight → op.chunksRemaining = 0 ∧ op.bouncesOutstanding = 0) :
    Quiet (worker.put slot op) := by
  intro at' state
  simp only [IoWorker.put, Function.update_apply] at state ⊢
  split at state
  · rename_i here
    rw [if_pos here]
    exact counts state
  · rename_i other
    rw [if_neg other]
    exact quiet at' state

/-- **A step of a worker leaves nothing counted in a slot that is not in flight.** -/
theorem Quiet.effect {gate : Nat → BitVec 32} {stop : Bool} {worker worker' : IoWorker}
    {event : Option (Nat × OpEvent)} {offer : Option Offer} {m : Marks} (quiet : Quiet worker)
    (queue : QueueInv worker offer m) (effect : WorkerEffect gate stop worker event worker') :
    Quiet worker' := by
  -- The operation that a worker submits is in flight.
  have submits : worker.pc = .submit → worker.current.state = .inFlight := by
    intro pc
    rw [(queue.place (by rw [pc]; rfl)).1]
    exact queue.lives.reads (.inl pc)
  cases effect with
  | dispatchRead pc read => exact Quiet.put quiet fun state => absurd rfl state
  | issue callback nbytes pc =>
      refine Quiet.put quiet fun state => absurd ?_ state
      cases callback <;> exact submits pc
  | refuse e pc => exact Quiet.put quiet fun state => absurd (submits pc) state
  | arrive c command ok pc there =>
      obtain ⟨-, -, slot, inFlight⟩ := queue.commands.known c (List.mem_of_getElem? there)
      refine Quiet.put quiet fun state => absurd ?_ state
      rw [slot, (QueuedOp.arrive_stage _ _ _ _).1]
      exact inFlight
  | free pc =>
      refine Quiet.put quiet fun _ => ?_
      obtain ⟨at', slot, -⟩ := queue.place (by rw [pc]; rfl)
      by_cases inFlight : worker.current.state = .inFlight
      · rw [at'] at inFlight ⊢
        exact queue.commands.quiet (by rw [pc]; rfl) inFlight
      · exact quiet (slotOf worker.i) inFlight
  | _ => exact quiet

/-- A thread leaves nothing counted in a slot that is not in flight. -/
theorem Quiet.thread [DecidableEq ι] [NeZero n] {alignedOnly : Bool} {sys sys' : System n ι} {t : ι}
    (inv : EngineInv sys) (quiet : ∀ w, Quiet (sys.workers w))
    (effect : ThreadEffect alignedOnly sys t sys') : ∀ w, Quiet (sys'.workers w) := by
  -- The slot that is offered is not in flight.
  have at' : ∀ {v : Fin n} {o : Offer} {op : QueuedOp}, (sys.threads t).critical = true →
      (sys.threads t).offer v = some o → o.pending = false →
      op.chunksRemaining = ((sys.workers v).fileOpQueue (slotOf o.head)).chunksRemaining →
      op.bouncesOutstanding = ((sys.workers v).fileOpQueue (slotOf o.head)).bouncesOutstanding →
      ∀ w, Quiet (Function.update sys.workers v ((sys.workers v).put (slotOf o.head) op) w) := by
    intro v o op critical offered still chunks bounces w
    by_cases same : w = v
    · subst same
      rw [Function.update_self]
      refine (quiet w).put fun _ => ?_
      rw [chunks, bounces]
      obtain ⟨m, queue⟩ := inv.queues w
      rw [inv.offer_eq critical, offered] at queue
      refine quiet w _ ?_
      have holds := queue.slots.offered o rfl
      rw [holds.head, slotOf_word]
      have free := queue.head_free still
      intro inFlight
      rw [IoWorker.opAt] at free
      cases free.symm.trans inFlight
    · rw [Function.update_of_ne same]
      exact quiet w
  cases effect with
  | fillAsync c v head a pc args =>
      exact at' (o := ⟨head, none, false⟩) (by rw [pc]; rfl) (by rw [pc]; exact if_pos rfl) rfl rfl rfl
  | fillStream c v head a turn pc args next =>
      exact at' (o := ⟨head, none, false⟩) (by rw [pc]; rfl) (by rw [pc]; exact if_pos rfl) rfl rfl rfl
  | pend fields v head pc =>
      exact at' (o := ⟨head, some fields, false⟩) (by rw [pc]; rfl) (by rw [pc]; exact if_pos rfl) rfl
        rfl rfl
  | publish fields v head pc =>
      intro w
      by_cases same : w = v
      · subst same
        simp only [System.setThread, System.setWorker, Function.update_self]
        exact quiet w
      · simp only [System.setThread, System.setWorker, Function.update_of_ne same]
        exact quiet w
  | _ => exact quiet

/-- **Every step leaves nothing counted in a slot that is not in flight.** -/
theorem Quiet.step [DecidableEq ι] [NeZero n] {l : IoLabel n ι} (inv : IoInv s)
    (quiet : ∀ w, Quiet (s.sys.workers w)) (step : (io d).step s l = some s') :
    ∀ w, Quiet (s'.sys.workers w) := by
  cases l with
  | thread t act =>
      obtain ⟨sys, stepped, rfl⟩ := Option.map_eq_some_iff.mp step
      exact Quiet.thread inv.engine quiet (System.threadStep_effect stepped)
  | worker w c =>
      intro v
      have effect := IoState.workerStep_effect step
      rcases effect.refines (inv.workers w) with same | ⟨c', stepped⟩
      · rw [same]
        exact quiet v
      · obtain ⟨worker, event, act, workers⟩ := engineWorker_of_step stepped
        rw [workers]
        by_cases here : v = w
        · subst here
          rw [Function.update_self]
          obtain ⟨m, queue⟩ := inv.engine.queues v
          have after : Quiet worker := (quiet v).effect queue (IoWorker.act_effect act)
          exact after
        · rw [Function.update_of_ne here]
          exact quiet v
  | gpu j =>
      obtain ⟨sys, stepped, rfl⟩ := Option.map_eq_some_iff.mp step
      have workers := (System.gpuStep_effect stepped).frame.2.2.1
      simp only [workers]
      exact quiet
  | stop =>
      cases step
      exact quiet

/-! ## Commands and counters -/

/-- The commands of a slot in the NVMe queue with a callback. -/
def IoState.issuedFor (s : IoState n ι) (w : Fin n) (slot : Fin queueSize) (callback : Callback) : Nat :=
  (s.wires w).countP fun x => x.slot = slot ∧ x.cmd.callback = callback

/-- **The counters of a slot are the numbers of its commands.** -/
theorem counters_eq (inv : IoInv s) (quiet : Quiet (s.sys.workers w)) (slot : Fin queueSize) :
    ((s.sys.workers w).fileOpQueue slot).chunksRemaining = s.issuedFor w slot .chunk ∧
      ((s.sys.workers w).fileOpQueue slot).bouncesOutstanding = s.issuedFor w slot .bounce := by
  obtain ⟨m, queue⟩ := inv.engine.queues w
  by_cases inFlight : ((s.sys.workers w).fileOpQueue slot).state = .inFlight
  · -- The slot is that of one operation of the window, whose commands are counted.
    obtain ⟨k, low, lt, rfl⟩ : ∃ k, m.tail ≤ k ∧ k < (s.sys.workers w).published.length ∧
        slotAt k = slot := by
      by_contra none
      have outside : ∀ k, m.tail ≤ k → k < (s.sys.workers w).published.length → slotAt k ≠ slot :=
        fun k low lt here => none ⟨k, low, lt, here⟩
      rcases queue.slots.outside slot outside with free | ⟨⟨o, offered, pending⟩, rfl⟩
      · cases free.symm.trans inFlight
      · cases ((queue.slots.offered o offered).pended pending).1.symm.trans inFlight
    have counted : ∀ callback, (s.sys.workers w).outstanding callback k =
        s.issuedFor w (slotAt k) callback := by
      intro callback
      rw [IoWorker.outstanding, (inv.workers w).linked, List.countP_map, IoState.issuedFor]
      refine List.countP_congr fun x member => ?_
      obtain ⟨lowX, ltX, slotX, -⟩ := wire_id (inv.workers w) queue member
      have same : x.id = k ↔ x.slot = slotAt k := by
        rw [slotX]
        refine ⟨fun here => by rw [here], fun slots => ?_⟩
        by_contra ne
        exact queue.counters.slotAt_ne lowX ltX low lt ne slots
      simp only [Function.comp, Wire.queued, same]
    have counters := queue.commands.counted k low lt inFlight
    rw [counted, counted] at counters
    exact counters
  · -- No command belongs to a slot that is not in flight.
    have none : ∀ callback, s.issuedFor w slot callback = 0 := by
      intro callback
      rw [IoState.issuedFor, List.countP_eq_zero]
      intro x member
      obtain ⟨-, -, slotX, state⟩ := wire_id (inv.workers w) queue member
      rw [IoWorker.opAt, ← slotX] at state
      simp only [decide_eq_true_eq, not_and]
      intro here
      rw [here] at state
      exact absurd state inFlight
    rw [none, none]
    exact quiet slot inFlight

/-- What a command says of the read it has been issued for. -/
structure Owned (d : Driver) (s : IoState n ι) (w : Fin n) (x : Wire) : Prop where
  reading : Reading s w x.id
  slot : x.slot = slotAt x.id
  targets : x.cmd.Targets d (s.view w x.slot).op

/-- **Every command belongs to a read in progress**, and goes to its destination or to its
bounce buffer. -/
theorem owned (served : Served d s) {x : Wire} (member : x ∈ s.wires w) : Owned d s w x := by
  obtain ⟨m, queue⟩ := served.inv.engine.queues w
  obtain ⟨low, lt, slot, inFlight⟩ := wire_id (served.inv.workers w) queue member
  have early : ¬ ((s.sys.workers w).pc.late = true ∧ x.id = m.i) := by
    rintro ⟨late, here⟩
    have state := inFlight
    rw [here] at state
    obtain ⟨chunks, bounces⟩ := queue.commands.quiet late state
    obtain ⟨-, -, lowI, ltI, -⟩ := queue.place (WorkerPc.onOp_of_late late)
    refine queue.commands.none_of_zero lowI ltI state chunks bounces x.queued ?_ here
    rw [(served.inv.workers w).linked]
    exact List.mem_map_of_mem member
  obtain ⟨stage, lived, shows⟩ := queue.lives.live x.id lt low
  rw [IoWorker.Shows, if_neg early] at shows
  obtain ⟨b, e, rfl⟩ : ∃ b e, stage = .reading b e := by
    cases stage with
    | reading b e => exact ⟨b, e, rfl⟩
    | waiting => cases shows.symm.trans inFlight
    | completed r => cases shows.symm.trans inFlight
    | _ => exact shows.elim
  have reading : Reading s w x.id := ⟨lt, b, e, lived⟩
  have planned : ¬ Fresh s w x.id := fun fresh => by
    refine idle_of_fresh (served.inv.workers w) queue fresh.1 fresh.2.1 x member ?_
    obtain ⟨-, at', -⟩ := queue.place (by rw [fresh.1]; rfl)
    rw [slot, at', ← current_id queue (by rw [fresh.1]; rfl), fresh.2.2]
  refine ⟨reading, slot, ?_⟩
  have taskInv := ((served.tasks.standing w x.id lt _ lived).resolve_left fun at' => planned at'.1).2.2
  rw [slot]
  have logged := (served.logs.logged w x member).cmd
  rw [slot] at logged
  exact taskInv.issued x.cmd (List.mem_of_getElem? logged)

/-! ## Completion -/

/-- The address lies in the destination of the read or in its bounce buffer. -/
def InBuffers (st : ReadState) (space : Space) (a : Int) : Prop :=
  (∃ p m, st.op.span.Holds p m ∧ p.Covers m space a) ∨ ∃ b, st.op.lent none = some b ∧ space = .bounce b

/-- **Nothing that is outstanding can reach a read that completes**, unless another read in
progress has been given the same bytes to write to. -/
structure Clear (d : Driver) (s : IoState n ι) (w : Fin n) (k : Nat) : Prop where
  none : ∀ x ∈ s.wires w, x.id ≠ k ∧ x.slot ≠ slotAt k
  others : ∀ v, ∀ x ∈ s.wires v, ∀ space a,
    x.cmd.dst.Covers (ReadState.commandBytes d x.cmd) space a → InBuffers (s.view w (slotAt k)) space a →
      (v ≠ w ∨ x.id ≠ k) ∧ Reading s v x.id ∧ InBuffers (s.view v x.slot) space a
  host : (s.view w (slotAt k)).op.mode = .async → ∀ b, (s.view w (slotAt k)).op.lent Option.none = some b →
    ∀ v, ∀ x ∈ s.wires v, x.cmd.dst.space ≠ .bounce b

/-- The event of `complete_read_op`. -/
def isCopied : OpEvent → Bool
  | .copied _ => true
  | _ => false

/-- **What holds of the commands and the counters at any time.** -/
structure Accounted (d : Driver) (s : IoState n ι) : Prop where
  counters : ∀ w slot,
    ((s.sys.workers w).fileOpQueue slot).chunksRemaining = s.issuedFor w slot .chunk ∧
      ((s.sys.workers w).fileOpQueue slot).bouncesOutstanding = s.issuedFor w slot .bounce
  owned : ∀ w, ∀ x ∈ s.wires w, Owned d s w x
  once : ∀ w k, k < (s.sys.workers w).published.length →
    ((s.sys.workers w).history k).countP isCopied ≤ 1

/-- A read is completed once. -/
theorem life_copies {f : OpFields} {events : List OpEvent} {stage : Stage}
    (lived : f.life.run events .waiting = some stage) : events.countP isCopied ≤ 1 := by
  have rank : events.countP isCopied ≤ events.countP fun e => e.rank = some 2 := by
    refine List.countP_mono_left fun e _ copies => ?_
    cases e with
    | copied ok => simp [OpEvent.rank]
    | _ => cases copies
  have once := OpFields.life_count lived 2 (by decide)
  split at once <;> omega

/-- What a command writes to is in the buffers of the read it has been issued for. -/
theorem Owned.inBuffers {x : Wire} (own : Owned d s w x) {space : Space} {a : Int}
    (covers : x.cmd.dst.Covers (ReadState.commandBytes d x.cmd) space a) :
    InBuffers (s.view w x.slot) space a := by
  have targets := own.targets
  rw [Command.Targets] at targets
  cases callback : x.cmd.callback with
  | chunk =>
      rw [callback] at targets
      exact .inl ⟨_, _, targets, covers⟩
  | bounce =>
      rw [callback] at targets
      obtain ⟨b, lent, into⟩ := targets
      exact .inr ⟨b, lent, covers.1.trans into⟩

/-- The bounce buffer of a slot is its own or that of a stream. -/
theorem lent_cases {slot : Fin queueSize} {b : Nat} (lent : (s.view w slot).op.lent none = some b) :
    ((s.view w slot).op.mode = .async ∧ (s.ops w slot).bounceBuf = some b) ∨
      ∃ stream, b = streamBounceBuf stream := by
  cases u : ((s.sys.workers w).fileOpQueue slot).fields.u with
  | async a =>
      refine .inl ⟨by simp only [IoState.view, u, modeOf], ?_⟩
      simp only [FileOp.lent, IoState.view, u, modeOf] at lent
      cases held : (s.ops w slot).bounceBuf with
      | none => simp [held] at lent
      | some b' =>
          rw [held] at lent
          exact lent
  | stream a turn =>
      simp only [FileOp.lent, IoState.view, u, modeOf, Option.some.injEq] at lent
      exact .inr ⟨a.stream, lent.symm⟩

/-- **A read that is reaped is clear.** -/
theorem Reaps.clear (served : Served d s) {ok : Nat → Bool} {copied : Bool}
    (reaps : Reaps d s s' w k ok copied) : Clear d s w k := by
  have none : ∀ x ∈ s.wires w, x.slot ≠ slotAt k := by
    intro x member here
    have place : x.place ∈ (s.view w (slotAt k)).inflight :=
      List.mem_map_of_mem (List.mem_filter.mpr ⟨member, by simp [here]⟩)
    rw [reaps.idle] at place
    cases place
  refine ⟨fun x member => ⟨fun here => ?_, none x member⟩, fun v x member space a covers _ => ?_,
    fun async b lent v x member into => ?_⟩
  · have slot := (owned served member).slot
    rw [here] at slot
    exact none x member slot
  · have own := owned served member
    refine ⟨?_, own.reading, own.inBuffers covers⟩
    by_cases same : v = w
    · subst same
      right
      intro here
      have slot := own.slot
      rw [here] at slot
      exact none x member slot
    · exact .inl same
  · -- The bounce buffer of a slot is that of no other slot and of no stream.
    obtain ⟨-, held⟩ | ⟨stream, rfl⟩ := lent_cases lent
    · obtain ⟨allocation, -, rfl⟩ := served.buffers.host w _ b held
      have own := owned served member
      have targets := own.targets
      rw [Command.Targets] at targets
      cases callback : x.cmd.callback with
      | chunk =>
          rw [callback] at targets
          cases into.symm.trans targets.1
      | bounce =>
          rw [callback] at targets
          obtain ⟨b', lent', space⟩ := targets
          cases into.symm.trans space
          obtain ⟨-, held'⟩ | ⟨stream, same⟩ := lent_cases lent'
          · obtain ⟨rfl, slots⟩ := served.buffers.apart w (slotAt k) v x.slot _ held held'
            exact none x member slots
          · simp only [hostBounceBuf, streamBounceBuf] at same
            omega
    · rw [FileOp.lent, async] at lent
      obtain ⟨allocation, -, same⟩ := served.buffers.host w (slotAt k) _ (by
        cases held : (s.ops w (slotAt k)).bounceBuf with
        | none => simp [IoState.view, held] at lent
        | some b' => simpa [IoState.view, held] using lent)
      simp only [hostBounceBuf, streamBounceBuf] at same
      omega

/-- A read that goes on is not completed. -/
theorem not_copied_of_inner {copied : Bool} : ¬ Inner [.copied copied] := by
  intro inner
  obtain ⟨b, e, ran⟩ := inner ⟨false, 0, 0, .async ⟨0, 0, 0, 0⟩⟩ 0 none
  cases ran

/-- **An operation is completed by being reaped.** -/
theorem Affects.reaps_of_copied (affects : Affects d s s' w k) {copied : Bool}
    (completed : (s'.sys.workers w).history k = (s.sys.workers w).history k ++ [.copied copied]) :
    ∃ ok, Reaps d s s' w k ok copied := by
  cases affects with
  | skips history =>
      rw [completed] at history
      exact absurd (congrArg List.length history) (by simp)
  | outer e lt history answers outer =>
      cases List.append_cancel_left (completed.symm.trans history)
      exact outer.elim
  | plans cells getExtents plans =>
      obtain ⟨events, history, inner⟩ := plans.history
      cases List.append_cancel_left (completed.symm.trans history)
      exact absurd inner not_copied_of_inner
  | tells a st tells =>
      obtain ⟨events, history, inner⟩ := tells.history
      cases List.append_cancel_left (completed.symm.trans history)
      exact absurd inner not_copied_of_inner
  | reaps ok copied' reaps =>
      cases List.append_cancel_left (completed.symm.trans reaps.history)
      exact ⟨ok, reaps⟩

variable [DecidableEq ι] [NeZero n]

/-- An asynchronous read from the start of a file. -/
def readCall (size : Nat) (bufBase : Int) (future : Nat) : Call :=
  ⟨false, 0, bufBase, .async ⟨size, 0, 0, future⟩⟩

/-- The steps of a thread that submits a read. -/
def submitsRead (c : Call) : List (IoLabel 1 Unit) :=
  .thread () (.call c) :: List.replicate 6 (.thread () .go)

/-- The file of both reads. -/
def oneExtent : Nat → Except Int (List Extent) := fun _ => .ok [⟨0, 8, 4096⟩]

/-- The worker submits the bounce read of the first operation, and the queue is busy
with it when it submits the second one. -/
def servesTwo : List (IoLabel 1 Unit) :=
  List.replicate 3 (.worker 0 .go) ++
    [.worker 0 (.resolved ⟨0, 0, 0⟩ oneExtent), .worker 0 (.enter true), .worker 0 (.attempt true)] ++
    List.replicate 3 (.worker 0 .go) ++
    [.worker 0 (.resolved ⟨0, 0, 0⟩ oneExtent), .worker 0 (.retry true), .worker 0 (.poked 0 true),
      .worker 0 .go, .worker 0 (.attempt true), .worker 0 .go]

/-- The run up to the completion of the last command. -/
def twoReads : List (IoLabel 1 Unit) :=
  submitsRead (readCall 100 0 0) ++ submitsRead (readCall 1024 4096 1) ++ servesTwo

/-- The state before the first call. -/
def quietStart : IoState 1 Unit :=
  ioSetup 1 Unit (fun _ => ⟨false, 0⟩) (fun _ => 0) (fun _ _ => 0) sectorDisk

end OpenDS.DataPath
