import OpenDS.DataPath.Refinement
import OpenDS.Aisio.ReadTwin

/-!
# Bounce buffers

A slot keeps the bounce buffer that was once allocated for it, and no two slots of any
queue have the same one.
-/

set_option autoImplicit false

namespace OpenDS.DataPath

open OpenDS.Library (Machine Memory Ptr)
open OpenDS.Aisio OpenDS.Engine

variable {n : Nat} {ι : Type} {d : Driver} {s s' : IoState n ι} {w : Fin n}

/-- **Every slot has its own bounce buffer**, and the next allocation is no one's. -/
structure Buffers (s : IoState n ι) : Prop where
  host : ∀ w slot b, (s.ops w slot).bounceBuf = some b → ∃ k < s.allocated, b = hostBounceBuf k
  apart : ∀ w slot v slot' b, (s.ops w slot).bounceBuf = some b →
    (s.ops v slot').bounceBuf = some b → v = w ∧ slot' = slot

/-- The answer gives a read at most a fresh buffer, and only if it has none. -/
def Lends (fresh : Nat) (op op' : FileOp) : Prop :=
  op'.bounceBuf = op.bounceBuf ∨ op.bounceBuf = none ∧ op'.bounceBuf = some fresh

/-- What an allocation that is asked for lends. -/
theorem lent_alloc {op : FileOp} {fresh : Nat} {alloc : Bool} (mode : op.mode = .async) :
    (op.bounceBuf <|> op.lent (if alloc then some fresh else none)) = op.bounceBuf ∨
      op.bounceBuf = none ∧
        (op.bounceBuf <|> op.lent (if alloc then some fresh else none)) = some fresh := by
  unfold FileOp.lent
  rw [mode]
  cases held : op.bounceBuf with
  | some b => exact .inl rfl
  | none => cases alloc <;> simp

/-- What a read asks for when it enters a partial LBA. -/
theorem answer_enter {c : IoChoice} {sub : Submission} {op : FileOp} {fresh : Nat}
    {alloc : Option Nat} (answers : c.answer sub op fresh = some (.enter alloc)) :
    ∃ ok : Bool, alloc = op.lent (if ok then some fresh else none) := by
  cases c with
  | enter ok =>
      cases answers
      exact ⟨ok, rfl⟩
  | go =>
      simp only [IoChoice.answer] at answers
      split at answers <;> cases answers
  | _ => cases answers

/-- A worker is told of a completion by a poke only. -/
theorem answer_arrived {c : IoChoice} {sub : Submission} {op : FileOp} {fresh place : Nat} {ok : Bool} :
    c.answer sub op fresh ≠ some (.arrived place ok) := by
  intro answers
  cases c with
  | go =>
      simp only [IoChoice.answer] at answers
      split at answers <;> cases answers
  | _ => cases answers

/-- **An answer lends a read at most a fresh buffer.** -/
theorem told_lends {fresh : Nat} {sub : Submission} {c : IoChoice} {a : Answer} {st : ReadState}
    {task : ReadTask} {disk : Nat → Nat → UInt8} (answers : c.answer sub st.op fresh = some a)
    (effect : TaskEffect d disk ⟨st, some sub⟩ a task) : Lends fresh st.op task.st.op := by
  cases effect with
  | entered alloc absDst slba srcOff nbytes rest buf st' submitting entered =>
      obtain ⟨ok, rfl⟩ := answer_enter answers
      cases (enterPartial_ok entered).1 with
      | stream mode first empty => exact .inl rfl
      | host mode found =>
          have lent := @lent_alloc st.op fresh ok mode
          rw [found] at lent
          exact lent
  | barred alloc absDst slba srcOff nbytes rest st' submitting barred =>
      obtain ⟨ok, rfl⟩ := answer_enter answers
      obtain ⟨e, held, rfl, which⟩ := enterPartial_out barred
      rcases which with rfl | ⟨mode, rfl⟩
      · exact .inl rfl
      · exact lent_alloc mode
  | arrived place ok outstanding poking => exact absurd answers answer_arrived
  | taken item rest st' submitting takes =>
      cases item with
      | chunk slba nlb dst =>
          cases takes
          exact .inl rfl
      | bounceRead buf absDst slba srcOff nbytes =>
          cases takes
          exact .inl (by rw [describe_op])
      | _ => exact takes.elim
  | fails cells getExtents e outside => cases outside
  | planned cells getExtents items outside => cases outside
  | reaped ok outside => cases outside
  | _ => exact .inl rfl

/-- The plan of a read lends it nothing. -/
theorem begin_lends (fresh : Nat) (dev : Device) (st : ReadState) :
    Lends fresh st.op (ReadTask.begin d dev st).st.op := by
  unfold ReadTask.begin
  simp only
  split <;> exact .inl rfl

/-- What an answer has stored into the slots. -/
theorem proceed_ops (a : Answer) (task : ReadTask) (v : Fin n) (slot : Fin queueSize) :
    (s.proceed d w a task).ops v slot = if v = w ∧ slot = slotOf (s.sys.workers w).i then
        ⟨⟨task.st.op.size, task.st.op.fileOffset, task.st.op.bufOffset⟩, task.st.op.bounces,
          task.st.op.bounceBuf, task.st.issued⟩
      else s.ops v slot := by
  by_cases same : v = w
  · subst same
    by_cases here : slot = slotOf (s.sys.workers v).i
    · subst here
      simp [IoState.proceed, IoState.tell, IoState.storeData]
    · simp [IoState.proceed, IoState.tell, IoState.storeData, here]
  · simp [IoState.proceed, IoState.tell, IoState.storeData, same]

/-- **A fresh buffer is no one's until it is lent.** -/
theorem Buffers.proceed (buffers : Buffers s) (a : Answer) {op : FileOp} {task : ReadTask}
    (lends : Lends (hostBounceBuf s.allocated) op task.st.op)
    (held : op.bounceBuf = (s.ops w (slotOf (s.sys.workers w).i)).bounceBuf) :
    Buffers (s.proceed d w a task) := by
  -- The buffer of an operation is one it had, or a fresh one.
  have known : ∀ v slot b, ((s.proceed d w a task).ops v slot).bounceBuf = some b →
      (s.ops v slot).bounceBuf = some b ∨
        (v = w ∧ slot = slotOf (s.sys.workers w).i) ∧ b = hostBounceBuf s.allocated ∧
          task.st.op.bounceBuf = some (hostBounceBuf s.allocated) := by
    intro v slot b has
    rw [proceed_ops] at has
    split at has
    · rename_i here
      rcases lends with old | ⟨-, new⟩
      · left
        rw [here.1, here.2, ← held, ← old]
        exact has
      · exact .inr ⟨here, Option.some.inj (has.symm.trans new), new⟩
    · exact .inl has
  have unused : ∀ v slot, (s.ops v slot).bounceBuf ≠ some (hostBounceBuf s.allocated) := by
    intro v slot has
    obtain ⟨k, lt, same⟩ := buffers.host v slot _ has
    simp only [hostBounceBuf] at same
    omega
  have counted : s.allocated ≤ (s.proceed d w a task).allocated ∧
      (task.st.op.bounceBuf = some (hostBounceBuf s.allocated) →
        (s.proceed d w a task).allocated = s.allocated + 1) := by
    simp only [IoState.proceed]
    constructor
    · split <;> omega
    · intro new
      rw [if_pos new]
  refine ⟨fun v slot b has => ?_, fun v slot v' slot' b has has' => ?_⟩
  · rcases known v slot b has with old | ⟨-, rfl, new⟩
    · obtain ⟨k, lt, same⟩ := buffers.host v slot b old
      exact ⟨k, Nat.lt_of_lt_of_le lt counted.1, same⟩
    · exact ⟨s.allocated, by rw [counted.2 new]; exact Nat.lt_succ_self _, rfl⟩
  · rcases known v slot b has with old | ⟨⟨rfl, rfl⟩, rfl, -⟩ <;>
      rcases known v' slot' _ has' with old' | ⟨⟨rfl, rfl⟩, fresh, -⟩
    · exact buffers.apart v slot v' slot' b old old'
    · exact absurd (fresh ▸ old) (unused v slot)
    · exact absurd old' (unused v' slot')
    · exact ⟨rfl, rfl⟩

/-- A step of a worker keeps the buffers apart. -/
theorem Buffers.worker (buffers : Buffers s) (effect : IoEffect d s w s') : Buffers s' := by
  cases effect with
  | began cells getExtents pc fresh => exact buffers.proceed _ (begin_lends _ _ _) rfl
  | told sub c a task pc submitting answers step =>
      exact buffers.proceed a (told_lends answers (ReadTask.step_effect step)) rfl
  | _ => exact ⟨buffers.host, buffers.apart⟩

/-- **Every step keeps the buffers apart.** -/
theorem Buffers.step [DecidableEq ι] [NeZero n] {l : IoLabel n ι} (buffers : Buffers s)
    (step : (io d).step s l = some s') : Buffers s' := by
  cases l with
  | thread t act =>
      obtain ⟨sys, -, rfl⟩ := Option.map_eq_some_iff.mp step
      exact ⟨buffers.host, buffers.apart⟩
  | worker w c => exact buffers.worker (IoState.workerStep_effect step)
  | gpu j =>
      obtain ⟨sys, -, rfl⟩ := Option.map_eq_some_iff.mp step
      exact ⟨buffers.host, buffers.apart⟩
  | stop =>
      cases step
      exact ⟨buffers.host, buffers.apart⟩

theorem Buffers.start (futures : Nat → Future) (bytesRead : Nat → Int) (mem : Memory Space UInt8)
    (disk : Nat → Nat → UInt8) : Buffers (ioSetup n ι futures bytesRead mem disk) :=
  ⟨fun w slot b has => (by cases has), fun w slot v slot' b has => (by cases has)⟩

end OpenDS.DataPath
