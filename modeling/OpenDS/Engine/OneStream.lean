import OpenDS.Engine.CopiesDue

/-!
# One stream

When every operation is submitted to one stream, nothing is enqueued to another one and every
operation of every queue has a turn of it (`OneStream`). When one thread submits them, it owes
no copy when it enqueues a gate (`OneThread.gatesBehindCopies`).
-/

set_option autoImplicit false

namespace OpenDS.Engine

open OpenDS.Library OpenDS.Aisio

variable {n : Nat} {ι : Type} {s s' : System n ι} {j : Nat} {t : ι}

/-! ## One stream -/

/-- The call submits an operation to the stream. -/
def Call.OnStream (j : Nat) (c : Call) : Prop := ∃ a, c.u = .stream a ∧ a.stream = j

/-- The operation has a turn of the stream. -/
def OpFields.OnStream (j : Nat) (f : OpFields) : Prop := f.ticket.map Prod.fst = some j

/-- The thread submits an operation to the stream, if any. -/
def SubmitPc.OnStream (j : Nat) : SubmitPc n → Prop
  | .idle => True
  | .lock c => c.OnStream j
  | .claim c => c.OnStream j
  | .fill c _ _ => c.OnStream j
  | .gate fields _ _ => fields.OnStream j
  | .wait fields _ _ => fields.OnStream j
  | .pend fields _ _ => fields.OnStream j
  | .publish fields _ _ => fields.OnStream j
  | .unlock owed => ∀ i, owed = some i → i = j
  | .copy i => i = j

/-- The step submits nothing elsewhere. -/
def CallsOnStream (j : Nat) : Label n ι → Prop
  | .thread _ (.call c) => c.OnStream j
  | _ => True

/-- **Every operation is one of the stream.** -/
structure OneStream (s : System n ι) (j : Nat) : Prop where
  threads : ∀ t, (s.threads t).OnStream j
  published : ∀ w, ∀ f ∈ (s.workers w).published, f.OnStream j
  streams : ∀ i, i ≠ j → (s.streams i).commands = []

theorem OpFields.OnStream.ticket {f : OpFields} (on : f.OnStream j) : ∃ turn, f.ticket = some (j, turn) := by
  obtain ⟨⟨i, turn⟩, ticket, rfl⟩ := Option.map_eq_some_iff.mp on
  exact ⟨turn, ticket⟩

theorem OpFields.OnStream.stream_eq {f : OpFields} {a : FileOpStream} {turn : Nat} (on : f.OnStream j)
    (args : f.u = .stream a turn) : a.stream = j := by
  rw [OpFields.OnStream, ticket_eq args] at on
  exact Option.some.inj on

namespace OneStream

theorem start (futures : Nat → Future) (bytesRead : Nat → Int) :
    OneStream (setup n ι futures bytesRead) j :=
  ⟨fun _ => trivial, fun _ _ member => (by cases member), fun _ _ => rfl⟩

/-- An operation of the stream has a turn of it. -/
theorem hasTurn (one : OneStream s j) {w : Fin n} {k : Nat} {f : OpFields}
    (published : (s.workers w).published[k]? = some f) : ∃ turn, s.HasTurn j turn w k f := by
  obtain ⟨turn, ticket⟩ := (one.published w f (List.mem_of_getElem? published)).ticket
  exact ⟨turn, published, ticket⟩

section Threads

variable [DecidableEq ι]

/-- A thread goes on, and publishes nothing. -/
theorem goOn (one : OneStream s j) (pc : SubmitPc n) (threads : s'.threads = Function.update s.threads t pc)
    (published : ∀ w, (s'.workers w).published = (s.workers w).published)
    (streams : ∀ i, i ≠ j → (s'.streams i).commands = (s.streams i).commands) (on : pc.OnStream j) :
    OneStream s' j := by
  refine ⟨fun u => ?_, fun w f member => ?_, fun i other => ?_⟩
  · rw [threads]
    by_cases here : u = t
    · subst here
      rw [Function.update_self]
      exact on
    · rw [Function.update_of_ne here]
      exact one.threads u
  · rw [published] at member
    exact one.published w f member
  · rw [streams i other]
    exact one.streams i other

/-- **A thread that submits to the stream enqueues to it only.** -/
theorem thread [NeZero n] {alignedOnly : Bool} (one : OneStream s j) (inv : EngineInv s)
    (effect : ThreadEffect alignedOnly s t s')
    (calls : ∀ c, s.threads t = .idle → s'.threads t = .lock c → c.OnStream j) : OneStream s' j := by
  have mine := one.threads t
  have enqueued : ∀ {i : Nat} (c : StreamCommand n), i = j → ∀ i', i' ≠ j →
      ((s.enqueue i c).streams i').commands = (s.streams i').commands := by
    rintro i c rfl i' other
    exact (enqueue_commands s _ _ _).trans (if_neg other)
  cases effect with
  | callAsync c a pc args =>
      exact one.goOn (.lock c) rfl (fun _ => rfl) (fun _ _ => rfl) (calls c pc (System.setThread_self _ _ _))
  | callStream c pc =>
      exact one.goOn (.lock c) rfl (fun _ => rfl) (fun _ _ => rfl) (calls c pc (System.setThread_self _ _ _))
  | lock c pc free =>
      rw [pc] at mine
      exact one.goOn (.claim c) rfl (fun _ => rfl) (fun _ _ => rfl) mine
  | claim c pc room =>
      rw [pc] at mine
      exact one.goOn (.fill c _ _) rfl (fun _ => rfl) (fun _ _ => rfl) mine
  | full c pc =>
      rw [pc] at mine
      exact one.goOn (.lock c) rfl (fun _ => rfl) (fun _ _ => rfl) mine
  | fillAsync c v head a pc args =>
      rw [pc] at mine
      obtain ⟨a', args', -⟩ := mine
      cases args.symm.trans args'
  | fillStream c v head a turn pc args next =>
      rw [pc] at mine
      obtain ⟨a', args', on⟩ := mine
      cases args.symm.trans args'
      refine one.goOn (.gate _ v head) rfl (setWorker_published s rfl) (fun i other => ?_)
        (congrArg some on)
      exact setStream_commands s (by rfl) i
  | fails fields v head pc =>
      exact one.goOn (.unlock none) rfl (fun _ => rfl) (fun _ _ => rfl) fun i no => by cases no
  | park fields v head a turn pc args aligned =>
      rw [pc] at mine
      exact one.goOn (.pend fields v head) rfl (fun _ => rfl)
        (enqueued _ (OpFields.OnStream.stream_eq mine args)) mine
  | write fields v head a turn pc args aligned =>
      rw [pc] at mine
      exact one.goOn (.wait fields v head) rfl (fun _ => rfl)
        (enqueued _ (OpFields.OnStream.stream_eq mine args)) mine
  | wait fields v head a turn pc args =>
      rw [pc] at mine
      exact one.goOn (.pend fields v head) rfl (fun _ => rfl)
        (enqueued _ (OpFields.OnStream.stream_eq mine args)) mine
  | pend fields v head pc =>
      rw [pc] at mine
      exact one.goOn (.publish fields v head) rfl (setWorker_published s rfl) (fun _ _ => rfl) mine
  | publish fields v head pc =>
      rw [pc] at mine
      refine ⟨fun u => ?_, fun w f member => ?_, one.streams⟩
      · by_cases here : u = t
        · subst here
          rw [System.setThread_self]
          intro i copy
          obtain ⟨isWrite, h, bufBase, u⟩ := fields
          cases u with
          | async a => cases copy
          | stream a turn =>
              rw [copyOf] at copy
              simp only at copy
              split at copy
              · cases copy
                exact OpFields.OnStream.stream_eq mine rfl
              · cases copy
        · rw [System.setThread_of_ne _ here]
          exact one.threads u
      · have published : (((s.setWorker v ((s.workers v).publish head)).setThread t
            (.unlock (copyOf alignedOnly fields))).workers w).published = _ := inv.publish_eq pc rfl w
        rw [published] at member
        rcases List.mem_append.mp member with old | new
        · exact one.published w f old
        · split at new
          · rw [List.mem_singleton.mp new]
            exact mine
          · cases new
  | unlock copy pc' pc next =>
      rw [pc] at mine
      refine one.goOn pc' rfl (fun _ => rfl) (fun _ _ => rfl) ?_
      rcases next with rfl | ⟨i, same, rfl⟩
      · trivial
      · exact mine i same
  | copy i pc =>
      rw [pc] at mine
      exact one.goOn .idle rfl (fun _ => rfl) (enqueued _ mine) trivial
  | lost i pc => exact one.goOn .idle rfl (fun _ => rfl) (fun _ _ => rfl) trivial

/-- A thread that is idle begins the call of its label. -/
theorem call_of_idle [NeZero n] {alignedOnly : Bool} {act : ThreadAct} {c : Call}
    (idle : s.threads t = .idle) (step : s.threadStep alignedOnly t act = some s')
    (begins : s'.threads t = .lock c) : act = .call c := by
  cases act with
  | call c' =>
      simp only [System.threadStep, idle] at step
      split at step <;> cases step <;> rw [System.setThread_self] at begins <;> cases begins <;> rfl
  | _ => simp only [System.threadStep, idle, reduceCtorEq] at step

/-- **Every step that submits to the stream only keeps it the only one.** -/
theorem step [NeZero n] {l : Label n ι} (one : OneStream s j) (inv : EngineInv s)
    (order : CopyOrder s j) (calls : CallsOnStream j l) (step : (engine false).step s l = some s') :
    OneStream s' j := by
  cases l with
  | thread t act =>
      refine one.thread inv (System.threadStep_effect step) fun c idle begins => ?_
      have act := call_of_idle idle step begins
      subst act
      exact calls
  | worker w c =>
      obtain ⟨event, worker, -, rfl⟩ := System.workerStep_effect step
      obtain ⟨event', worker', -, -, frame⟩ := System.workerStep_frame step
      refine ⟨fun t => ?_, fun v f member => ?_, fun i other => ?_⟩
      · rw [frame.threads]
        exact one.threads t
      · rw [frame.published] at member
        exact one.published v f member
      · exact (apply_commands (s.setWorker w (worker.record event)) event i).trans (one.streams i other)
  | gpu i =>
      have effect := System.gpuStep_effect step
      obtain ⟨threads, -, workers, -⟩ := effect.frame
      refine ⟨fun t => threads ▸ one.threads t, fun v f member => one.published v f (workers ▸ member),
        fun i' other => ?_⟩
      by_cases here : i = j
      · subst here
        rcases effect.commands (j := i') (fun same => absurd same other) with same | ⟨same, -⟩
        · rw [same, one.streams i' other]
        · exact absurd same other
      · -- Nothing is enqueued to another stream.
        simp only [engine, System.gpuStep, one.streams i here, reduceCtorEq] at step
  | stop =>
      cases step
      exact ⟨one.threads, one.published, one.streams⟩

end Threads

end OneStream

/-! ## One thread -/

/-- The step is none of another thread that begins a call. -/
def CalledBy (t : ι) : Label n ι → Prop
  | .thread u (.call _) => u = t
  | _ => True

/-- **The other threads are idle.** -/
def OneThread (s : System n ι) (t : ι) : Prop := ∀ u, u ≠ t → s.threads u = .idle

theorem OneThread.start (futures : Nat → Future) (bytesRead : Nat → Int) :
    OneThread (setup n ι futures bytesRead) t := fun _ _ => rfl

theorem OneThread.step [DecidableEq ι] [NeZero n] {alignedOnly : Bool} {l : Label n ι}
    (one : OneThread s t) (called : CalledBy t l) (step : (engine alignedOnly).step s l = some s') :
    OneThread s' t := by
  intro u other
  cases l with
  | thread v act =>
      have step : s.threadStep alignedOnly v act = some s' := step
      by_cases here : u = v
      · subst here
        -- An idle thread begins a call.
        cases act with
        | call c => exact absurd called other
        | _ => simp only [System.threadStep, one u other, reduceCtorEq] at step
      · have threads : s'.threads u = s.threads u := by
          cases System.threadStep_effect step <;> exact Function.update_of_ne here _ _
        rw [threads]
        exact one u other
  | worker w c =>
      obtain ⟨event, worker, -, -, frame⟩ := System.workerStep_frame step
      rw [frame.threads]
      exact one u other
  | gpu i =>
      rw [(System.gpuStep_effect step).frame.1]
      exact one u other
  | stop =>
      cases step
      exact one u other

/-- **One thread enqueues its gates behind its copies.** -/
theorem OneThread.gatesBehindCopies {l : Label n ι} (one : OneThread s t) : GatesBehindCopies j s l := by
  cases l with
  | thread v act =>
      cases act with
      | accel ok =>
          cases ok with
          | true =>
              intro fields w head turn pc ticket u owes
              have here : v = t := by
                by_contra other
                cases pc.symm.trans (one v other)
              subst here
              by_cases same : u = v
              · subst same
                rw [pc] at owes
                rcases owes with no | no <;> cases no
              · rw [one u same] at owes
                rcases owes with no | no <;> cases no
          | false => trivial
      | _ => trivial
  | _ => trivial

end OpenDS.Engine
