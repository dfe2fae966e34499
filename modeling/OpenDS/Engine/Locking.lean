import OpenDS.Engine.Effects

/-!
# The submission lock

At most one thread is between the lock and the unlock of `submit_lock`. What it has
claimed is the only offer to a queue, so every queue of the engine is in order at any
time (`EngineInv`).
-/

set_option autoImplicit false

namespace OpenDS.Engine

open OpenDS.Library OpenDS.Aisio

variable {n : Nat} {ι : Type}

/-! ## What holds at any time -/

/-- The thread is between the lock and the unlock. -/
def SubmitPc.critical : SubmitPc n → Bool
  | .idle => false
  | .lock _ => false
  | .copy _ => false
  | _ => true

/-- What a thread has offered to a queue. -/
def SubmitPc.offer (pc : SubmitPc n) (w : Fin n) : Option Offer :=
  match pc with
  | .fill _ v head => if v = w then some ⟨head, none, false⟩ else none
  | .gate fields v head => if v = w then some ⟨head, some fields, false⟩ else none
  | .wait fields v head => if v = w then some ⟨head, some fields, false⟩ else none
  | .pend fields v head => if v = w then some ⟨head, some fields, false⟩ else none
  | .publish fields v head => if v = w then some ⟨head, some fields, true⟩ else none
  | _ => none

/-- What the holder of the lock has offered to a queue. -/
def System.offer (s : System n ι) (w : Fin n) : Option Offer :=
  s.submitLock.bind fun t => (s.threads t).offer w

/-- **What holds of the lock and the queues at any time.** -/
structure EngineInv (s : System n ι) : Prop where
  lock : ∀ t, (s.threads t).critical = true ↔ s.submitLock = some t
  queues : ∀ w, ∃ m, QueueInv (s.workers w) (s.offer w) m

variable {s s' : System n ι} {t : ι}

theorem EngineInv.holder (inv : EngineInv s) (critical : (s.threads t).critical = true) :
    s.submitLock = some t :=
  (inv.lock t).mp critical

theorem EngineInv.offer_eq (inv : EngineInv s) (critical : (s.threads t).critical = true)
    (w : Fin n) : s.offer w = (s.threads t).offer w := by
  rw [System.offer, inv.holder critical]
  rfl

/-- A queue that nothing is offered to. -/
theorem EngineInv.queue_none (inv : EngineInv s) (w : Fin n) (none : s.offer w = none) :
    ∃ m, QueueInv (s.workers w) Option.none m := by
  rw [← none]
  exact inv.queues w

section Steps

variable [DecidableEq ι]

/-- A thread that is not in the critical section goes on outside of it. -/
theorem EngineInv.outside (inv : EngineInv s) (pc : SubmitPc n)
    (threads : s'.threads = Function.update s.threads t pc)
    (before : (s.threads t).critical = false) (after : pc.critical = false)
    (lock : s'.submitLock = s.submitLock) (workers : s'.workers = s.workers) : EngineInv s' := by
  have other : ∀ t', s.submitLock = some t' → t' ≠ t := by
    rintro t' holds rfl
    rw [(inv.lock t').mpr holds] at before
    cases before
  refine ⟨fun t' => ?_, fun w => ?_⟩
  · rw [threads, lock]
    by_cases here : t' = t
    · subst here
      rw [Function.update_self, after]
      exact ⟨fun no => (by cases no), fun holds => absurd rfl (other t' holds)⟩
    · rw [Function.update_of_ne here]
      exact inv.lock t'
  · have offer : s'.offer w = s.offer w := by
      rw [System.offer, lock, threads, System.offer]
      cases holds : s.submitLock with
      | none => rfl
      | some t' => simp only [Option.bind_some, Function.update_of_ne (other t' holds)]
    rw [workers, offer]
    exact inv.queues w

/-- The holder of the lock goes on. -/
theorem EngineInv.inside (inv : EngineInv s) (pc : SubmitPc n)
    (threads : s'.threads = Function.update s.threads t pc)
    (before : (s.threads t).critical = true) (after : pc.critical = true)
    (lock : s'.submitLock = s.submitLock)
    (queues : ∀ w, ∃ m, QueueInv (s'.workers w) (pc.offer w) m) : EngineInv s' := by
  have holds := inv.holder before
  refine ⟨fun t' => ?_, fun w => ?_⟩
  · rw [threads, lock]
    by_cases here : t' = t
    · subst here
      rw [Function.update_self, after]
      exact ⟨fun _ => holds, fun _ => rfl⟩
    · rw [Function.update_of_ne here]
      exact inv.lock t'
  · rw [System.offer, lock, holds, threads]
    simp only [Option.bind_some, Function.update_self]
    exact queues w

/-- The holder of the lock releases it. -/
theorem EngineInv.release (inv : EngineInv s) (pc : SubmitPc n)
    (threads : s'.threads = Function.update s.threads t pc)
    (before : (s.threads t).critical = true) (after : pc.critical = false)
    (lock : s'.submitLock = none) (workers : s'.workers = s.workers)
    (none : ∀ w, (s.threads t).offer w = none) : EngineInv s' := by
  refine ⟨fun t' => ?_, fun w => ?_⟩
  · rw [threads, lock]
    by_cases here : t' = t
    · subst here
      rw [Function.update_self, after]
      simp
    · rw [Function.update_of_ne here]
      have holds := inv.lock t'
      rw [inv.holder before] at holds
      refine ⟨fun critical => ?_, fun no => by cases no⟩
      exact absurd (Option.some.inj (holds.mp critical)).symm here
  · rw [System.offer, lock, workers]
    exact inv.queue_none w ((inv.offer_eq before w).trans (none w))

/-- The holder of the lock changes what it has offered to one queue. -/
theorem EngineInv.offering (inv : EngineInv s) (pc : SubmitPc n) {w : Fin n} {worker : IoWorker}
    (threads : s'.threads = Function.update s.threads t pc)
    (before : (s.threads t).critical = true) (after : pc.critical = true)
    (lock : s'.submitLock = s.submitLock)
    (workers : s'.workers = Function.update s.workers w worker)
    (elsewhere : ∀ v, v ≠ w → (s.threads t).offer v = none ∧ pc.offer v = none)
    (here : ∀ m, QueueInv (s.workers w) ((s.threads t).offer w) m → QueueInv worker (pc.offer w) m) :
    EngineInv s' := by
  refine inv.inside pc threads before after lock fun v => ?_
  obtain ⟨m, queue⟩ := inv.queues v
  rw [inv.offer_eq before v] at queue
  by_cases same : v = w
  · subst same
    rw [workers, Function.update_self]
    exact ⟨m, here m queue⟩
  · obtain ⟨none, none'⟩ := elsewhere v same
    rw [workers, Function.update_of_ne same, none']
    rw [none] at queue
    exact ⟨m, queue⟩

/-- **A step of a thread keeps the lock and the queues in order.** -/
theorem EngineInv.thread [NeZero n] {alignedOnly : Bool} (inv : EngineInv s)
    (effect : ThreadEffect alignedOnly s t s') : EngineInv s' := by
  -- A step that goes on with the same offer.
  have goOn : ∀ pc : SubmitPc n, s'.threads = Function.update s.threads t pc →
      (s.threads t).critical = true → pc.critical = true → s'.submitLock = s.submitLock →
      s'.workers = s.workers → (∀ w, pc.offer w = (s.threads t).offer w) → EngineInv s' := by
    intro pc threads before after lock workers same
    refine inv.inside pc threads before after lock fun w => ?_
    rw [workers, same, ← inv.offer_eq before w]
    exact inv.queues w
  cases effect with
  | callAsync c a pc args => exact inv.outside (.lock c) rfl (by rw [pc]; rfl) rfl rfl rfl
  | callStream c pc => exact inv.outside (.lock c) rfl (by rw [pc]; rfl) rfl rfl rfl
  | lock c pc free =>
      refine ⟨fun t' => ?_, fun w => ?_⟩
      · change (Function.update s.threads t (.claim c) t').critical = true ↔ some t = some t'
        by_cases here : t' = t
        · subst here
          rw [Function.update_self]
          exact ⟨fun _ => rfl, fun _ => rfl⟩
        · rw [Function.update_of_ne here, inv.lock t', free]
          simp [Ne.symm here]
      · have offer : ({ s with submitLock := some t }.setThread t (.claim c)).offer w = none := by
          simp [System.offer, System.setThread, SubmitPc.offer]
        rw [offer]
        exact inv.queue_none w (by simp [System.offer, free])
  | claim c pc room =>
      have before : (s.threads t).critical = true := by rw [pc]; rfl
      refine inv.offering (w := route s.rrNext) (.fill c _ _) rfl before rfl rfl
        (Function.update_eq_self _ _).symm (fun v other => ?_) fun m queue => ?_
      · rw [pc]
        exact ⟨rfl, if_neg (Ne.symm other)⟩
      · rw [pc] at queue
        rw [SubmitPc.offer, if_pos rfl]
        exact queue.claim room
  | full c pc =>
      have before : (s.threads t).critical = true := by rw [pc]; rfl
      exact inv.release (.lock c) rfl before rfl rfl rfl fun w => by rw [pc]; rfl
  | fillAsync c w head a pc args =>
      have before : (s.threads t).critical = true := by rw [pc]; rfl
      refine inv.offering (.pend _ w head) rfl before rfl rfl rfl (fun v other => ?_)
        fun m queue => ?_
      · rw [pc]
        exact ⟨if_neg (Ne.symm other), if_neg (Ne.symm other)⟩
      · rw [pc, SubmitPc.offer, if_pos rfl] at queue
        rw [SubmitPc.offer, if_pos rfl]
        exact queue.fill rfl _
  | fillStream c w head a turn pc args =>
      have before : (s.threads t).critical = true := by rw [pc]; rfl
      refine inv.offering (.gate _ w head) rfl before rfl rfl rfl (fun v other => ?_)
        fun m queue => ?_
      · rw [pc]
        exact ⟨if_neg (Ne.symm other), if_neg (Ne.symm other)⟩
      · rw [pc, SubmitPc.offer, if_pos rfl] at queue
        rw [SubmitPc.offer, if_pos rfl]
        exact queue.fill rfl _
  | fails fields w head pc =>
      have before : (s.threads t).critical = true := by rcases pc with pc | pc <;> rw [pc] <;> rfl
      refine inv.offering (w := w) (.unlock none) rfl before rfl rfl
        (Function.update_eq_self _ _).symm (fun v other => ?_) fun m queue => ?_
      · rcases pc with pc | pc <;> rw [pc] <;> exact ⟨if_neg (Ne.symm other), rfl⟩
      · have offered : (s.threads t).offer w = some ⟨head, some fields, false⟩ := by
          rcases pc with pc | pc <;> rw [pc, SubmitPc.offer, if_pos rfl]
        rw [offered] at queue
        exact queue.abandon rfl
  | park fields w head a turn pc args aligned =>
      exact goOn (.pend fields w head) rfl (by rw [pc]; rfl) rfl rfl rfl fun v => by rw [pc]; rfl
  | write fields w head a turn pc args aligned =>
      exact goOn (.wait fields w head) rfl (by rw [pc]; rfl) rfl rfl rfl fun v => by rw [pc]; rfl
  | wait fields w head a turn pc args =>
      exact goOn (.pend fields w head) rfl (by rw [pc]; rfl) rfl rfl rfl fun v => by rw [pc]; rfl
  | pend fields w head pc =>
      have before : (s.threads t).critical = true := by rw [pc]; rfl
      refine inv.offering (.publish fields w head) rfl before rfl rfl rfl (fun v other => ?_)
        fun m queue => ?_
      · rw [pc]
        exact ⟨if_neg (Ne.symm other), if_neg (Ne.symm other)⟩
      · rw [pc, SubmitPc.offer, if_pos rfl] at queue
        rw [SubmitPc.offer, if_pos rfl]
        exact queue.pend rfl
  | publish fields w head pc =>
      have before : (s.threads t).critical = true := by rw [pc]; rfl
      refine inv.offering (.unlock (copyOf alignedOnly fields)) rfl before rfl rfl rfl
        (fun v other => ?_) fun m queue => ?_
      · rw [pc]
        exact ⟨if_neg (Ne.symm other), rfl⟩
      · rw [pc, SubmitPc.offer, if_pos rfl] at queue
        exact queue.publish rfl
  | unlock copy pc' pc next =>
      have before : (s.threads t).critical = true := by rw [pc]; rfl
      refine inv.release pc' rfl before ?_ rfl rfl fun w => by rw [pc]; rfl
      rcases next with rfl | ⟨j, -, rfl⟩ <;> rfl
  | copy j pc => exact inv.outside .idle rfl (by rw [pc]; rfl) rfl rfl rfl
  | lost j pc => exact inv.outside .idle rfl (by rw [pc]; rfl) rfl rfl rfl

end Steps

/-- A step that leaves threads, lock and workers alone. -/
theorem EngineInv.still (inv : EngineInv s) (threads : s'.threads = s.threads)
    (lock : s'.submitLock = s.submitLock) (workers : s'.workers = s.workers) : EngineInv s' := by
  refine ⟨fun t => ?_, fun w => ?_⟩
  · rw [threads, lock]
    exact inv.lock t
  · rw [workers, System.offer, lock, threads]
    exact inv.queues w

/-- **A step of a worker keeps the queues in order.** -/
theorem EngineInv.worker {w : Fin n} {c : Choice} (inv : EngineInv s)
    (step : s.workerStep w c = some s') : EngineInv s' := by
  obtain ⟨event, worker, effect, rfl⟩ := System.workerStep_effect step
  obtain ⟨threads, lock, workers, -⟩ :=
    (s.setWorker w (worker.record event)).apply_frame event
  refine ⟨fun t => ?_, fun v => ?_⟩
  · rw [threads, lock]
    exact inv.lock t
  · have offer : ((s.setWorker w (worker.record event)).apply event).offer v = s.offer v := by
      rw [System.offer, lock, threads]
      rfl
    rw [offer, workers]
    obtain ⟨m, queue⟩ := inv.queues v
    by_cases same : v = w
    · subst same
      rw [System.setWorker]
      simp only [Function.update_self]
      exact queue.effect effect
    · refine ⟨m, ?_⟩
      rw [System.setWorker]
      simp only [Function.update_of_ne same]
      exact queue

/-- **Every step of the engine keeps the lock and the queues in order.** -/
theorem EngineInv.step [DecidableEq ι] [NeZero n] {alignedOnly : Bool} {l : Label n ι}
    (inv : EngineInv s) (step : (engine alignedOnly).step s l = some s') : EngineInv s' := by
  cases l with
  | thread t act => exact inv.thread (System.threadStep_effect step)
  | worker w c => exact inv.worker step
  | gpu j =>
      obtain ⟨threads, lock, workers, -⟩ := (System.gpuStep_effect step).frame
      exact inv.still threads lock workers
  | stop =>
      cases step
      exact inv.still rfl rfl rfl

theorem zeroWorker_inv : QueueInv zeroWorker none ⟨0, 0, 0⟩ := by
  have none : ∀ k, ¬ k < zeroWorker.published.length := fun k => Nat.not_lt_zero k
  refine ⟨⟨rfl, rfl, Nat.le_refl _, Nat.zero_le _, fun inPass => ?_, ?_, ?_, ?_⟩,
    ⟨fun k lt => absurd lt (none k), fun slot _ => .inl rfl, by simp⟩,
    ⟨?_, fun k lt => absurd lt (none k), fun k lt => absurd lt (none k), ?_, ?_⟩,
    ⟨?_, fun k _ lt => absurd lt (none k), ?_⟩⟩
  · cases inPass
  all_goals simp [zeroWorker, WorkerPc.onOp, WorkerPc.late]

theorem EngineInv.start (futures : Nat → Future) (bytesRead : Nat → Int) :
    EngineInv (setup n ι futures bytesRead) :=
  ⟨fun _ => ⟨fun no => (by cases no), fun no => (by cases no)⟩, fun _ => ⟨_, zeroWorker_inv⟩⟩

/-- **The lock and the queues are in order in every reachable state.** -/
theorem EngineInv.run [DecidableEq ι] [NeZero n] {alignedOnly : Bool} {labels : List (Label n ι)}
    {futures : Nat → Future} {bytesRead : Nat → Int}
    (ran : (engine alignedOnly).run labels (setup n ι futures bytesRead) = some s) : EngineInv s := by
  have keeps : ∀ (s : System n ι) l s', EngineInv s → (engine alignedOnly).step s l = some s' →
      EngineInv s' := fun _ _ _ inv step => inv.step step
  exact Machine.run_invariant_of_step keeps (.start futures bytesRead) ran

end OpenDS.Engine
