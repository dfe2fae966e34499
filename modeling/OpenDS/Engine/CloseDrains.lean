import OpenDS.Engine.QueueSafety

/-!
# The close of the driver

`workers_teardown` stores `stop` and joins the workers. A worker leaves its loop when
it finds its queue empty and then loads `stop`. It has found the queue empty up to the
head it loaded at the start of the iteration, so an operation published in between
is left behind (`close_leaves_operation`). Where the head is still the one the worker
has loaded, every operation is completed (`closeDrains`).
-/

set_option autoImplicit false

namespace OpenDS.Engine

open OpenDS.Library OpenDS.Aisio

variable {n : Nat} {ι : Type}

/-- `opends_driver_close` is called past all submission calls: no thread is in a call
when `stop` is stored, and none begins one later. -/
def ClosesLast (s : System n ι) (l : Label n ι) : Prop :=
  (l = .stop → ∀ t, s.threads t = .idle) ∧ ∀ t c, l = .thread t (.call c) → s.stop = false

/-- A worker that is about to leave its loop has loaded the head that its queue still
has. -/
def ExitsUpToDate (s : System n ι) (l : Label n ι) : Prop :=
  ∀ w, l = .worker w .go → (s.workers w).pc = .stopCheck → s.stop = true →
    (s.workers w).busy = false → (s.workers w).queueHead = (s.workers w).head

/-- What holds of a run in which the driver is closed last: nothing is submitted past
the store of `stop`, and a worker that has left its loop has seen all there is. -/
structure DrainInv (s : System n ι) : Prop where
  base : EngineInv s
  closed : s.stop = true → ∀ t, s.threads t = .idle
  left : ∀ w, (s.workers w).pc = .exited →
    s.stop = true ∧ (s.workers w).queueHead = (s.workers w).head

variable {s s' : System n ι}

/-- A worker stays out of its loop, and leaves it past the load of `stop` only. -/
theorem WorkerEffect.exited {gate : Nat → BitVec 32} {stop : Bool} {w w' : IoWorker}
    {event : Option (Nat × OpEvent)} (effect : WorkerEffect gate stop w event w')
    (out : w'.pc = .exited) : w.pc = .stopCheck ∧ stop = true ∧ w.busy = false ∧
      w' = { w with pc := .exited } := by
  cases effect with
  | exit pc stopped idle => exact ⟨pc, stopped, idle, rfl⟩
  | visit pc' pc more visits => cases visits <;> cases out
  | again pc' pc next => rcases next with rfl | rfl <;> cases out
  | arrive c command ok pc there =>
      rcases pc with pc | pc <;> cases pc.symm.trans out
  | issue callback nbytes pc => cases pc.symm.trans out
  | retire pc more state => cases pc.symm.trans out
  | _ => cases out

variable [DecidableEq ι] [NeZero n] {alignedOnly : Bool} {l : Label n ι}

/-- **One step of a run in which the driver is closed last.** -/
theorem DrainInv.step (inv : DrainInv s) (last : ClosesLast s l) (upToDate : ExitsUpToDate s l)
    (step : (engine alignedOnly).step s l = some s') : DrainInv s' := by
  have base := inv.base.step step
  cases l with
  | thread t act =>
      -- Past the store of `stop` no thread has anything to do.
      have open' : s.stop = false := by
        by_contra stopped
        have idle := inv.closed (Bool.not_eq_false _ ▸ stopped) t
        cases act with
        | call c => exact stopped (last.2 t c rfl)
        | _ => simp [engine, System.threadStep, idle] at step
      have stop : s'.stop = s.stop := by
        cases System.threadStep_effect step <;> rfl
      have out : ∀ w, (s.workers w).pc ≠ .exited := fun w exited => by
        rw [(inv.left w exited).1] at open'
        cases open'
      have same : ∀ w, (s'.workers w).pc = (s.workers w).pc := by
        intro w
        have put : ∀ (v : Fin n) (worker : IoWorker), worker.pc = (s.workers v).pc →
            (Function.update s.workers v worker w).pc = (s.workers w).pc := by
          intro v worker pc
          by_cases here : w = v
          · rw [here, Function.update_self, pc]
          · rw [Function.update_of_ne here]
        cases System.threadStep_effect step with
        | fillAsync c v head a pc args => exact put v _ rfl
        | fillStream c v head a turn pc args => exact put v _ rfl
        | pend fields v head pc => exact put v _ rfl
        | publish fields v head pc => exact put v _ rfl
        | _ => rfl
      refine ⟨base, fun stopped => ?_, fun w exited => ?_⟩
      · rw [stop, open'] at stopped
        cases stopped
      · exact absurd ((same w).symm.trans exited) (out w)
  | worker w c =>
      obtain ⟨event, worker, effect, rfl⟩ := System.workerStep_effect step
      obtain ⟨threads, -, workers, stop⟩ :=
        (s.setWorker w (worker.record event)).apply_frame event
      refine ⟨base, ?_, fun v exited => ?_⟩
      · rw [threads, stop]
        exact inv.closed
      · rw [workers, stop, System.setWorker] at *
        by_cases here : v = w
        · subst here
          simp only [Function.update_self] at exited ⊢
          obtain ⟨pc, stopped, idle, rfl⟩ := effect.exited exited
          have go : c = .go := by
            cases c with
            | go => rfl
            | _ => simp [engine, System.workerStep, IoWorker.act, pc] at step
          exact ⟨stopped, upToDate v (by rw [go]) pc stopped idle⟩
        · simp only [Function.update_of_ne here] at exited ⊢
          exact inv.left v exited
  | gpu j =>
      obtain ⟨threads, lock, workers, stop⟩ := (System.gpuStep_effect step).frame
      refine ⟨base, ?_, ?_⟩
      · rw [stop, threads]
        exact inv.closed
      · rw [workers, stop]
        exact inv.left
  | stop =>
      cases step
      exact ⟨base, fun _ => last.1 rfl, fun w exited => ⟨rfl, (inv.left w exited).2⟩⟩

omit [DecidableEq ι] [NeZero n] in
theorem DrainInv.start (futures : Nat → Future) (bytesRead : Nat → Int) :
    DrainInv (setup n ι futures bytesRead) :=
  ⟨.start futures bytesRead, fun no => (by cases no), fun _ no => (by cases no)⟩

omit [DecidableEq ι] [NeZero n] in
/-- A worker that has left its loop has completed its queue. -/
theorem DrainInv.drained (inv : DrainInv s) {w : Fin n} (exited : (s.workers w).pc = .exited)
    {k : Nat} (lt : k < (s.workers w).published.length) : (s.workers w).Completed k := by
  obtain ⟨m, queue⟩ := inv.base.queues w
  obtain ⟨-, same⟩ := inv.left w exited
  obtain ⟨word, order, below⟩ := queue.counters.pass (by rw [exited]; rfl)
  have room := queue.counters.room
  have tail := queue.counters.retired (.inr exited)
  rw [queue.counters.head, word] at same
  have all := eq_of_word_eq (w := 32) below (by simp only [queueSize] at room; omega) same.symm
  obtain ⟨n, lived⟩ := queue.lives.done k lt (by omega)
  exact ⟨_, n, OpFields.life_end lived⟩

/-- **The close drains the queues** in every run in which the driver is closed last and
no worker leaves its loop while its queue has another head than it has loaded: a
worker that has left its loop has completed every operation published to it. -/
theorem closeDrains {labels : List (Label n ι)} {futures : Nat → Future} {bytesRead : Nat → Int}
    (meets : (engine alignedOnly).Meets (fun s l => ClosesLast s l ∧ ExitsUpToDate s l) labels
      (setup n ι futures bytesRead))
    (ran : (engine alignedOnly).run labels (setup n ι futures bytesRead) = some s) :
    ∀ w, (s.workers w).pc = .exited → ∀ k, k < (s.workers w).published.length →
      (s.workers w).Completed k := by
  have keeps : ∀ (s : System n ι) l s', DrainInv s → ClosesLast s l ∧ ExitsUpToDate s l →
      (engine alignedOnly).step s l = some s' → DrainInv s' :=
    fun _ _ _ inv ok step => inv.step ok.1 ok.2 step
  have inv : DrainInv s := Machine.run_invariant keeps (.start futures bytesRead) meets ran
  exact fun w exited k lt => inv.drained exited lt

omit [DecidableEq ι] [NeZero n]

/-! ## One worker and one thread -/

/-- The worker goes through its loop once more past the store of `stop`. -/
def leaves : List (Label 1 Unit) := List.replicate 4 (.worker 0 .go)

/-- The write is submitted and the driver is closed while the worker is in an
iteration that began before. -/
def closesInside : List (Label 1 Unit) :=
  [.worker 0 .go] ++ submits ++ [.stop] ++ List.replicate 3 (.worker 0 .go)

/-- What a run leaves of the queue: where the worker stands, how many operations were
published, and what happened to the first one. -/
def leftOver (labels : List (Label 1 Unit)) : Option (WorkerPc × Nat × List OpEvent) :=
  ((engine false).run labels (setup 1 Unit noFutures fun _ => 0)).map fun s =>
    ((s.workers 0).pc, (s.workers 0).published.length, (s.workers 0).history 0)

/-- The label is a call. -/
def Label.isCall : Label 1 Unit → Bool
  | .thread _ (.call _) => true
  | _ => false

/-- Compute whether a step of one thread and one worker is as it has to be. -/
def inOrder (s : System 1 Unit) (l : Label 1 Unit) : Bool :=
  (l != .stop || s.threads () == .idle) && (!l.isCall || !s.stop)

/-- Compute whether the worker knows the head of its queue when it looks at `stop`. -/
def upToDate (s : System 1 Unit) : Bool :=
  (s.workers 0).pc != .stopCheck || (s.workers 0).queueHead == (s.workers 0).head

theorem closesLast_of_inOrder {s : System 1 Unit} {l : Label 1 Unit} (test : inOrder s l = true) :
    ClosesLast s l := by
  simp only [inOrder, Bool.and_eq_true, Bool.or_eq_true, bne_iff_ne, beq_iff_eq] at test
  refine ⟨fun stop t => test.1.resolve_left (· stop), fun t c call => ?_⟩
  subst call
  simpa [Label.isCall] using test.2

theorem exitsUpToDate_of_upToDate {s : System 1 Unit} {l : Label 1 Unit}
    (test : upToDate s = true) : ExitsUpToDate s l := by
  simp only [upToDate, Bool.or_eq_true, bne_iff_ne, beq_iff_eq] at test
  intro w _ pc _ _
  rw [Subsingleton.elim w 0] at pc ⊢
  exact test.resolve_left (· pc)

/-- The queue is drained when the driver is closed past the last iteration. -/
theorem closeDrains_oneWrite :
    ∃ s, (engine false).run (submits ++ completes ++ [.stop] ++ leaves)
        (setup 1 Unit noFutures fun _ => 0) = some s ∧ (s.workers 0).published.length = 1 ∧
      ∀ k, k < (s.workers 0).published.length → (s.workers 0).Completed k := by
  have left : (leftOver (submits ++ completes ++ [.stop] ++ leaves)).map (fun out =>
      (out.1, out.2.1)) = some (.exited, 1) := by decide +kernel
  obtain ⟨out, there, facts⟩ := Option.map_eq_some_iff.mp left
  obtain ⟨s, ran, rfl⟩ := Option.map_eq_some_iff.mp there
  simp only [Prod.mk.injEq] at facts
  refine ⟨s, ran, facts.2, closeDrains ?_ ran 0 facts.1⟩
  have passes : (engine false).check (fun s l => inOrder s l && upToDate s)
      (submits ++ completes ++ [.stop] ++ leaves) (setup 1 Unit noFutures fun _ => 0) = true := by
    decide +kernel
  refine Machine.meets_of_check (fun s l test => ?_) passes
  rw [Bool.and_eq_true] at test
  exact ⟨closesLast_of_inOrder test.1, exitsUpToDate_of_upToDate test.2⟩

/-- **The close leaves an operation behind** that was published past the load of the
head in the last iteration of the worker. -/
theorem close_leaves_operation :
    ¬ ∀ (labels : List (Label 1 Unit)) (s : System 1 Unit),
        (engine false).Meets ClosesLast labels (setup 1 Unit noFutures fun _ => 0) →
        (engine false).run labels (setup 1 Unit noFutures fun _ => 0) = some s →
        ∀ w, (s.workers w).pc = .exited → ∀ k, k < (s.workers w).published.length →
          (s.workers w).Completed k := by
  intro drains
  have left : leftOver closesInside = some (.exited, 1, []) := by decide +kernel
  obtain ⟨s, ran, facts⟩ := Option.map_eq_some_iff.mp left
  simp only [Prod.mk.injEq] at facts
  have passes : (engine false).check inOrder closesInside
      (setup 1 Unit noFutures fun _ => 0) = true := by decide +kernel
  obtain ⟨target, n, completed⟩ := drains closesInside s
    (Machine.meets_of_check (fun s l test => closesLast_of_inOrder test) passes) ran 0 facts.1 0
    (by rw [facts.2.1]; decide)
  rw [facts.2.2] at completed
  cases completed

end OpenDS.Engine
