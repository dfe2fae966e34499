import OpenDS.DataPath.Tasks

/-!
# Runs of asynchronous reads

As long as nothing but asynchronous reads is submitted, every operation of every queue is
one, nothing is enqueued to a stream, and the files stay as they are. Every byte that
moves is then moved for a read that is told of it.
-/

set_option autoImplicit false

namespace OpenDS.DataPath

open OpenDS.Library (Machine Memory Ptr word)
open OpenDS.Aisio OpenDS.Engine

variable {n : Nat} {ι : Type} {d : Driver} {s s' : IoState n ι} {w v : Fin n} {k : Nat}

/-! ## Asynchronous reads -/

/-- The call submits an asynchronous read. -/
def ReadsAsync (c : Call) : Prop := c.isWrite = false ∧ ∃ a, c.u = .async a

/-- The operation is an asynchronous read. -/
def IsAsyncRead (f : OpFields) : Prop := f.isWrite = false ∧ ∃ a, f.u = .async a

/-- The step submits nothing but an asynchronous read. -/
def IoLabel.ReadsAsync : IoLabel n ι → Prop
  | .thread _ (.call c) => DataPath.ReadsAsync c
  | _ => True

/-- The submission is one of an asynchronous read. -/
def SubmitsAsync : SubmitPc n → Prop
  | .idle => True
  | .lock c => ReadsAsync c
  | .claim c => ReadsAsync c
  | .fill c _ _ => ReadsAsync c
  | .gate _ _ _ => False
  | .wait _ _ _ => False
  | .pend fields _ _ => IsAsyncRead fields
  | .publish fields _ _ => IsAsyncRead fields
  | .unlock copy => copy = none
  | .copy _ => False

/-- **Nothing but asynchronous reads has been submitted.** -/
structure AsyncOnly (s : IoState n ι) : Prop where
  threads : ∀ t, SubmitsAsync (s.sys.threads t)
  published : ∀ w, ∀ f ∈ (s.sys.workers w).published, IsAsyncRead f
  streams : ∀ j, (s.sys.streams j).commands = []

theorem AsyncOnly.start (futures : Nat → Future) (bytesRead : Nat → Int) (mem : Memory Space UInt8)
    (disk : Nat → Nat → UInt8) : AsyncOnly (ioSetup n ι futures bytesRead mem disk) where
  threads _ := trivial
  published _ _ member := by cases member
  streams _ := rfl

/-- A step of a worker submits nothing. -/
theorem AsyncOnly.worker (only : AsyncOnly s) (inv : IoInv s) (effect : IoEffect d s w s') :
    AsyncOnly s' := by
  rcases effect.refines (inv.workers w) with same | ⟨c, step⟩
  · exact ⟨by rw [same]; exact only.threads, by rw [same]; exact only.published,
      by rw [same]; exact only.streams⟩
  · obtain ⟨⟨worker, event⟩, act, same⟩ := Option.map_eq_some_iff.mp step
    obtain ⟨threads, -, workers, -⟩ := (s.sys.setWorker w (worker.record event)).apply_frame event
    rw [same] at threads workers
    refine ⟨fun t => by rw [threads]; exact only.threads t, fun v f member => ?_, fun j => ?_⟩
    · rw [workers] at member
      by_cases here : v = w
      · subst here
        have published : worker.published = (s.sys.workers v).published :=
          (published_of_effect (IoWorker.act_effect act)).1
        simp only [System.setWorker, Function.update_self, IoWorker.record, published] at member
        exact only.published v f member
      · simp only [System.setWorker, Function.update_of_ne here] at member
        exact only.published v f member
    · rw [← same, apply_commands]
      exact only.streams j

variable [DecidableEq ι] [NeZero n] {l : IoLabel n ι}

/-- A thread that is idle begins the call of its label. -/
theorem call_of_idle {alignedOnly : Bool} {sys sys' : System n ι} {t : ι} {act : ThreadAct}
    (idle : sys.threads t = .idle) (step : sys.threadStep alignedOnly t act = some sys') :
    ∃ c, act = .call c ∧ sys'.threads t = .lock c := by
  cases act with
  | call c =>
      refine ⟨c, rfl, ?_⟩
      simp only [System.threadStep, idle] at step
      split at step <;> cases step <;> exact Function.update_self ..
  | _ => simp only [System.threadStep, idle, reduceCtorEq] at step

/-- **A thread that submits asynchronous reads only enqueues nothing.** -/
theorem AsyncOnly.thread {sys : System n ι} {t : ι} {act : ThreadAct} (only : AsyncOnly s)
    (inv : EngineInv s.sys) (reads : (IoLabel.thread t act : IoLabel n ι).ReadsAsync)
    (step : s.sys.threadStep d.assumeAlignedOnly t act = some sys) : AsyncOnly { s with sys := sys } := by
  have mine := only.threads t
  -- A step that publishes and enqueues nothing.
  have goes : ∀ {sys' : System n ι} {pc : SubmitPc n}, sys'.streams = s.sys.streams →
      sys'.threads = s.sys.threads →
      (∀ v, (sys'.workers v).published = (s.sys.workers v).published) → SubmitsAsync pc →
      AsyncOnly { s with sys := sys'.setThread t pc } := by
    intro sys' pc streams threads published submits
    refine ⟨fun u => ?_, fun v f member => ?_, fun j => ?_⟩
    · by_cases here : u = t
      · subst here
        simp only [System.setThread, Function.update_self]
        exact submits
      · simp only [System.setThread, Function.update_of_ne here, threads]
        exact only.threads u
    · exact only.published v f (by rw [← published v]; exact member)
    · exact (congrArg (fun streams => (streams j).commands) streams).trans (only.streams j)
  have put : ∀ (v : Fin n) (worker : IoWorker), worker.published = (s.sys.workers v).published →
      ∀ u, ((s.sys.setWorker v worker).workers u).published = (s.sys.workers u).published := by
    intro v worker published u
    by_cases here : u = v
    · subst here
      simp only [System.setWorker, Function.update_self]
      exact published
    · simp only [System.setWorker, Function.update_of_ne here]
  have begins : s.sys.threads t = .idle → ∀ {sys' : System n ι} {c : Call},
      sys = sys'.setThread t (.lock c) → ReadsAsync c := by
    intro idle sys' c same
    obtain ⟨c', rfl, at'⟩ := call_of_idle idle step
    rw [same] at at'
    simp only [System.setThread, Function.update_self, SubmitPc.lock.injEq] at at'
    rw [at']
    exact reads
  have effect := System.threadStep_effect step
  cases effect with
  | callAsync c a pc u => exact goes rfl rfl (fun _ => rfl) (begins pc rfl)
  | callStream c pc => exact goes rfl rfl (fun _ => rfl) (begins pc rfl)
  | lock c pc free =>
      rw [pc] at mine
      exact goes rfl rfl (fun _ => rfl) mine
  | claim c pc room =>
      rw [pc] at mine
      exact goes rfl rfl (fun _ => rfl) mine
  | full c pc =>
      rw [pc] at mine
      exact goes rfl rfl (fun _ => rfl) mine
  | fillAsync c v head a pc u =>
      rw [pc] at mine
      exact goes rfl rfl (put v _ rfl) ⟨mine.1, a, rfl⟩
  | fillStream c v head a turn pc u =>
      rw [pc] at mine
      obtain ⟨-, a', async⟩ := mine
      cases u.symm.trans async
  | fails fields v head pc => rcases pc with pc | pc <;> rw [pc] at mine <;> exact mine.elim
  | park fields v head a turn pc => rw [pc] at mine; exact mine.elim
  | write fields v head a turn pc => rw [pc] at mine; exact mine.elim
  | wait fields v head a turn pc => rw [pc] at mine; exact mine.elim
  | pend fields v head pc =>
      rw [pc] at mine
      exact goes rfl rfl (put v _ rfl) mine
  | publish fields v head pc =>
      rw [pc] at mine
      have critical : (s.sys.threads t).critical = true := by rw [pc]; rfl
      obtain ⟨m, queue⟩ := inv.queues v
      have offered : s.sys.offer v = some ⟨head, some fields, true⟩ := by
        rw [inv.offer_eq critical, pc]
        exact if_pos rfl
      have holds := queue.slots.offered _ offered
      have filled : ((s.sys.workers v).fileOpQueue (slotOf head)).fields = fields := by
        have at' : head = word 32 (s.sys.workers v).published.length := holds.head
        rw [at', slotOf_word]
        exact (holds.filled fields rfl).1
      obtain ⟨a, async⟩ := mine.2
      refine ⟨fun u => ?_, fun u f member => ?_, fun j => only.streams j⟩
      · by_cases here : u = t
        · subst here
          simp only [System.setThread, Function.update_self, copyOf, async]
          rfl
        · simp only [System.setThread, Function.update_of_ne here]
          exact only.threads u
      · by_cases here : u = v
        · subst here
          simp only [System.setThread, System.setWorker, Function.update_self] at member
          rcases List.mem_append.mp member with old | new
          · exact only.published u f old
          · rw [List.mem_singleton.mp new, filled]
            exact mine
        · simp only [System.setThread, System.setWorker, Function.update_of_ne here] at member
          exact only.published u f member
  | unlock copy pc' pc next =>
      rw [pc] at mine
      cases mine
      rcases next with rfl | ⟨j, no, -⟩
      · exact goes rfl rfl (fun _ => rfl) trivial
      · cases no
  | copy j pc => rw [pc] at mine; exact mine.elim
  | lost j pc => rw [pc] at mine; exact mine.elim

/-- **Every step that submits nothing else leaves nothing but asynchronous reads.** -/
theorem AsyncOnly.step (only : AsyncOnly s) (inv : IoInv s) (reads : l.ReadsAsync)
    (step : (io d).step s l = some s') : AsyncOnly s' := by
  cases l with
  | thread t act =>
      obtain ⟨sys, stepped, rfl⟩ := Option.map_eq_some_iff.mp step
      exact only.thread inv.engine reads stepped
  | worker w c => exact only.worker inv (IoState.workerStep_effect step)
  | gpu j =>
      obtain ⟨sys, stepped, rfl⟩ := Option.map_eq_some_iff.mp step
      simp only [System.gpuStep, only.streams j, reduceCtorEq] at stepped
  | stop =>
      cases step
      exact ⟨only.threads, only.published, only.streams⟩

/-! ## Where bytes move -/

/-- **Every byte that moves is moved for a read.** -/
theorem AsyncOnly.moves (only : AsyncOnly s) (inv : IoInv s) (logs : Wires d s)
    (step : (io d).step s l = some s') : Moves d s s' := by
  cases l with
  | thread t act =>
      obtain ⟨sys, -, rfl⟩ := Option.map_eq_some_iff.mp step
      exact .still rfl
  | worker w c => exact ((IoState.workerStep_effect step).affects logs inv).2.2.2
  | gpu j =>
      obtain ⟨sys, stepped, rfl⟩ := Option.map_eq_some_iff.mp step
      simp only [System.gpuStep, only.streams j, reduceCtorEq] at stepped
  | stop =>
      cases step
      exact .still rfl

/-- **The files stay as they are.** -/
theorem AsyncOnly.disk (only : AsyncOnly s) (inv : IoInv s) (tasks : Tasks d s)
    (step : (io d).step s l = some s') : s'.disk = s.disk := by
  cases l with
  | thread t act =>
      obtain ⟨sys, -, rfl⟩ := Option.map_eq_some_iff.mp step
      rfl
  | worker w c =>
      cases IoState.workerStep_effect step with
      | wrote ret disk sys pc engine =>
          -- The worker is at an operation that is no read.
          obtain ⟨m, queue⟩ := inv.engine.queues w
          obtain ⟨-, -, low, lt, -⟩ := queue.place (by rw [pc]; rfl)
          obtain ⟨stage, lived, shows⟩ := queue.lives.live m.i lt low
          rw [IoWorker.Shows, if_pos ⟨by rw [pc]; rfl, rfl⟩, pc] at shows
          have read := only.published w _ (List.getElem_mem lt)
          cases stage with
          | writing => cases (tasks.standing w m.i lt _ lived).1.symm.trans read.1
          | _ => exact shows.elim
      | _ => rfl
  | gpu j =>
      obtain ⟨sys, -, rfl⟩ := Option.map_eq_some_iff.mp step
      rfl
  | stop =>
      cases step
      rfl

end OpenDS.DataPath
