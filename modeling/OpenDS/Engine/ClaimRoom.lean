import OpenDS.Engine.QueueSafety

/-!
# A submitter that finds room

`claim_slot_locked` tries one worker after the other, as `route_op` counts, and gives up the
lock after each queue that is full. The counter has 32 bits, so it leaves out some of the
workers where it starts again from zero.

While nobody else submits, a submitter does not go round for ever: as long as one worker has
room it has claimed a slot past a number of steps that depends on the number of the workers
only (`claim_finds_room`).
-/

set_option autoImplicit false

namespace OpenDS.Engine

open OpenDS.Library OpenDS.Aisio

variable {n : Nat} {ι : Type}

/-! ## The counter -/

/-- **The counter comes to every worker**, also where it starts again from zero. -/
theorem exists_tries [NeZero n] (small : n ≤ 2 ^ 32) (rr : BitVec 32) (w : Fin n) :
    ∃ tries, tries + 2 ≤ 2 * n ∧ route (rr + word 32 tries) = w := by
  have low := rr.isLt
  have one : 0 < n := Nat.pos_of_ne_zero (NeZero.ne n)
  by_cases wraps : rr.toNat + n ≤ 2 ^ 32
  · -- The next `n` values are those of different workers.
    have rest := Nat.mod_lt rr.toNat one
    have turn := Nat.mod_lt (w.val + (n - rr.toNat % n)) one
    refine ⟨(w.val + (n - rr.toNat % n)) % n, by omega, Fin.ext ?_⟩
    have value : (rr + word 32 ((w.val + (n - rr.toNat % n)) % n)).toNat =
        rr.toNat + (w.val + (n - rr.toNat % n)) % n := by
      rw [BitVec.toNat_add, word, BitVec.toNat_ofNat]
      omega
    rw [route, Fin.val_ofNat, value, Nat.add_mod_mod, ← Nat.mod_add_mod]
    have whole : rr.toNat % n + (w.val + (n - rr.toNat % n)) = w.val + n := by omega
    rw [whole, Nat.add_mod_right, Nat.mod_eq_of_lt w.isLt]
  · -- The counter starts again, and comes to the worker from zero on.
    refine ⟨2 ^ 32 - rr.toNat + w.val, by omega, Fin.ext ?_⟩
    have value : (rr + word 32 (2 ^ 32 - rr.toNat + w.val)).toNat = w.val := by
      have := w.isLt
      rw [BitVec.toNat_add, word, BitVec.toNat_ofNat]
      omega
    rw [route, Fin.val_ofNat, value, Nat.mod_eq_of_lt w.isLt]

/-! ## Room that stays -/

theorem QueueInv.hasRoom_iff {w : IoWorker} {offer : Option Offer} {m : Marks}
    (inv : QueueInv w offer m) :
    w.hasRoom = true ↔ w.published.length < m.tail + queueSize := by
  have low := inv.counters.low
  have bound := inv.counters.room
  rw [IoWorker.hasRoom, decide_eq_true_eq, inv.counters.head, inv.counters.tail,
    word_sub_toNat low (by simp only [queueSize] at bound; omega)]
  omega

/-- A worker moves the tail of its queue on, or leaves it. -/
theorem queueTail_of_effect {gate : Nat → BitVec 32} {stop : Bool} {worker worker' : IoWorker}
    {event : Option (Nat × OpEvent)} (effect : WorkerEffect gate stop worker event worker') :
    worker'.queueTail = worker.queueTail ∨ worker'.queueTail = worker.queueTail + 1#32 := by
  cases effect with
  | retire => exact .inr rfl
  | _ => exact .inl rfl

/-- Where nothing is published, a queue that has room keeps it. -/
theorem QueueInv.keeps_room {w w' : IoWorker} {offer offer' : Option Offer} {m m' : Marks}
    (inv : QueueInv w offer m) (inv' : QueueInv w' offer' m')
    (published : w'.published = w.published)
    (tail : w'.queueTail = w.queueTail ∨ w'.queueTail = w.queueTail + 1#32)
    (room : w.hasRoom = true) : w'.hasRoom = true := by
  rw [inv.hasRoom_iff] at room
  rw [inv'.hasRoom_iff, published]
  have low := inv.counters.low
  have low' := inv'.counters.low
  have bound := inv.counters.room
  have bound' := inv'.counters.room
  rw [published] at low' bound'
  -- Both tails are in one window, where a word tells them apart.
  have near : ∀ a b, w.published.length ≤ a + queueSize → a ≤ w.published.length + 1 →
      w.published.length ≤ b + queueSize → b ≤ w.published.length + 1 →
      word 32 a = word 32 b → a = b := by
    simp only [queueSize]
    intro a b lowA highA lowB highB same
    rcases Nat.le_total a b with order | order
    · exact eq_of_word_eq order (by omega) same
    · exact (eq_of_word_eq order (by omega) same.symm).symm
  rw [inv.counters.tail, inv'.counters.tail] at tail
  rcases tail with same | next
  · have := near m'.tail m.tail bound' (by omega) bound (by omega) same
    omega
  · rw [word_succ] at next
    have := near m'.tail (m.tail + 1) bound' (by omega) (by omega) (by omega) next
    omega

/-! ## A submitter on its own -/

variable {s s' : System n ι} {t : ι} {w : Fin n}

/-- No other thread takes the step. -/
def Lone (t : ι) : Label n ι → Prop
  | .thread t' _ => t' = t
  | _ => True

/-- The thread is in `claim_slot_locked`, or before the lock for it. -/
def SubmitPc.Claiming (pc : SubmitPc n) : Prop := ∃ c, pc = .lock c ∨ pc = .claim c

/-- The thread has claimed a slot. -/
def SubmitPc.Claimed (pc : SubmitPc n) : Prop := ∃ c w head, pc = .fill c w head

/-- What happens to an operation does not move the counter. -/
theorem System.apply_rrNext (s : System n ι) (event : Option (Nat × OpEvent)) :
    (s.apply event).rrNext = s.rrNext := by
  unfold apply
  split <;> rfl

theorem GpuEffect.rrNext {j : Nat} (effect : GpuEffect s j s') : s'.rrNext = s.rrNext := by
  cases effect <;> rfl

/-- A worker that steps keeps the room in every queue. -/
theorem EngineInv.worker_room {v : Fin n} {c : Choice} (inv : EngineInv s)
    (step : s.workerStep v c = some s') (room : (s.workers w).hasRoom = true) :
    (s'.workers w).hasRoom = true := by
  obtain ⟨m, before⟩ := inv.queues w
  obtain ⟨m', after⟩ := (inv.worker step).queues w
  obtain ⟨event, worker, effect, rfl⟩ := System.workerStep_effect step
  have workers := ((s.setWorker v (worker.record event)).apply_frame event).2.2.1
  rw [workers] at after ⊢
  by_cases here : w = v
  · subst here
    have same : (s.setWorker w (worker.record event)).workers w = worker.record event :=
      Function.update_self ..
    have tail := queueTail_of_effect effect
    rw [same] at after ⊢
    exact before.keeps_room after (published_of_effect effect).1 tail room
  · have same : (s.setWorker v (worker.record event)).workers w = s.workers w :=
      Function.update_of_ne here ..
    rw [same]
    exact room

section Steps

variable [NeZero n]

/-- The thread comes to the worker in so many steps of its own. -/
def System.ComesTo (s : System n ι) (t : ι) (w : Fin n) (steps : Nat) : Prop :=
  ∃ tries c, route (s.rrNext + word 32 tries) = w ∧
    (s.threads t = .lock c ∧ 2 * tries + 2 ≤ steps ∨ s.threads t = .claim c ∧ 2 * tries + 1 ≤ steps)

theorem System.comesTo (small : n ≤ 2 ^ 32) (s : System n ι) (claiming : (s.threads t).Claiming)
    (w : Fin n) : s.ComesTo t w (4 * n - 2) := by
  obtain ⟨tries, few, comes⟩ := exists_tries small s.rrNext w
  obtain ⟨c, pc | pc⟩ := claiming
  · exact ⟨tries, c, comes, .inl ⟨pc, by omega⟩⟩
  · exact ⟨tries, c, comes, .inr ⟨pc, by omega⟩⟩

variable [DecidableEq ι] {alignedOnly : Bool} {l : Label n ι}

/-- What the workers and the streams do keeps the way to the worker, and its room. -/
theorem EngineInv.others (inv : EngineInv s) (step : (engine alignedOnly).step s l = some s')
    (other : ∀ t act, l ≠ .thread t act) {steps : Nat} (comes : s.ComesTo t w steps)
    (room : (s.workers w).hasRoom = true) :
    s'.ComesTo t w steps ∧ (s'.workers w).hasRoom = true := by
  have keeps : s'.rrNext = s.rrNext → s'.threads = s.threads → s'.ComesTo t w steps := by
    intro counter threads
    rw [System.ComesTo, counter, threads]
    exact comes
  cases l with
  | thread t act => exact absurd rfl (other t act)
  | worker v c =>
      have kept := inv.worker_room step room
      obtain ⟨event, worker, effect, rfl⟩ := System.workerStep_effect step
      exact ⟨keeps (System.apply_rrNext ..) (System.apply_frame ..).1, kept⟩
  | gpu j =>
      have effect := System.gpuStep_effect step
      refine ⟨keeps effect.rrNext effect.frame.1, ?_⟩
      rw [effect.frame.2.2.1]
      exact room
  | stop =>
      cases step
      exact ⟨comes, room⟩

/-- **A step of the thread** claims a slot, or brings it closer to the worker. -/
theorem System.ComesTo.own {act : ThreadAct} {steps : Nat} (comes : s.ComesTo t w steps)
    (room : (s.workers w).hasRoom = true) (step : s.threadStep alignedOnly t act = some s') :
    (s'.threads t).Claimed ∨
      (s'.ComesTo t w (steps - 1) ∧ (s'.workers w).hasRoom = true) := by
  obtain ⟨tries, c, comes, ⟨pc, few⟩ | ⟨pc, few⟩⟩ := comes
  · cases act with
    | go =>
        simp only [System.threadStep, pc] at step
        split at step
        · cases step
          exact .inr ⟨⟨tries, c, comes, .inr ⟨Function.update_self .., by omega⟩⟩, room⟩
        · cases step
    | _ => simp only [System.threadStep, pc, reduceCtorEq] at step
  · cases act with
    | go =>
        simp only [System.threadStep, pc] at step
        split at step
        · cases step
          exact .inl ⟨c, _, _, Function.update_self ..⟩
        · rename_i full
          cases step
          cases tries with
          | zero =>
              simp only [word, BitVec.add_zero] at comes
              rw [comes] at full
              exact absurd room full
          | succ tries =>
              refine .inr ⟨⟨tries, c, ?_, .inl ⟨Function.update_self .., by omega⟩⟩, room⟩
              change route (s.rrNext + 1#32 + word 32 tries) = w
              rw [← comes, ← word_succ, BitVec.add_assoc, BitVec.add_comm 1#32]
    | _ => simp only [System.threadStep, pc, reduceCtorEq] at step

/-- A thread that takes that many steps has claimed a slot on the way. -/
theorem EngineInv.claims {labels : List (Label n ι)} (inv : EngineInv s)
    (lone : ∀ l ∈ labels, Lone t l) (ran : (engine alignedOnly).run labels s = some s') {steps : Nat}
    (comes : s.ComesTo t w steps) (room : (s.workers w).hasRoom = true)
    (long : steps ≤ labels.count (.thread t .go)) :
    ∃ first rest s₁, labels = first ++ rest ∧ (engine alignedOnly).run first s = some s₁ ∧
      (s₁.threads t).Claimed := by
  induction labels generalizing s steps with
  | nil =>
      obtain ⟨tries, c, -, ⟨-, few⟩ | ⟨-, few⟩⟩ := comes <;> simp at long <;> omega
  | cons l labels ih =>
      obtain ⟨s₁, step, ran⟩ := Option.bind_eq_some_iff.mp ran
      have later : ∀ l ∈ labels, Lone t l := fun l mem => lone l (List.mem_cons_of_mem _ mem)
      have shorter : (l :: labels).count (.thread t .go) ≤ labels.count (.thread t .go) + 1 := by
        rw [List.count_cons]
        split <;> omega
      -- The rest of the run claims a slot, or this step does.
      have goesOn : ∀ {steps'}, s₁.ComesTo t w steps' → (s₁.workers w).hasRoom = true →
          steps' ≤ labels.count (.thread t .go) → ∃ first rest s₂, l :: labels = first ++ rest ∧
            (engine alignedOnly).run first s = some s₂ ∧ (s₂.threads t).Claimed := by
        intro steps' comes room long
        obtain ⟨first, rest, s₂, rfl, ran, claimed⟩ := ih (inv.step step) later ran comes room long
        exact ⟨l :: first, rest, s₂, rfl, by simp [step, ran], claimed⟩
      by_cases own : ∃ act, l = .thread t act
      · obtain ⟨act, rfl⟩ := own
        rcases comes.own room step with claimed | ⟨comes, room⟩
        · exact ⟨[.thread t act], labels, s₁, rfl, by simp [step], claimed⟩
        · exact goesOn comes room (by omega)
      · have other : ∀ t' act, l ≠ .thread t' act := by
          rintro t' act rfl
          have same : t' = t := lone _ (List.mem_cons_self ..)
          exact own ⟨act, by rw [same]⟩
        obtain ⟨comes, room⟩ := inv.others step other comes room
        refine goesOn comes room ?_
        rwa [List.count_cons_of_ne (other t .go)] at long

/-- Its steps can be taken, where nobody has left it the lock to wait for. -/
theorem System.ComesTo.exists_run {steps : Nat} (comes : s.ComesTo t w steps)
    (room : (s.workers w).hasRoom = true)
    (free : ∀ c, s.threads t = .lock c → s.submitLock = none) :
    ∃ k s₁, k ≤ steps ∧ (engine alignedOnly).run (List.replicate k (.thread t .go)) s = some s₁ ∧
      (s₁.threads t).Claimed := by
  induction steps generalizing s with
  | zero => obtain ⟨tries, c, -, ⟨-, few⟩ | ⟨-, few⟩⟩ := comes <;> omega
  | succ steps ih =>
      have goes : ∃ s', s.threadStep alignedOnly t .go = some s' ∧
          ∀ c, s'.threads t = .lock c → s'.submitLock = none := by
        obtain ⟨tries, c, -, ⟨pc, -⟩ | ⟨pc, -⟩⟩ := comes
        · refine ⟨{ s with submitLock := some t }.setThread t (.claim c), ?_, fun c' pc' => ?_⟩
          · simp [threadStep, pc, free c pc]
          · simp [setThread] at pc'
        · by_cases full : (s.workers (route s.rrNext)).hasRoom = true
          · refine ⟨{ s with rrNext := s.rrNext + 1#32 }.setThread t (.fill c (route s.rrNext)
              (s.workers (route s.rrNext)).queueHead), ?_, fun c' pc' => ?_⟩
            · simp [threadStep, pc, full]
            · simp [setThread] at pc'
          · refine ⟨{ s with rrNext := s.rrNext + 1#32, submitLock := none }.setThread t (.lock c), ?_,
              fun _ _ => rfl⟩
            simp [threadStep, pc, full]
      obtain ⟨s', step, free'⟩ := goes
      have stepped : (engine alignedOnly).step s (.thread t .go) = some s' := step
      rcases comes.own room step with claimed | ⟨comes', room'⟩
      · exact ⟨1, s', by omega, by simp [stepped], claimed⟩
      · obtain ⟨k, s₁, few, ran, claimed⟩ := ih comes' room' free'
        exact ⟨k + 1, s₁, by omega, by simp [List.replicate_succ, stepped, ran], claimed⟩

/-- **A submitter does not go round for ever.** While it is the only one, and some worker has
room, it claims a slot within a number of its steps that depends on the number of workers only;
and it can take them, if the lock is free or its own. -/
theorem claim_finds_room {before : List (Label n ι)} {futures : Nat → Future}
    {bytesRead : Nat → Int} (small : n ≤ 2 ^ 32)
    (start : (engine alignedOnly).run before (setup n ι futures bytesRead) = some s)
    (claiming : (s.threads t).Claiming) (room : (s.workers w).hasRoom = true) :
    (∀ labels s', (∀ l ∈ labels, Lone t l) → (engine alignedOnly).run labels s = some s' →
      4 * n - 2 ≤ labels.count (.thread t .go) → ∃ first rest s₁, labels = first ++ rest ∧
        (engine alignedOnly).run first s = some s₁ ∧ (s₁.threads t).Claimed) ∧
      (s.submitLock = none ∨ s.submitLock = some t → ∃ k s₁, k ≤ 4 * n - 2 ∧
        (engine alignedOnly).run (List.replicate k (.thread t .go)) s = some s₁ ∧
        (s₁.threads t).Claimed) := by
  have inv := EngineInv.run start
  refine ⟨fun labels s' lone ran long => ?_, fun free => ?_⟩
  · exact inv.claims lone ran (s.comesTo small claiming w) room long
  · refine (s.comesTo small claiming w).exists_run room fun c pc => ?_
    refine free.resolve_right fun holds => ?_
    have critical := (inv.lock t).mpr holds
    rw [pc] at critical
    cases critical

end Steps

/-- A read is to be submitted to two workers. -/
def calledRead : List (Label 2 Unit) := [.thread () (.call ⟨false, 1, 4096, .async ⟨512, 0, 0, 7⟩⟩)]

/-- It has claimed a slot past at most six steps. -/
theorem claim_finds_room_calledRead : ∃ s : System 2 Unit, ∃ k s₁, k ≤ 6 ∧
    (engine false).run (List.replicate k (.thread () .go)) s = some s₁ ∧ (s₁.threads ()).Claimed := by
  have facts : ((engine false).run calledRead (setup 2 Unit noFutures fun _ => 0)).map (fun s =>
      (s.threads (), (s.workers 0).hasRoom, s.submitLock)) =
      some (.lock ⟨false, 1, 4096, .async ⟨512, 0, 0, 7⟩⟩, true, none) := by decide +kernel
  obtain ⟨s, ran, facts⟩ := Option.map_eq_some_iff.mp facts
  simp only [Prod.mk.injEq] at facts
  obtain ⟨pc, room, free⟩ := facts
  exact ⟨s, (claim_finds_room (by decide) ran ⟨_, .inl pc⟩ room).2 (.inl free)⟩

end OpenDS.Engine
