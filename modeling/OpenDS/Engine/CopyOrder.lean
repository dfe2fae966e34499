import OpenDS.Engine.GateOrder

/-!
# The copies of a stream

With gate writes, `submit_stream_op` enqueues the copy of a read past the lock, so that the
gate of a later operation can be enqueued first. As long as this does not happen, no copy
stands between the gate write of a turn and its wait (`CopyOrder`), and then the stream
comes to a copy only when every operation that it has reached is completed.
-/

set_option autoImplicit false

namespace OpenDS.Engine

open OpenDS.Library OpenDS.Aisio

variable {n : Nat} {ι : Type} {s s' : System n ι} {j turn : Nat} {w : Fin n} {k : Nat} {f : OpFields}
  {t : ι}

/-! ## Threads -/

/-- The thread has published a read of the stream and has its copy still to enqueue. -/
def SubmitPc.Owes (j : Nat) (pc : SubmitPc n) : Prop := pc = .unlock (some j) ∨ pc = .copy j

/-- The thread has enqueued the gate of an operation of the stream that it has not published. -/
def SubmitPc.Gated (j : Nat) (pc : SubmitPc n) : Prop :=
  pc.booking j = some .announced ∨ pc.booking j = some .awaited

theorem SubmitPc.Gated.critical {pc : SubmitPc n} (gated : pc.Gated j) : pc.critical = true := by
  cases pc with
  | idle | lock | copy => rcases gated with gated | gated <;> cases gated
  | _ => rfl

/-- A thread that is about to enqueue a wait has enqueued its gate. -/
theorem SubmitPc.gated_wait {head : BitVec 32} (ticket : f.ticket = some (j, turn)) :
    (SubmitPc.wait f w head).Gated j := by
  left
  rw [SubmitPc.booking, ticket]
  exact if_pos rfl

/-- No gate of the stream is enqueued while the copy of an earlier read of it is still to be
enqueued. -/
def GatesBehindCopies (j : Nat) (s : System n ι) : Label n ι → Prop
  | .thread t (.accel true) => ∀ fields w head turn, s.threads t = .gate fields w head →
      fields.ticket = some (j, turn) → ∀ u, ¬ (s.threads u).Owes j
  | _ => True

/-! ## What holds of the copies -/

/-- **No copy stands between a gate and its wait.** -/
structure CopyOrder (s : System n ι) (j : Nat) : Prop where
  kinds : ∀ c ∈ (s.streams j).commands, (∃ turn, c = .write turn) ∨ (∃ turn, c = .wait turn) ∨ c = .copy
  behind : ∀ before after turn, (s.streams j).commands = before ++ .copy :: after →
    .wait turn ∈ after → .write turn ∈ after
  gate : ∀ t fields w head turn, s.threads t = .wait fields w head →
    fields.ticket = some (j, turn) → ∀ before after,
      (s.streams j).commands = before ++ .copy :: after → .write turn ∈ after
  apart : ∀ t u, (s.threads t).Gated j → ¬ (s.threads u).Owes j

theorem System.setThread_self [DecidableEq ι] (s : System n ι) (t : ι) (pc : SubmitPc n) :
    (s.setThread t pc).threads t = pc := Function.update_self ..

theorem System.setThread_of_ne [DecidableEq ι] (s : System n ι) {t u : ι} {pc : SubmitPc n}
    (other : u ≠ t) : (s.setThread t pc).threads u = s.threads u := Function.update_of_ne other ..

/-- What is enqueued past a copy. -/
theorem append_eq_split {α : Type} {old before after : List α} {c x : α}
    (split : old ++ [c] = before ++ x :: after) :
    (after = [] ∧ c = x ∧ old = before) ∨
      ∃ rest, after = rest ++ [c] ∧ old = before ++ x :: rest := by
  rcases List.eq_nil_or_concat after with rfl | ⟨rest, last, rfl⟩
  · obtain ⟨same, here⟩ := List.append_inj' split rfl
    exact .inl ⟨rfl, (List.cons.inj here).1, same⟩
  · rw [List.concat_eq_append, ← List.cons_append, ← List.append_assoc] at split
    obtain ⟨same, here⟩ := List.append_inj' split rfl
    obtain rfl := (List.cons.inj here).1
    exact .inr ⟨rest, List.concat_eq_append, same⟩

/-- What is enqueued to a stream. -/
theorem enqueue_commands (s : System n ι) (i j : Nat) (c : StreamCommand n) :
    ((s.enqueue i c).streams j).commands =
      if j = i then (s.streams j).commands ++ [c] else (s.streams j).commands := by
  simp only [System.enqueue, System.setStream, Function.update_apply]
  split
  · rename_i here
    rw [here]
  · rfl

/-- A thread takes no command from a stream. -/
theorem ThreadEffect.commands [DecidableEq ι] [NeZero n] {alignedOnly : Bool}
    (effect : ThreadEffect alignedOnly s t s') (j : Nat) :
    ∃ more, (s'.streams j).commands = (s.streams j).commands ++ more := by
  have enqueued : ∀ (i : Nat) (c : StreamCommand n),
      ∃ more, ((s.enqueue i c).streams j).commands = (s.streams j).commands ++ more := by
    intro i c
    rw [enqueue_commands]
    split
    · exact ⟨[c], rfl⟩
    · exact ⟨[], (List.append_nil _).symm⟩
  cases effect with
  | fillStream c v head a turn pc args next =>
      exact ⟨[], (setStream_commands s (by rfl) j).trans (List.append_nil _).symm⟩
  | park | write | wait | copy => exact enqueued _ _
  | _ => exact ⟨[], (List.append_nil _).symm⟩

/-- A stream takes its own first command, and leaves the other streams alone. -/
theorem GpuEffect.commands {i : Nat} (effect : GpuEffect s i s')
    (unparked : j = i → ∀ w slot, .park w slot ∉ (s.streams i).commands) :
    (s'.streams j).commands = (s.streams j).commands ∨
      j = i ∧ ∃ c, (s.streams j).commands = c :: (s'.streams j).commands := by
  by_cases here : j = i
  · subst here
    right
    refine ⟨rfl, ?_⟩
    cases effect with
    | park w slot rest a turn front args =>
        refine absurd ?_ (unparked rfl w slot)
        rw [front]
        exact List.mem_cons_self ..
    | write turn rest front | wait turn rest front | spin target turn rest front | copy rest front =>
        rw [front, System.setStream]
        simp only [Function.update_self]
        exact ⟨_, rfl⟩
  · left
    cases effect with
    | park w slot rest a turn front args =>
        rw [System.setGate, setStream_commands _ (by rfl)]
        simp only [System.setStream, Function.update_of_ne here]
    | _ => simp only [System.setStream, Function.update_of_ne here]

namespace CopyOrder

theorem start (futures : Nat → Future) (bytesRead : Nat → Int) :
    CopyOrder (setup n ι futures bytesRead) j := by
  refine ⟨by simp [setup], fun before after turn split => ?_, fun t fields w head turn pc => ?_,
    fun t u gated => ?_⟩
  · cases before <;> cases split
  · cases pc
  · rcases gated with gated | gated <;> cases gated

/-- The stream goes on. -/
theorem drop (order : CopyOrder s j) (threads : s'.threads = s.threads)
    (commands : ∃ front, (s.streams j).commands = front ++ (s'.streams j).commands) :
    CopyOrder s' j := by
  obtain ⟨front, commands⟩ := commands
  have whole : ∀ {before after}, (s'.streams j).commands = before ++ .copy :: after →
      (s.streams j).commands = (front ++ before) ++ .copy :: after := by
    intro before after split
    rw [commands, split, List.append_assoc]
  refine ⟨fun c member => order.kinds c ?_, fun before after turn split => order.behind _ _ turn (whole split),
    fun t fields w head turn pc ticket before after split => ?_, fun t u => ?_⟩
  · rw [commands]
    exact List.mem_append_right _ member
  · rw [threads] at pc
    exact order.gate t fields w head turn pc ticket _ _ (whole split)
  · rw [threads]
    exact order.apart t u

/-- A thread goes on, and enqueues nothing to the stream. -/
theorem goOn [DecidableEq ι] (order : CopyOrder s j) (pc : SubmitPc n)
    (threads : s'.threads = Function.update s.threads t pc)
    (commands : (s'.streams j).commands = (s.streams j).commands)
    (waits : ∀ fields w head, pc = .wait fields w head → fields.ticket.map Prod.fst ≠ some j)
    (gated : pc.Gated j → (s.threads t).Gated j) (owes : pc.Owes j → (s.threads t).Owes j) :
    CopyOrder s' j := by
  have gatedBefore : ∀ u, (s'.threads u).Gated j → (s.threads u).Gated j := by
    intro u
    rw [threads]
    by_cases here : u = t
    · subst here
      rw [Function.update_self]
      exact gated
    · rw [Function.update_of_ne here]
      exact id
  have owedBefore : ∀ u, (s'.threads u).Owes j → (s.threads u).Owes j := by
    intro u
    rw [threads]
    by_cases here : u = t
    · subst here
      rw [Function.update_self]
      exact owes
    · rw [Function.update_of_ne here]
      exact id
  refine ⟨fun c member => order.kinds c (commands ▸ member), fun before after turn split =>
    order.behind before after turn (commands ▸ split),
    fun u fields w head turn at' ticket before after split => ?_,
    fun u v gated owes => order.apart u v (gatedBefore u gated) (owedBefore v owes)⟩
  rw [threads] at at'
  by_cases here : u = t
  · subst here
    rw [Function.update_self] at at'
    exact absurd (by rw [ticket]; rfl) (waits fields w head at')
  · rw [Function.update_of_ne here] at at'
    exact order.gate u fields w head turn at' ticket before after (commands ▸ split)

/-- Only the holder of the lock has enqueued a gate of what it has not published. -/
theorem gated_eq (inv : EngineInv s) (critical : (s.threads t).critical = true) {u : ι}
    (gated : (s.threads u).Gated j) : u = t := by
  have holds := inv.holder gated.critical
  rw [inv.holder critical] at holds
  exact (Option.some.inj holds).symm

section Threads

variable [DecidableEq ι]

/-- The holder of the lock enqueues a gate or a wait. -/
theorem enqueues (order : CopyOrder s j) (inv : EngineInv s)
    (critical : (s.threads t).critical = true) (pc : SubmitPc n) {c : StreamCommand n}
    (threads : s'.threads = Function.update s.threads t pc)
    (commands : (s'.streams j).commands = (s.streams j).commands ++ [c])
    (kind : (∃ turn, c = .write turn) ∨ ∃ turn, c = .wait turn)
    (behind : ∀ turn, c = .wait turn → ∀ before after,
      (s.streams j).commands = before ++ .copy :: after → .write turn ∈ after)
    (waits : ∀ fields w head turn, pc = .wait fields w head → fields.ticket = some (j, turn) →
      c = .write turn)
    (free : ¬ pc.Owes j) (alone : ∀ u, ¬ (s.threads u).Owes j) : CopyOrder s' j := by
  -- What is behind a copy is what was, and what is enqueued now.
  have split' : ∀ {before after}, (s'.streams j).commands = before ++ .copy :: after →
      ∃ rest, after = rest ++ [c] ∧ (s.streams j).commands = before ++ .copy :: rest := by
    intro before after split
    rw [commands] at split
    rcases append_eq_split split with ⟨-, rfl, -⟩ | there
    · rcases kind with ⟨turn, no⟩ | ⟨turn, no⟩ <;> cases no
    · exact there
  have owes : ∀ u, ¬ (s'.threads u).Owes j := by
    intro u
    rw [threads]
    by_cases here : u = t
    · subst here
      rw [Function.update_self]
      exact free
    · rw [Function.update_of_ne here]
      exact alone u
  refine ⟨fun c' member => ?_, fun before after turn split wait => ?_,
    fun u fields w head turn at' ticket before after split => ?_, fun u v _ => owes v⟩
  · rw [commands] at member
    rcases List.mem_append.mp member with old | new
    · exact order.kinds c' old
    · rw [List.mem_singleton.mp new]
      exact kind.imp_right .inl
  · obtain ⟨rest, rfl, whole⟩ := split' split
    refine List.mem_append_left _ ?_
    rcases List.mem_append.mp wait with old | new
    · exact order.behind before rest turn whole old
    · exact behind turn (List.mem_singleton.mp new).symm before rest whole
  · obtain ⟨rest, rfl, -⟩ := split' split
    refine List.mem_append_right _ (List.mem_singleton.mpr ?_)
    rw [threads] at at'
    by_cases here : u = t
    · subst here
      rw [Function.update_self] at at'
      exact (waits fields w head turn at' ticket).symm
    · -- No other thread is inside the critical section.
      rw [Function.update_of_ne here] at at'
      exact absurd (gated_eq inv critical (by rw [at']; exact SubmitPc.gated_wait ticket)) here

/-- A thread enqueues the copy that it owes. -/
theorem copies (order : CopyOrder s j) {pc : SubmitPc n} (owes : (s.threads t).Owes j)
    (threads : s'.threads = Function.update s.threads t pc)
    (commands : (s'.streams j).commands = (s.streams j).commands ++ [.copy])
    (out : pc = .idle) : CopyOrder s' j := by
  subst out
  have before : ∀ u pc', s'.threads u = pc' → pc' ≠ .idle → s.threads u = pc' := by
    rintro u pc' rfl busy
    rw [threads] at busy ⊢
    by_cases here : u = t
    · subst here
      rw [Function.update_self] at busy
      exact absurd rfl busy
    · rw [Function.update_of_ne here]
  refine ⟨fun c member => ?_, fun before after turn split wait => ?_,
    fun u fields w head turn at' ticket => ?_, fun u v gated owes' => ?_⟩
  · rw [commands] at member
    rcases List.mem_append.mp member with old | new
    · exact order.kinds c old
    · exact .inr (.inr (List.mem_singleton.mp new))
  · rw [commands] at split
    rcases append_eq_split split with ⟨rfl, -, -⟩ | ⟨rest, rfl, whole⟩
    · cases wait
    · refine List.mem_append_left _ (order.behind before rest turn whole ?_)
      rcases List.mem_append.mp wait with old | new
      · exact old
      · cases List.mem_singleton.mp new
  · have at' := before u _ at' (by simp)
    exact absurd owes (order.apart u t (by rw [at']; exact SubmitPc.gated_wait ticket))
  · have gated' := gated
    have busy : s'.threads u ≠ .idle := by
      intro idle
      rw [idle] at gated'
      rcases gated' with no | no <;> cases no
    rw [← before u _ rfl busy] at gated
    exact order.apart u t gated owes

/-- **A step of a thread keeps the copies in order**, unless it enqueues a gate before a copy
that is still to be enqueued. -/
theorem thread [NeZero n] (order : CopyOrder s j) (inv : EngineInv s)
    (effect : ThreadEffect false s t s')
    (gates : ∀ fields w head turn, s.threads t = .gate fields w head →
      fields.ticket = some (j, turn) → s'.threads t = .wait fields w head →
      ∀ u, ¬ (s.threads u).Owes j) : CopyOrder s' j := by
  -- A step that books nothing and owes nothing.
  have still : ∀ pc : SubmitPc n, s'.threads = Function.update s.threads t pc →
      (s'.streams j).commands = (s.streams j).commands → pc.booking j = none ∨ pc.booking j = some .taken →
      ¬ pc.Owes j → CopyOrder s' j := by
    intro pc threads commands none free
    have ungated : ¬ pc.Gated j := by
      rintro (gated | gated) <;> rw [gated] at none <;> rcases none with no | no <;> cases no
    refine order.goOn pc threads commands (fun fields w head same ticket => ungated ?_)
      (fun gated => absurd gated ungated) fun owes => absurd owes free
    left
    rw [same, SubmitPc.booking, if_pos ticket]
  cases effect with
  | callAsync c a pc args => exact still (.lock c) rfl rfl (.inl rfl) (by rintro (no | no) <;> cases no)
  | callStream c pc => exact still (.lock c) rfl rfl (.inl rfl) (by rintro (no | no) <;> cases no)
  | lock c pc free => exact still (.claim c) rfl rfl (.inl rfl) (by rintro (no | no) <;> cases no)
  | claim c pc room => exact still (.fill c _ _) rfl rfl (.inl rfl) (by rintro (no | no) <;> cases no)
  | full c pc => exact still (.lock c) rfl rfl (.inl rfl) (by rintro (no | no) <;> cases no)
  | fillAsync c v head a pc args =>
      exact still (.pend _ v head) rfl rfl (.inl rfl) (by rintro (no | no) <;> cases no)
  | fillStream c v head a turn pc args next =>
      refine still (.gate _ v head) rfl ?_ ?_ (by rintro (no | no) <;> cases no)
      · simp only [System.setThread, System.setWorker, System.setStream, Function.update_apply]
        split
        · rename_i here
          rw [here]
        · rfl
      · rw [SubmitPc.booking]
        split
        · exact .inr rfl
        · exact .inl rfl
  | fails fields v head pc =>
      exact still (.unlock none) rfl rfl (.inl rfl) (by rintro (no | no) <;> cases no)
  | park fields v head a turn pc args aligned => cases aligned
  | write fields v head a turn pc args aligned =>
      have critical : (s.threads t).critical = true := by rw [pc]; rfl
      have ticket := ticket_eq args
      by_cases here : j = a.stream
      · subst here
        have alone := gates fields v head turn pc ticket (Function.update_self _ _ _)
        refine order.enqueues inv critical (.wait fields v head) (c := .write turn) rfl
          ((enqueue_commands s _ _ _).trans (if_pos rfl)) (.inl ⟨turn, rfl⟩) (fun turn no => by cases no)
          (fun fields' w' head' turn' same ticket' => ?_) (by rintro (no | no) <;> cases no) alone
        cases same
        cases ticket.symm.trans ticket'
        rfl
      · refine order.goOn (.wait fields v head) rfl
          ((enqueue_commands s _ _ _).trans (if_neg here)) (fun fields' w' head' same same' => ?_)
          (fun gated => ?_) (by rintro (no | no) <;> cases no)
        · cases same
          rw [ticket] at same'
          exact here (Option.some.inj same').symm
        · rw [SubmitPc.Gated, SubmitPc.booking, booking_ticket ticket, if_neg here] at gated
          rcases gated with no | no <;> cases no
  | wait fields v head a turn pc args =>
      have critical : (s.threads t).critical = true := by rw [pc]; rfl
      have ticket := ticket_eq args
      by_cases here : j = a.stream
      · subst here
        refine order.enqueues inv critical (.pend fields v head) (c := .wait turn) rfl
          ((enqueue_commands s _ _ _).trans (if_pos rfl)) (.inr ⟨turn, rfl⟩) ?_
          (fun fields' w' head' turn' same => by cases same) (by rintro (no | no) <;> cases no)
          fun u => order.apart t u (by rw [pc]; exact SubmitPc.gated_wait ticket)
        rintro turn' same before after split
        cases same
        exact order.gate t fields v head turn pc ticket before after split
      · refine order.goOn (.pend fields v head) rfl
          ((enqueue_commands s _ _ _).trans (if_neg here)) (fun fields' w' head' same => by cases same)
          (fun gated => ?_) (by rintro (no | no) <;> cases no)
        rw [SubmitPc.Gated, SubmitPc.booking, booking_ticket ticket, if_neg here] at gated
        rcases gated with no | no <;> cases no
  | pend fields v head pc =>
      refine order.goOn (.publish fields v head) rfl rfl
        (fun fields' w' head' same => by cases same) (fun gated => ?_) (by rintro (no | no) <;> cases no)
      rw [pc]
      exact gated
  | publish fields v head pc =>
      have critical : (s.threads t).critical = true := by rw [pc]; rfl
      -- The thread that publishes is the only one with a gate enqueued, and leaves with none.
      have ungated : ∀ u, ¬ (((s.setWorker v ((s.workers v).publish head)).setThread t
          (.unlock (copyOf false fields))).threads u).Gated j := by
        intro u gated
        by_cases here : u = t
        · subst here
          rw [System.setThread_self] at gated
          rcases gated with no | no <;> cases no
        · rw [System.setThread_of_ne _ here] at gated
          exact here (gated_eq inv critical gated)
      refine ⟨order.kinds, order.behind, fun u fields' w' head' turn at' ticket => ?_,
        fun u u' gated => absurd gated (ungated u)⟩
      refine absurd ?_ (ungated u)
      rw [at']
      exact SubmitPc.gated_wait ticket
  | unlock copy pc' pc next =>
      rcases next with rfl | ⟨i, rfl, rfl⟩
      · exact still .idle rfl rfl (.inl rfl) (by rintro (no | no) <;> cases no)
      · refine order.goOn (.copy i) rfl rfl (fun fields' w' head' same => by cases same)
          (fun gated => ?_) fun owes => ?_
        · rcases gated with no | no <;> cases no
        · rw [pc]
          rcases owes with no | same
          · cases no
          · cases same
            exact .inl rfl
  | copy i pc =>
      by_cases here : j = i
      · subst here
        exact order.copies (t := t) (.inr pc) rfl ((enqueue_commands s _ _ _).trans (if_pos rfl)) rfl
      · exact still .idle rfl ((enqueue_commands s _ _ _).trans (if_neg here)) (.inl rfl)
          (by rintro (no | no) <;> cases no)
  | lost i pc => exact still .idle rfl rfl (.inl rfl) (by rintro (no | no) <;> cases no)

end Threads

/-- With gate writes no callback is parked on the stream. -/
theorem unparked (order : CopyOrder s j) (w : Fin n) (slot : Fin queueSize) :
    .park w slot ∉ (s.streams j).commands := by
  intro member
  rcases order.kinds _ member with ⟨turn, no⟩ | ⟨turn, no⟩ | no <;> cases no

/-! ## Steps -/

/-- **Every step keeps the copies in order**, unless it enqueues a gate before a copy that is
still to be enqueued. -/
theorem step [DecidableEq ι] [NeZero n] {l : Label n ι} (order : CopyOrder s j) (inv : EngineInv s)
    (gates : GatesBehindCopies j s l) (step : (engine false).step s l = some s') : CopyOrder s' j := by
  cases l with
  | thread t act =>
      refine order.thread inv (System.threadStep_effect step) fun fields w head turn pc ticket goesOn => ?_
      have step : s.threadStep false t act = some s' := step
      cases act with
      | accel ok =>
          cases ok with
          | true => exact gates fields w head turn pc ticket
          | false =>
              -- The gate has not been enqueued.
              simp only [System.threadStep, pc] at step
              split at step
              · cases step
              · cases step
                simp [System.enqueued, System.setThread] at goesOn
      | _ => simp only [System.threadStep, pc, reduceCtorEq] at step
  | worker w c =>
      obtain ⟨event, worker, -, rfl⟩ := System.workerStep_effect step
      refine order.drop ((s.setWorker w (worker.record event)).apply_frame event).1 ⟨[], ?_⟩
      exact (apply_commands (s.setWorker w (worker.record event)) event j).symm
  | gpu i =>
      have effect := System.gpuStep_effect step
      rcases effect.commands (j := j) (fun here => here ▸ order.unparked) with same | ⟨-, c, front⟩
      · exact order.drop effect.frame.1 ⟨[], same.symm⟩
      · exact order.drop effect.frame.1 ⟨[c], front⟩
  | stop =>
      cases step
      exact order.drop rfl ⟨[], rfl⟩

/-! ## Where the copies stand -/

/-- **The stream does not come to a copy while an operation of it is served.** -/
theorem not_copying (order : CopyOrder s j) (safe : GateSafe s j) (has : s.HasTurn j turn w k f)
    (service : s.InService w k) (rest : List (StreamCommand n)) :
    (s.streams j).commands ≠ .copy :: rest := by
  intro front
  have unfinished : ¬ ∀ c ∈ (s.streams j).commands, s.awaited c ≠ some turn := by
    intro gone
    obtain ⟨n, -, completed⟩ := safe.passed w k f turn has gone
    exact service.2 ⟨_, n, completed⟩
  refine unfinished fun c member awaited => ?_
  rcases order.kinds c member with ⟨turn', rfl⟩ | ⟨turn', rfl⟩ | rfl
  · cases awaited
  · cases awaited
    -- The wait is behind the copy, and so is the gate.
    have later : .wait turn ∈ rest := by
      rw [front] at member
      exact (List.mem_cons.mp member).resolve_left (by simp)
    have gate := order.behind [] rest turn front later
    refine safe.reached w k f turn has service.1 (.write turn) ?_ rfl
    rw [front]
    exact List.mem_cons_of_mem _ gate
  · cases awaited

/-- **When the stream comes to a copy, the operations that it has reached are completed.** -/
theorem completed_of_copy (order : CopyOrder s j) (safe : GateSafe s j)
    (has : s.HasTurn j turn w k f) {rest : List (StreamCommand n)}
    (front : (s.streams j).commands = .copy :: rest) (reached : s.Reached j turn) :
    ∃ m, .stored f.target m ∈ (s.workers w).history k ∧
      .completed f.target m ∈ (s.workers w).history k := by
  refine safe.passed w k f turn has fun c member awaited => ?_
  rcases order.kinds c member with ⟨turn', rfl⟩ | ⟨turn', rfl⟩ | rfl
  · cases awaited
  · cases awaited
    have later : .wait turn ∈ rest := by
      rw [front] at member
      exact (List.mem_cons.mp member).resolve_left (by simp)
    refine reached.2 (.write turn) ?_ rfl
    rw [front]
    exact List.mem_cons_of_mem _ (order.behind [] rest turn front later)
  · cases awaited

end CopyOrder

end OpenDS.Engine
