import OpenDS.Engine.GaplessTurns

/-!
# Where the copy of a read stands

The copy of a read is what its stream comes to next once it has passed the gate write of the
read: it stands before the gate write of any later operation, or is still to be enqueued
(`CopiesDue`). So a read whose gate the stream has passed, and which is the last one, has its
copy before the stream until the stream has run it.
-/

set_option autoImplicit false

namespace OpenDS.Engine

open OpenDS.Library OpenDS.Aisio

variable {n : Nat} {ι : Type} {s s' : System n ι} {j turn : Nat} {w : Fin n} {k : Nat} {f : OpFields}
  {t : ι} {owed owed' : Prop} {l : List (StreamCommand n)}

/-! ## What comes next -/

/-- Of gate writes and copies, a copy comes next, among the commands or, if one is owed, behind
them. -/
def NextIsCopy (owed : Prop) : List (StreamCommand n) → Prop
  | [] => owed
  | .copy :: _ => True
  | .write _ :: _ => False
  | _ :: rest => NextIsCopy owed rest

theorem nextIsCopy_append (more : List (StreamCommand n)) :
    NextIsCopy owed (l ++ more) ↔ NextIsCopy (NextIsCopy owed more) l := by
  induction l with
  | nil => exact Iff.rfl
  | cons c rest ih =>
      cases c with
      | copy | write => exact Iff.rfl
      | _ => exact ih

theorem NextIsCopy.mono (next : NextIsCopy owed l) (implies : owed → owed') : NextIsCopy owed' l := by
  induction l with
  | nil => exact implies next
  | cons c rest ih =>
      cases c with
      | copy => trivial
      | write => exact next
      | _ => exact ih next

/-- What comes next past a command that is no copy. -/
theorem NextIsCopy.tail {c : StreamCommand n} (next : NextIsCopy owed (c :: l)) (other : c ≠ .copy) :
    NextIsCopy owed l := by
  cases c with
  | copy => exact absurd rfl other
  | write => exact next.elim
  | _ => exact next

/-- The copy behind the gate write of a turn is the next one there, or past the gate write. -/
def CopyDue (owed : Prop) (turn : Nat) (l : List (StreamCommand n)) : Prop :=
  ∃ rest, .write turn ∉ rest ∧ NextIsCopy owed rest ∧
    (l = rest ∨ ∃ before, l = before ++ .write turn :: rest)

theorem CopyDue.append (due : CopyDue owed turn l) {more : List (StreamCommand n)}
    (later : .write turn ∉ more) (next : owed → NextIsCopy owed' more) :
    CopyDue owed' turn (l ++ more) := by
  obtain ⟨rest, passed, there, place⟩ := due
  refine ⟨rest ++ more, ?_, (nextIsCopy_append more).mpr (there.mono next), ?_⟩
  · rw [List.mem_append, not_or]
    exact ⟨passed, later⟩
  · rcases place with rfl | ⟨before, rfl⟩
    · exact .inl rfl
    · exact .inr ⟨before, by rw [List.append_assoc, List.cons_append]⟩

theorem CopyDue.mono (due : CopyDue owed turn l) (implies : owed → owed') : CopyDue owed' turn l := by
  obtain ⟨rest, passed, there, place⟩ := due
  exact ⟨rest, passed, there.mono implies, place⟩

/-- The stream goes on, but not past a copy behind the gate write. -/
theorem CopyDue.tail {c : StreamCommand n} (due : CopyDue owed turn (c :: l))
    (other : c = .copy → .write turn ∈ l) : CopyDue owed turn l := by
  obtain ⟨rest, passed, there, rfl | ⟨before, place⟩⟩ := due
  · have copyless : c ≠ .copy := fun copy => passed (List.mem_cons_of_mem _ (other copy))
    exact ⟨l, fun member => passed (List.mem_cons_of_mem _ member), there.tail copyless, .inl rfl⟩
  · cases before with
    | nil =>
        cases place
        exact ⟨l, passed, there, .inl rfl⟩
    | cons c' before =>
        cases place
        exact ⟨rest, passed, there, .inr ⟨before, rfl⟩⟩

/-- The gate write has been passed. -/
theorem CopyDue.next (due : CopyDue owed turn l) (passed : .write turn ∉ l) : NextIsCopy owed l := by
  obtain ⟨rest, -, there, rfl | ⟨before, rfl⟩⟩ := due
  · exact there
  · exact absurd (List.mem_append_right _ (List.mem_cons_self ..)) passed

/-! ## What a step does with the copies -/

/-- A copy of the stream is still to be enqueued. -/
def System.CopyOwed (s : System n ι) (j : Nat) : Prop := ∃ t, (s.threads t).Owes j

/-- What a step does to the commands of a stream. -/
inductive CopyStep (s s' : System n ι) (j : Nat) : Prop where
  | still : (s'.streams j).commands = (s.streams j).commands → (s.CopyOwed j → s'.CopyOwed j) →
      CopyStep s s' j
  | pops (c : StreamCommand n) : (s.streams j).commands = c :: (s'.streams j).commands →
      (s.CopyOwed j → s'.CopyOwed j) → CopyStep s s' j
  | gates (turn : Nat) (t : ι) (f : OpFields) (w : Fin n) (head : BitVec 32) :
      (s'.streams j).commands = (s.streams j).commands ++ [.write turn] → ¬ s.CopyOwed j →
      s.threads t = .gate f w head → f.ticket = some (j, turn) → CopyStep s s' j
  | waits (turn : Nat) : (s'.streams j).commands = (s.streams j).commands ++ [.wait turn] →
      (s.CopyOwed j → s'.CopyOwed j) → CopyStep s s' j
  | copies : (s'.streams j).commands = (s.streams j).commands ++ [.copy] → CopyStep s s' j

/-- A copy that is owed is owed by a thread that does not take the step, or still by this one. -/
theorem System.CopyOwed.keep [DecidableEq ι] {pc : SubmitPc n} (owed : s.CopyOwed j)
    (threads : s'.threads = Function.update s.threads t pc)
    (own : (s.threads t).Owes j → pc.Owes j) : s'.CopyOwed j := by
  obtain ⟨u, owes⟩ := owed
  refine ⟨u, ?_⟩
  rw [threads]
  by_cases here : u = t
  · subst here
    rw [Function.update_self]
    exact own owes
  · rw [Function.update_of_ne here]
    exact owes

/-- **A step of a thread**, if it enqueues no gate before a copy and every copy. -/
theorem copyStep_of_thread [DecidableEq ι] [NeZero n] (effect : ThreadEffect false s t s')
    (gates : ∀ fields w head turn, s.threads t = .gate fields w head →
      fields.ticket = some (j, turn) → s'.threads t = .wait fields w head →
      ∀ u, ¬ (s.threads u).Owes j)
    (unlocks : ∀ i, s.threads t = .unlock (some i) → s'.threads t = .copy i)
    (copies : ∀ i, s.threads t = .copy i →
      (s'.streams i).commands = (s.streams i).commands ++ [.copy]) : CopyStep s s' j := by
  -- A step of a thread that owes nothing.
  have still : ∀ (pc pc' : SubmitPc n), s.threads t = pc → s'.threads = Function.update s.threads t pc' →
      (s'.streams j).commands = (s.streams j).commands → ¬ pc.Owes j → CopyStep s s' j := by
    intro pc pc' at' threads commands free
    exact .still commands fun owed => owed.keep threads fun owes => absurd (at' ▸ owes) free
  cases effect with
  | callAsync c a pc args => exact still _ (.lock c) pc rfl rfl (by rintro (no | no) <;> cases no)
  | callStream c pc => exact still _ (.lock c) pc rfl rfl (by rintro (no | no) <;> cases no)
  | lock c pc free => exact still _ (.claim c) pc rfl rfl (by rintro (no | no) <;> cases no)
  | claim c pc room => exact still _ (.fill c _ _) pc rfl rfl (by rintro (no | no) <;> cases no)
  | full c pc => exact still _ (.lock c) pc rfl rfl (by rintro (no | no) <;> cases no)
  | fillAsync c v head a pc args =>
      exact still _ (.pend _ v head) pc rfl rfl (by rintro (no | no) <;> cases no)
  | fillStream c v head a turn pc args next =>
      refine still _ (.gate _ v head) pc rfl ?_ (by rintro (no | no) <;> cases no)
      exact setStream_commands s (by rfl) j
  | fails fields v head pc =>
      rcases pc with pc | pc <;> exact still _ (.unlock none) pc rfl rfl (by rintro (no | no) <;> cases no)
  | park fields v head a turn pc args aligned => cases aligned
  | write fields v head a turn pc args aligned =>
      by_cases here : j = a.stream
      · subst here
        refine .gates turn t fields v head ((enqueue_commands s _ _ _).trans (if_pos rfl)) ?_ pc
          (ticket_eq args)
        rintro ⟨u, owes⟩
        exact gates fields v head turn pc (ticket_eq args) (Function.update_self _ _ _) u owes
      · exact still _ (.wait fields v head) pc rfl ((enqueue_commands s _ _ _).trans (if_neg here))
          (by rintro (no | no) <;> cases no)
  | wait fields v head a turn pc args =>
      by_cases here : j = a.stream
      · subst here
        refine .waits turn ((enqueue_commands s _ _ _).trans (if_pos rfl)) fun owed =>
          @System.CopyOwed.keep n ι s _ _ t _ (.pend fields v head) owed rfl fun owes => ?_
        rw [pc] at owes
        rcases owes with no | no <;> cases no
      · exact still _ (.pend fields v head) pc rfl ((enqueue_commands s _ _ _).trans (if_neg here))
          (by rintro (no | no) <;> cases no)
  | pend fields v head pc =>
      exact still _ (.publish fields v head) pc rfl rfl (by rintro (no | no) <;> cases no)
  | publish fields v head pc => exact still _ (.unlock _) pc rfl rfl (by rintro (no | no) <;> cases no)
  | unlock copy pc' pc next =>
      refine .still rfl fun owed => @System.CopyOwed.keep n ι s _ j t _ pc' owed rfl fun owes => ?_
      rw [pc] at owes
      rcases owes with same | no
      · cases same
        have goesOn := unlocks j pc
        rw [System.setThread_self] at goesOn
        exact .inr goesOn
      · cases no
  | copy i pc =>
      by_cases here : j = i
      · subst here
        exact .copies ((enqueue_commands s _ _ _).trans (if_pos rfl))
      · refine still _ .idle pc rfl ((enqueue_commands s _ _ _).trans (if_neg here)) ?_
        rintro (no | same)
        · cases no
        · cases same
          exact here rfl
  | lost i pc =>
      have enqueued := copies i pc
      exact absurd (congrArg List.length enqueued) (by simp [System.setThread])

/-- **A step of the engine**, if it enqueues no gate before a copy and every copy. -/
theorem copyStep_of_step [DecidableEq ι] [NeZero n] {l : Label n ι} (order : CopyOrder s j)
    (gates : GatesBehindCopies j s l) (enqueues : Enqueues l)
    (step : (engine false).step s l = some s') : CopyStep s s' j := by
  cases l with
  | thread t act =>
      have effect := System.threadStep_effect step
      have step : s.threadStep false t act = some s' := step
      refine copyStep_of_thread effect (fun fields w head turn pc ticket goesOn => ?_) (fun i pc => ?_)
        fun i pc => ?_
      · cases act with
        | accel ok =>
            obtain rfl : ok = true := enqueues
            exact gates fields w head turn pc ticket
        | _ => simp only [System.threadStep, pc, reduceCtorEq] at step
      · cases act with
        | go =>
            simp only [System.threadStep, pc, Option.some.injEq] at step
            rw [← step]
            exact System.setThread_self _ _ _
        | _ => simp only [System.threadStep, pc, reduceCtorEq] at step
      · cases act with
        | accel ok =>
            obtain rfl : ok = true := enqueues
            simp only [System.threadStep, pc, if_true, Option.some.injEq] at step
            rw [← step]
            exact (enqueue_commands s _ _ _).trans (if_pos rfl)
        | _ => simp only [System.threadStep, pc, reduceCtorEq] at step
  | worker w c =>
      obtain ⟨event, worker, -, rfl⟩ := System.workerStep_effect step
      refine .still (apply_commands (s.setWorker w (worker.record event)) event j) fun owed => ?_
      rw [System.CopyOwed, ((s.setWorker w (worker.record event)).apply_frame event).1]
      exact owed
  | gpu i =>
      have effect := System.gpuStep_effect step
      have owed : s.CopyOwed j → s'.CopyOwed j := by
        rw [System.CopyOwed, System.CopyOwed, effect.frame.1]
        exact id
      rcases effect.commands (j := j) (fun here => here ▸ order.unparked) with same | ⟨-, c, front⟩
      · exact .still same owed
      · exact .pops c front owed
  | stop =>
      cases step
      exact .still rfl id

/-! ## Every read has its copy due -/

/-- **The copy of a read is due**: of one that is published and not completed, and of one that
is about to be published. -/
structure CopiesDue (s : System n ι) (j : Nat) : Prop where
  published : ∀ turn w k f, s.HasTurn j turn w k f → f.isWrite = false →
    ¬ (s.workers w).Completed k → CopyDue (s.CopyOwed j) turn (s.streams j).commands
  gated : ∀ t f turn, (s.threads t).held = some f → (s.threads t).Gated j →
    f.ticket = some (j, turn) → CopyDue True turn (s.streams j).commands

/-- A thread has enqueued its gate if it goes on behind it. -/
theorem gated_of_step [DecidableEq ι] [NeZero n] {l : Label n ι}
    (step : (engine false).step s l = some s') (held : (s'.threads t).held = some f)
    (gated : (s'.threads t).Gated j) (ticket : f.ticket = some (j, turn)) :
    ((s.threads t).held = some f ∧ (s.threads t).Gated j) ∨
      (s'.streams j).commands = (s.streams j).commands ++ [.write turn] := by
  have still : s'.threads = s.threads → (s.threads t).held = some f ∧ (s.threads t).Gated j := by
    intro threads
    rw [← threads]
    exact ⟨held, gated⟩
  cases l with
  | thread u act =>
      by_cases here : t = u
      · subst here
        have ungated : ∀ pc : SubmitPc n, s'.threads t = pc → pc.booking j = none ∨
            pc.booking j = some .taken → False := by
          rintro pc at' (none | none) <;> rw [at'] at gated <;> rcases gated with no | no <;>
            rw [none] at no <;> cases no
        have own : ∀ {sys : System n ι} {pc : SubmitPc n}, (sys.setThread t pc).threads t = pc :=
          fun {sys pc} => System.setThread_self sys t pc
        cases System.threadStep_effect step with
        | callAsync | callStream | lock | claim | full | fillAsync | fails | copy | lost =>
            exact (ungated _ own (.inl rfl)).elim
        | fillStream c v head a turn' pc args next =>
            refine (ungated _ own ?_).elim
            rw [SubmitPc.booking]
            split
            · exact .inr rfl
            · exact .inl rfl
        | park fields v head a turn' pc args aligned => cases aligned
        | write fields v head a turn' pc args aligned =>
            rw [own] at held
            cases held
            obtain ⟨rfl, rfl⟩ := Prod.mk.inj (Option.some.inj ((ticket_eq args).symm.trans ticket))
            exact .inr ((enqueue_commands s _ _ _).trans (if_pos rfl))
        | wait fields v head a turn' pc args =>
            rw [own] at held
            cases held
            left
            rw [pc]
            exact ⟨rfl, SubmitPc.gated_wait ticket⟩
        | pend fields v head pc =>
            rw [own] at held gated
            left
            rw [pc]
            exact ⟨held, gated⟩
        | publish fields v head pc => exact (ungated _ own (.inl rfl)).elim
        | unlock copy pc' pc next =>
            rcases next with rfl | ⟨i, -, rfl⟩ <;> exact (ungated _ own (.inl rfl)).elim
      · left
        have threads : s'.threads t = s.threads t := by
          cases System.threadStep_effect step <;> exact Function.update_of_ne here _ _
        rw [← threads]
        exact ⟨held, gated⟩
  | worker w c =>
      obtain ⟨event, worker, -, -, frame⟩ := System.workerStep_frame step
      exact .inl (still frame.threads)
  | gpu i => exact .inl (still (System.gpuStep_effect step).frame.1)
  | stop =>
      cases step
      exact .inl (still rfl)

/-- An operation is published before a step, or by a thread that goes on to its copy. -/
theorem hasTurn_of_step [DecidableEq ι] [NeZero n] {alignedOnly : Bool} {l : Label n ι}
    (inv : EngineInv s) (step : (engine alignedOnly).step s l = some s') (has : s'.HasTurn j turn w k f) :
    s.HasTurn j turn w k f ∨ ∃ t v head, s.threads t = .publish f v head ∧
      s'.threads t = .unlock (copyOf alignedOnly f) ∧ s'.streams = s.streams := by
  have old : (∀ w, (s'.workers w).published = (s.workers w).published) → s.HasTurn j turn w k f :=
    fun published => ⟨published w ▸ has.published, has.ticket⟩
  cases l with
  | thread t act =>
      cases System.threadStep_effect step with
      | publish fields v head pc =>
          rcases inv.hasTurn_publish pc rfl has with before | ⟨-, -, rfl⟩
          · exact .inl before
          · exact .inr ⟨t, v, head, pc, System.setThread_self _ _ _, rfl⟩
      | fillAsync | fillStream | pend => exact .inl (old (setWorker_published s rfl))
      | _ => exact .inl (old fun _ => rfl)
  | worker v c =>
      obtain ⟨event, worker, -, -, frame⟩ := System.workerStep_frame step
      exact .inl (old frame.published)
  | gpu i => exact .inl (old fun v => by rw [(System.gpuStep_effect step).frame.2.2.1])
  | stop =>
      cases step
      exact .inl (old fun _ => rfl)

namespace CopiesDue

theorem start (futures : Nat → Future) (bytesRead : Nat → Int) :
    CopiesDue (setup n ι futures bytesRead) j :=
  ⟨fun turn w k f has => (by cases has.published), fun t f turn held => (by cases held)⟩

/-- The gate write of an operation that is about to be published is behind any copy that the
stream has before it. -/
theorem write_of_gated (inv : GateInv s) (order : CopyOrder s j) (held : (s.threads t).held = some f)
    (gated : (s.threads t).Gated j) (ticket : f.ticket = some (j, turn))
    (front : (s.streams j).commands = .copy :: l) : .write turn ∈ l := by
  cases pc : s.threads t with
  | wait fields v head =>
      rw [pc] at held
      cases held
      exact order.gate t f v head turn pc ticket [] l front
  | pend | publish =>
      obtain ⟨g, sim⟩ := inv.gates j
      have booking := inv.booking_before gated.critical sim
      have awaited : g.booking = some .awaited := by
        rw [booking]
        rcases gated with no | awaited
        · rw [pc, SubmitPc.booking] at no
          split at no <;> cases no
        · exact awaited
      have waits := sim.inv.awaited awaited
      rw [← inv.drawn held ticket sim] at waits
      obtain ⟨c, member, awaits⟩ := sim.line.exists_awaited waits
      rcases order.kinds c member with ⟨turn', rfl⟩ | ⟨turn', rfl⟩ | rfl
      · cases awaits
      · cases awaits
        refine order.behind [] l turn front ?_
        rw [front] at member
        exact (List.mem_cons.mp member).resolve_left (by simp)
      · cases awaits
  | gate fields v head =>
      rw [pc, SubmitPc.Gated, SubmitPc.booking] at gated
      split at gated <;> rcases gated with no | no <;> cases no
  | _ =>
      rw [pc] at held
      cases held

variable [DecidableEq ι] [NeZero n] {label : Label n ι}

/-- **Every step keeps the copies due**, if it enqueues no gate before a copy and every copy. -/
theorem step (due : CopiesDue s j) (inv : GateInv s) (order : CopyOrder s j)
    (gates : GatesBehindCopies j s label) (enqueues : Enqueues label)
    (step : (engine false).step s label = some s') : CopiesDue s' j := by
  have moves := copyStep_of_step order gates enqueues step
  have safe := inv.gateSafe j
  refine ⟨fun turn w k f has read open' => ?_, fun t f turn held gated ticket => ?_⟩
  · have open₀ : ¬ (s.workers w).Completed k := fun completed => open' (completed_of_step step completed)
    -- An operation that is published before the step.
    have old : s.HasTurn j turn w k f → CopyDue (s'.CopyOwed j) turn (s'.streams j).commands := by
      intro has
      have before := due.published turn w k f has read open₀
      cases moves with
      | still commands owed =>
          rw [commands]
          exact before.mono owed
      | pops c front owed =>
          rw [front] at before
          refine (before.tail fun copy => ?_).mono owed
          -- A copy is passed only when what has been reached is completed.
          by_contra passed
          subst copy
          have reached : s.Reached j turn := by
            refine ⟨⟨w, k, f, has⟩, fun c member announced => ?_⟩
            rcases order.kinds c member with ⟨turn', rfl⟩ | ⟨turn', rfl⟩ | rfl
            · cases announced
              rw [front] at member
              exact passed ((List.mem_cons.mp member).resolve_left (by simp))
            · cases announced
            · cases announced
          obtain ⟨m, -, completed⟩ := order.completed_of_copy safe has front reached
          exact open₀ ⟨_, m, completed⟩
      | gates turn' t g v head commands free pc ticket =>
          rw [commands]
          refine before.append (fun member => ?_) fun owed => absurd owed free
          cases List.mem_singleton.mp member
          exact (inv.tickets.held t g j turn (by rw [pc]; rfl) ticket).2 w f
            (List.mem_of_getElem? has.published) has.ticket
      | waits turn' commands owed =>
          rw [commands]
          exact before.append (by simp) owed
      | copies commands =>
          rw [commands]
          exact before.append (by simp) fun _ => trivial
    rcases hasTurn_of_step inv.locked step has with before | ⟨t, v, head, pc, goesOn, streams⟩
    · exact old before
    · -- The thread that publishes the read goes on to its copy.
      have gated : (s.threads t).Gated j := by
        rw [pc]
        right
        rw [SubmitPc.booking, booking_ticket has.ticket, if_pos rfl]
      rw [streams]
      refine (due.gated t f turn (by rw [pc]; rfl) gated has.ticket).mono fun _ => ⟨t, .inl ?_⟩
      obtain ⟨isWrite, h, bufBase, u⟩ := f
      cases read
      cases u with
      | async a => cases has.ticket
      | stream a turn' =>
          cases has.ticket
          exact goesOn
  · rcases gated_of_step step held gated ticket with ⟨held₀, gated₀⟩ | commands
    · have before := due.gated t f turn held₀ gated₀ ticket
      cases moves with
      | still commands =>
          rw [commands]
          exact before
      | pops c front =>
          rw [front] at before
          refine before.tail fun copy => ?_
          subst copy
          exact write_of_gated inv order held₀ gated₀ ticket front
      | gates turn' u g v head commands free pc =>
          -- The thread at its gate would be another one.
          have critical : (s.threads u).critical = true := by rw [pc]; rfl
          obtain rfl := CopyOrder.gated_eq inv.locked critical gated₀
          rw [pc, SubmitPc.Gated, SubmitPc.booking] at gated₀
          split at gated₀ <;> rcases gated₀ with no | no <;> cases no
      | waits turn' commands =>
          rw [commands]
          exact before.append (by simp) fun _ => trivial
      | copies commands =>
          rw [commands]
          exact before.append (by simp) fun _ => trivial
    · rw [commands]
      exact ⟨[], by simp, trivial, .inr ⟨_, rfl⟩⟩

end CopiesDue

/-- **A copy that comes next comes next until the stream has run it.** -/
theorem nextIsCopy_step [DecidableEq ι] [NeZero n] {label : Label n ι} (order : CopyOrder s j)
    (gates : GatesBehindCopies j s label) (enqueues : Enqueues label)
    (step : (engine false).step s label = some s')
    (next : NextIsCopy (s.CopyOwed j) (s.streams j).commands) :
    NextIsCopy (s'.CopyOwed j) (s'.streams j).commands ∨
      (s.streams j).commands = .copy :: (s'.streams j).commands := by
  cases copyStep_of_step order gates enqueues step with
  | still commands owed =>
      rw [commands]
      exact .inl (next.mono owed)
  | pops c front owed =>
      by_cases copy : c = .copy
      · subst copy
        exact .inr front
      · rw [front] at next
        exact .inl ((next.tail copy).mono owed)
  | gates turn t f w head commands free =>
      rw [commands, nextIsCopy_append]
      exact .inl (next.mono fun owed => absurd owed free)
  | waits turn commands owed =>
      rw [commands, nextIsCopy_append]
      exact .inl (next.mono owed)
  | copies commands =>
      rw [commands, nextIsCopy_append]
      exact .inl (next.mono fun _ => trivial)

/-! ## Runs -/

/-- **What holds of a stream in whose submissions nothing fails**, and no gate is enqueued before
a copy that is still to be enqueued. -/
structure StreamInv (s : System n ι) (j : Nat) : Prop where
  gates : GateInv s
  gapless : ∀ i, Gapless s i
  order : CopyOrder s j
  due : CopiesDue s j

theorem StreamInv.start (futures : Nat → Future) (bytesRead : Nat → Int) :
    StreamInv (setup n ι futures bytesRead) j :=
  ⟨.start futures bytesRead, fun _ => .start futures bytesRead, .start futures bytesRead,
    .start futures bytesRead⟩

theorem StreamInv.step [DecidableEq ι] [NeZero n] {label : Label n ι} (inv : StreamInv s j)
    (few : n ≤ maxIoThreads) (gates : GatesBehindCopies j s label) (enqueues : Enqueues label)
    (step : (engine false).step s label = some s') : StreamInv s' j where
  gates := inv.gates.step (inv.gates.publishesNear few inv.gapless label) step
  gapless i := (inv.gapless i).step inv.gates.locked enqueues step
  order := inv.order.step inv.gates.locked gates step
  due := inv.due.step inv.gates inv.order gates enqueues step

/-- A copy of the stream is run past the completion of an operation, in the course of a run from
one state, and while no operation of the stream is served. -/
def CopiedPast [DecidableEq ι] [NeZero n] (labels : List (Label n ι)) (s : System n ι) (j : Nat)
    (w : Fin n) (k : Nat) (f : OpFields) : Prop :=
  ∃ before l after s₁ s₂, labels = before ++ l :: after ∧ (engine false).run before s = some s₁ ∧
    (engine false).step s₁ l = some s₂ ∧
    (s₁.streams j).commands = .copy :: (s₂.streams j).commands ∧
    (∃ m, .stored f.target m ∈ (s₁.workers w).history k ∧
      .completed f.target m ∈ (s₁.workers w).history k) ∧
    ∀ v i g turn, s₁.HasTurn j turn v i g → ¬ s₁.InService v i

section Runs

variable [DecidableEq ι] [NeZero n] {labels more : List (Label n ι)} {futures : Nat → Future}
  {bytesRead : Nat → Int}

/-- What a copy that comes next comes to: it is run, or comes next still. -/
theorem StreamInv.copied (inv : StreamInv s j) (few : n ≤ maxIoThreads)
    (meets : (engine false).Meets (fun s l => GatesBehindCopies j s l ∧ Enqueues l) more s)
    (has : s.HasTurn j turn w k f) (reached : s.Reached j turn)
    (next : NextIsCopy (s.CopyOwed j) (s.streams j).commands)
    (goesOn : (engine false).run more s = some s') :
    CopiedPast more s j w k f ∨ NextIsCopy (s'.CopyOwed j) (s'.streams j).commands := by
  induction more generalizing s with
  | nil =>
      cases goesOn
      exact .inr next
  | cons l more ih =>
      obtain ⟨s₁, step, rest⟩ := Option.bind_eq_some_iff.mp goesOn
      obtain ⟨⟨gates, enqueues⟩, later⟩ := (Machine.meets_cons_iff step).mp meets
      have safe := inv.gates.gateSafe j
      rcases nextIsCopy_step inv.order gates enqueues step next with next' | front
      · have has' : s₁.HasTurn j turn w k f :=
          ⟨published_of_step_of_published step has.published, has.ticket⟩
        refine (ih (inv.step few gates enqueues step) later has'
          (inv.gates.reached_of_step step reached) next' rest).imp_left ?_
        rintro ⟨before, l', after, s₂, s₃, rfl, ran, step', front, there, alone⟩
        exact ⟨l :: before, l', after, s₂, s₃, rfl, by simp [step, ran], step', front, there, alone⟩
      · exact .inl ⟨[], l, more, s, s₁, rfl, rfl, step, front,
          inv.order.completed_of_copy safe has front reached,
          fun v i g turn' has' service => inv.order.not_copying safe has' service _ front⟩

/-- **The copy of a read is run between the completion of the read and the next gate**, for any
number of threads, as long as no call fails and no gate is enqueued while the copy of an earlier
read is still to be enqueued. -/
theorem copied_before_next_gate (few : n ≤ maxIoThreads)
    (meets : (engine false).Meets (fun s l => GatesBehindCopies j s l ∧ Enqueues l) (labels ++ more)
      (setup n ι futures bytesRead))
    (ran : (engine false).run labels (setup n ι futures bytesRead) = some s)
    (has : s.HasTurn j turn w k f) (read : f.isWrite = false) (reached : s.Reached j turn)
    (unfinished : ¬ (s.workers w).Completed k) (goesOn : (engine false).run more s = some s')
    {turn' : Nat} {rest : List (StreamCommand n)} (gate : (s'.streams j).commands = .write turn' :: rest) :
    CopiedPast more s j w k f := by
  obtain ⟨early, late⟩ := (Machine.meets_append_iff ran).mp meets
  have keeps : ∀ (s : System n ι) l s', StreamInv s j → GatesBehindCopies j s l ∧ Enqueues l →
      (engine false).step s l = some s' → StreamInv s' j :=
    fun _ _ _ inv ok step => inv.step few ok.1 ok.2 step
  have inv : StreamInv s j := Machine.run_invariant keeps (.start futures bytesRead) early ran
  have passed : .write turn ∉ (s.streams j).commands := fun member => reached.2 _ member rfl
  have next := (inv.due.published turn w k f has read unfinished).next passed
  refine (inv.copied few late has reached next goesOn).resolve_right fun next' => ?_
  rw [gate] at next'
  exact next'

end Runs

/-- The steps up to the gate of a second read, from the wait for the first one. -/
def servesFirst : List (Label 1 Unit) := servesRead.tail ++ submitsRead 5 ++ [.gpu 0, .gpu 0]

/-- One thread never enqueues a gate before a copy. -/
theorem gatesBehindCopies_unit (s : System n Unit) (l : Label n Unit) : GatesBehindCopies j s l := by
  unfold GatesBehindCopies
  split
  · intro fields w head turn pc ticket u owes
    rw [show s.threads u = _ from pc] at owes
    rcases owes with no | no <;> cases no
  · trivial

/-- The copy of the first read is run before the gate of the second one. -/
theorem copied_before_next_gate_twoReads : ∃ s : System 1 Unit,
    (engine false).run (submitsRead 1 ++ [.gpu 0]) (setup 1 Unit noFutures fun _ => 0) = some s ∧
      CopiedPast servesFirst s 0 0 0 ⟨false, 1, 4096, .stream ⟨1, 2, 3, 4, 0⟩ 1⟩ := by
  have facts : ((engine false).run (submitsRead 1 ++ [.gpu 0])
      (setup 1 Unit noFutures fun _ => 0)).map (fun s =>
        ((s.workers 0).published[0]?, (s.workers 0).history 0, (s.streams 0).commands)) =
      some (some ⟨false, 1, 4096, .stream ⟨1, 2, 3, 4, 0⟩ 1⟩, [], [.wait 1, .copy]) := by
    decide +kernel
  have facts' : ((engine false).run (submitsRead 1 ++ [.gpu 0] ++ servesFirst)
      (setup 1 Unit noFutures fun _ => 0)).map (fun s => (s.streams 0).commands) =
      some [.write 2, .wait 2, .copy] := by decide +kernel
  obtain ⟨s, ran, facts⟩ := Option.map_eq_some_iff.mp facts
  obtain ⟨s', goesOn, gate⟩ := Option.map_eq_some_iff.mp facts'
  simp only [Prod.mk.injEq] at facts
  obtain ⟨published, history, commands⟩ := facts
  rw [Machine.run_append, ran, Option.bind_some] at goesOn
  have has : s.HasTurn 0 1 0 0 ⟨false, 1, 4096, .stream ⟨1, 2, 3, 4, 0⟩ 1⟩ := ⟨published, rfl⟩
  have reached : s.Reached 0 1 := ⟨⟨0, 0, _, has⟩, by simp [commands, System.announced]⟩
  have unfinished : ¬ (s.workers 0).Completed 0 := by
    rintro ⟨target, m, completed⟩
    rw [history] at completed
    cases completed
  have meets : (engine false).Meets (fun s l => GatesBehindCopies 0 s l ∧ Enqueues l)
      (submitsRead 1 ++ [.gpu 0] ++ servesFirst) (setup 1 Unit noFutures fun _ => 0) := by
    refine Machine.meets_of_labels (fun l member s => ⟨gatesBehindCopies_unit s l, ?_⟩) _
    revert l
    simp [submitsRead, servesFirst, servesRead, Enqueues]
  exact ⟨s, ran, copied_before_next_gate (by decide) meets ran has rfl reached unfinished goesOn gate⟩

end OpenDS.Engine
