import OpenDS.Library.Transition

/-!
# Turnstiles

A turnstile lets tasks through one at a time. Every task takes a turn, and turns are
numbered. Behind the turnstile somebody works through an agenda: it announces a turn,
which is then shown, and it awaits the release of a turn. A task is admitted once its turn
is shown, and releases the turn when it is done.

A turn may be given up as long as its release is not on the agenda; its number is not
used again. Tasks that are not given up are admitted in the order of their turns, each one
when all tasks before it are done (`TurnstileInv.done_before`), and the agenda passes a
wait when the task is done (`TurnstileInv.done_of_advance`).
-/

set_option autoImplicit false

namespace OpenDS.Library

/-! ## The turnstile -/

/-- An entry of the agenda. -/
inductive AgendaEntry where
  | announce (turn : Nat)
  | await (turn : Nat)
  deriving DecidableEq, Repr

/-- How far the task of a turn has come. -/
inductive TaskState where
  | absent
  | waiting
  | running
  | done
  deriving DecidableEq, Repr

/-- How far the turn that was taken last has been put on the agenda. -/
inductive Booking where
  | taken
  | announced
  | awaited
  deriving DecidableEq, Repr

/-- A turnstile: how many turns have been taken, the turn that is shown and whether it has
been released, the agenda, the tasks, and the turn that is being booked. -/
structure Turnstile where
  turns : Nat
  shown : Nat
  released : Bool
  agenda : List AgendaEntry
  tasks : Nat → TaskState
  booking : Option Booking

/-- The turn that is being booked. -/
def Turnstile.booked (s : Turnstile) : Option (Nat × Booking) := s.booking.map (s.turns, ·)

/-- The task of a turn goes on. -/
def Turnstile.setTask (s : Turnstile) (t : Nat) (state : TaskState) : Turnstile :=
  { s with tasks := fun t' => if t' = t then state else s.tasks t' }

/-- What happens at a turnstile. -/
inductive TurnstileAct where
  | take
  | announce
  | await
  | publish
  | abandon
  | advance
  | enter (turn : Nat)
  | release (turn : Nat)
  deriving DecidableEq, Repr

/-- **The turnstile.** -/
def turnstile : Machine Turnstile TurnstileAct where
  step s
    | .take =>
      if s.booking = none then some { s with turns := s.turns + 1, booking := some .taken }
      else none
    | .announce =>
      if s.booking = some .taken then
        some { s with agenda := s.agenda ++ [.announce s.turns], booking := some .announced }
      else none
    | .await =>
      if s.booking = some .announced then
        some { s with agenda := s.agenda ++ [.await s.turns], booking := some .awaited }
      else none
    | .publish =>
      if s.booking = some .awaited then
        some { s.setTask s.turns .waiting with booking := none }
      else none
    | .abandon =>
      if s.booking = some .taken ∨ s.booking = some .announced then
        some { s with booking := none }
      else none
    | .advance => match s.agenda with
      | [] => none
      | .announce t :: rest => some { s with shown := t, released := false, agenda := rest }
      | .await t :: rest =>
        if t < s.shown ∨ t = s.shown ∧ s.released = true then some { s with agenda := rest }
        else none
    | .enter t =>
      if s.tasks t = .waiting ∧ t ≤ s.shown then
        some (s.setTask t .running)
      else none
    | .release t =>
      if s.tasks t = .running then
        some { s.setTask t .done with shown := t, released := true }
      else none

/-- A turnstile that nobody has come to. -/
def Turnstile.fresh : Turnstile := ⟨0, 0, false, [], fun _ => .absent, none⟩

/-! ## Agendas -/

/-- The agenda announces later and later turns, and awaits the one it has announced last. -/
def InLine : Nat → List AgendaEntry → Prop
  | _, [] => True
  | shown, .announce t :: rest => shown < t ∧ InLine t rest
  | shown, .await t :: rest => t = shown ∧ InLine shown rest

/-- The turn that is shown past the agenda. -/
def lastShown : Nat → List AgendaEntry → Nat
  | shown, [] => shown
  | _, .announce t :: rest => lastShown t rest
  | shown, .await _ :: rest => lastShown shown rest

variable {shown t : Nat} {agenda : List AgendaEntry}

theorem lastShown_announce (shown : Nat) (agenda : List AgendaEntry) (t : Nat) :
    lastShown shown (agenda ++ [.announce t]) = t := by
  induction agenda generalizing shown with
  | nil => rfl
  | cons e rest ih => cases e <;> exact ih _

theorem lastShown_await (shown : Nat) (agenda : List AgendaEntry) (t : Nat) :
    lastShown shown (agenda ++ [.await t]) = lastShown shown agenda := by
  induction agenda generalizing shown with
  | nil => rfl
  | cons e rest ih => cases e <;> exact ih _

theorem InLine.announce (line : InLine shown agenda) (later : lastShown shown agenda < t) :
    InLine shown (agenda ++ [.announce t]) := by
  induction agenda generalizing shown with
  | nil => exact ⟨later, trivial⟩
  | cons e rest ih => cases e <;> exact ⟨line.1, ih line.2 later⟩

theorem InLine.await (line : InLine shown agenda) (same : lastShown shown agenda = t) :
    InLine shown (agenda ++ [.await t]) := by
  induction agenda generalizing shown with
  | nil => exact ⟨same.symm, trivial⟩
  | cons e rest ih => cases e <;> exact ⟨line.1, ih line.2 same⟩

/-- The agenda awaits no turn before the one that is shown. -/
theorem InLine.le_of_await (line : InLine shown agenda) (member : .await t ∈ agenda) :
    shown ≤ t := by
  induction agenda generalizing shown with
  | nil => cases member
  | cons e rest ih =>
      rcases List.mem_cons.mp member with rfl | later
      · exact line.1.symm.le
      · cases e with
        | announce t' => exact line.1.le.trans (ih line.2 later)
        | await t' => exact ih line.2 later

/-- The agenda announces turns past the one that is shown. -/
theorem InLine.lt_of_announce (line : InLine shown agenda) (member : .announce t ∈ agenda) :
    shown < t := by
  induction agenda generalizing shown with
  | nil => cases member
  | cons e rest ih =>
      rcases List.mem_cons.mp member with rfl | later
      · exact line.1
      · cases e with
        | announce t' => exact line.1.trans (ih line.2 later)
        | await t' => exact ih line.2 later

/-- What the agenda awaits past the turn that is shown it announces. -/
theorem InLine.announces (line : InLine shown agenda) (member : .await t ∈ agenda)
    (later : shown < t) : .announce t ∈ agenda := by
  induction agenda generalizing shown with
  | nil => cases member
  | cons e rest ih =>
      cases e with
      | announce t' =>
          have member : .await t ∈ rest := by simpa using member
          rcases Nat.eq_or_lt_of_le (line.2.le_of_await member) with rfl | after
          · exact List.mem_cons_self ..
          · exact List.mem_cons_of_mem _ (ih line.2 member after)
      | await t' =>
          rcases List.mem_cons.mp member with same | rest
          · cases same
            exact absurd line.1 (by omega)
          · exact List.mem_cons_of_mem _ (ih line.2 rest later)

theorem InLine.le_lastShown (line : InLine shown agenda) : shown ≤ lastShown shown agenda := by
  induction agenda generalizing shown with
  | nil => exact Nat.le_refl _
  | cons e rest ih =>
      cases e with
      | announce t' => exact line.1.le.trans (ih line.2)
      | await t' => exact ih line.2

/-! ## What holds at any time -/

/-- **What holds of a turnstile at any time.** -/
structure TurnstileInv (s : Turnstile) : Prop where
  line : InLine s.shown s.agenda
  last : lastShown s.shown s.agenda ≤ s.turns
  taken : s.booking = some .taken → lastShown s.shown s.agenda < s.turns
  announced : s.booking = some .announced → lastShown s.shown s.agenda = s.turns
  awaited : s.booking = some .awaited → .await s.turns ∈ s.agenda
  unused : s.booking ≠ none → s.tasks s.turns = .absent
  known : ∀ t, s.tasks t ≠ .absent → t ≤ s.turns
  live : ∀ t, s.tasks t = .waiting ∨ s.tasks t = .running → .await t ∈ s.agenda
  running : ∀ t, s.tasks t = .running → t = s.shown ∧ s.released = false
  done : ∀ t, s.tasks t = .done → t < s.shown ∨ t = s.shown ∧ s.released = true
  released : s.released = true → s.tasks s.shown = .done
  waits : ∀ t, .await t ∈ s.agenda →
    s.tasks t ≠ .absent ∨ s.booking = some .awaited ∧ t = s.turns

theorem TurnstileInv.fresh : TurnstileInv .fresh := by
  constructor <;> simp [Turnstile.fresh, InLine, lastShown]

variable {s s' : Turnstile}

namespace TurnstileInv

/-- A task that waits or runs has a turn that is shown or announced later. -/
theorem shown_le (inv : TurnstileInv s) (live : s.tasks t = .waiting ∨ s.tasks t = .running) :
    s.shown ≤ t :=
  inv.line.le_of_await (inv.live t live)

/-- **A task is admitted when all tasks before it are done.** -/
theorem done_before (inv : TurnstileInv s) {t' : Nat} (before : t < t')
    (entered : s.tasks t' = .running ∨ s.tasks t' = .done) (there : s.tasks t ≠ .absent) :
    s.tasks t = .done := by
  have upTo : t' ≤ s.shown := by
    rcases entered with running | done
    · exact (inv.running t' running).1.le
    · rcases inv.done t' done with earlier | ⟨same, -⟩
      · exact earlier.le
      · exact same.le
  cases state : s.tasks t with
  | absent => exact absurd state there
  | waiting => exact absurd (inv.shown_le (.inl state)) (by omega)
  | running => exact absurd (inv.shown_le (.inr state)) (by omega)
  | done => rfl

/-- A task that waits for a turn that has been shown is admitted at that turn. -/
theorem shown_of_waiting (inv : TurnstileInv s) (waiting : s.tasks t = .waiting)
    (upTo : t ≤ s.shown) : t = s.shown ∧ s.released = false := by
  have same : t = s.shown := Nat.le_antisymm upTo (inv.shown_le (.inl waiting))
  refine ⟨same, Bool.eq_false_iff.mpr fun released => ?_⟩
  have done := inv.released released
  rw [← same, waiting] at done
  cases done

/-- What the agenda awaits at its head has been released when it goes on. -/
theorem head_await (inv : TurnstileInv s) {rest : List AgendaEntry}
    (agenda : s.agenda = .await t :: rest) : t = s.shown ∧ InLine s.shown rest := by
  have line := inv.line
  rw [agenda] at line
  exact line

/-- **The agenda passes a wait when the task of the turn is done.** -/
theorem done_of_advance (inv : TurnstileInv s) {rest : List AgendaEntry}
    (agenda : s.agenda = .await t :: rest) (step : turnstile.step s .advance = some s') :
    s.tasks t = .done := by
  obtain ⟨same, -⟩ := inv.head_await agenda
  simp only [turnstile, agenda] at step
  split at step
  · rename_i passed
    rcases passed with earlier | ⟨-, released⟩
    · omega
    · rw [same]
      exact inv.released released
  · cases step

/-- What the agenda awaits and is not being booked belongs to a task, which is under way
unless it has released its turn. -/
theorem task_of_await (inv : TurnstileInv s) (member : .await t ∈ s.agenda)
    (still : s.booking = none) : s.tasks t = .waiting ∨ s.tasks t = .running ∨
      s.tasks t = .done ∧ t = s.shown ∧ s.released = true := by
  have upTo := inv.line.le_of_await member
  cases state : s.tasks t with
  | absent =>
      rcases inv.waits t member with there | ⟨booking, -⟩
      · exact absurd state there
      · rw [still] at booking
        cases booking
  | waiting => exact .inl rfl
  | running => exact .inr (.inl rfl)
  | done =>
      rcases inv.done t state with earlier | shown
      · omega
      · exact .inr (.inr ⟨rfl, shown⟩)

/-! ### Steps -/

/-- A turn that is being booked has no task. -/
theorem live_of_booking (inv : TurnstileInv s) (booking : s.booking ≠ none)
    (live : s.tasks t = .waiting ∨ s.tasks t = .running) : t ≠ s.turns := by
  rintro rfl
  rw [inv.unused booking] at live
  rcases live with live | live <;> cases live

theorem take (inv : TurnstileInv s) (free : s.booking = none) :
    TurnstileInv { s with turns := s.turns + 1, booking := some .taken } where
  line := inv.line
  last := Nat.le_succ_of_le inv.last
  taken _ := Nat.lt_succ_of_le inv.last
  announced := nofun
  awaited := nofun
  unused _ := by
    by_contra there
    exact absurd (inv.known _ there) (Nat.not_succ_le_self _)
  known t there := Nat.le_succ_of_le (inv.known t there)
  live := inv.live
  running := inv.running
  done := inv.done
  released := inv.released
  waits t member := by
    rcases inv.waits t member with there | ⟨booking, -⟩
    · exact .inl there
    · rw [free] at booking
      cases booking

theorem announce (inv : TurnstileInv s) (taken : s.booking = some .taken) :
    TurnstileInv { s with agenda := s.agenda ++ [.announce s.turns], booking := some .announced } where
  line := inv.line.announce (inv.taken taken)
  last := (lastShown_announce _ _ _).le
  taken := nofun
  announced _ := lastShown_announce _ _ _
  awaited := nofun
  unused _ := inv.unused (by rw [taken]; exact nofun)
  known := inv.known
  live t there := List.mem_append_left _ (inv.live t there)
  running := inv.running
  done := inv.done
  released := inv.released
  waits t member := by
    rcases List.mem_append.mp member with member | new
    · rcases inv.waits t member with there | ⟨booking, -⟩
      · exact .inl there
      · rw [taken] at booking
        cases booking
    · cases List.mem_singleton.mp new

theorem await (inv : TurnstileInv s) (announced : s.booking = some .announced) :
    TurnstileInv { s with agenda := s.agenda ++ [.await s.turns], booking := some .awaited } where
  line := inv.line.await (inv.announced announced)
  last := by
    rw [lastShown_await]
    exact inv.last
  taken := nofun
  announced := nofun
  awaited _ := List.mem_append_right _ (List.mem_singleton_self _)
  unused _ := inv.unused (by rw [announced]; exact nofun)
  known := inv.known
  live t there := List.mem_append_left _ (inv.live t there)
  running := inv.running
  done := inv.done
  released := inv.released
  waits t member := by
    rcases List.mem_append.mp member with member | new
    · rcases inv.waits t member with there | ⟨booking, -⟩
      · exact .inl there
      · rw [announced] at booking
        cases booking
    · cases List.mem_singleton.mp new
      exact .inr ⟨rfl, rfl⟩

/-- A task other than the one that goes on is where it was. -/
theorem of_setTask {state state' : TaskState} {t' : Nat}
    (there : (s.setTask t state).tasks t' = state') (other : state ≠ state') :
    t' ≠ t ∧ s.tasks t' = state' := by
  change (if t' = t then state else s.tasks t') = state' at there
  split at there
  · exact absurd there other
  · rename_i here
    exact ⟨here, there⟩

theorem publish (inv : TurnstileInv s) (awaited : s.booking = some .awaited) :
    TurnstileInv { s.setTask s.turns .waiting with booking := none } where
  line := inv.line
  last := inv.last
  taken := nofun
  announced := nofun
  awaited := nofun
  unused no := absurd rfl no
  known t there := by
    change (if t = s.turns then .waiting else s.tasks t) ≠ .absent at there
    split at there
    · rename_i here
      exact here.le
    · exact inv.known t there
  live t there := by
    change (if t = s.turns then .waiting else s.tasks t) = .waiting ∨
      (if t = s.turns then .waiting else s.tasks t) = .running at there
    split at there
    · rename_i here
      rw [here]
      exact inv.awaited awaited
    · exact inv.live t there
  running t running := inv.running t (of_setTask running nofun).2
  done t done := inv.done t (of_setTask done nofun).2
  released released := by
    have done := inv.released released
    change (if s.shown = s.turns then .waiting else s.tasks s.shown) = .done
    rw [if_neg, done]
    intro same
    rw [same, inv.unused (by rw [awaited]; exact nofun)] at done
    cases done
  waits t member := by
    refine .inl ?_
    change (if t = s.turns then .waiting else s.tasks t) ≠ .absent
    split
    · exact nofun
    · rename_i here
      rcases inv.waits t member with there | ⟨-, same⟩
      · exact there
      · exact absurd same here

theorem abandon (inv : TurnstileInv s) (early : s.booking ≠ some .awaited) :
    TurnstileInv { s with booking := none } where
  line := inv.line
  last := inv.last
  taken := nofun
  announced := nofun
  awaited := nofun
  unused no := absurd rfl no
  known := inv.known
  live := inv.live
  running := inv.running
  done := inv.done
  released := inv.released
  waits t member := (inv.waits t member).imp_right fun booked => absurd booked.1 early

theorem announced_at (inv : TurnstileInv s) {rest : List AgendaEntry}
    (agenda : s.agenda = .announce t :: rest) :
    TurnstileInv { s with shown := t, released := false, agenda := rest } := by
  have line := inv.line
  have last := inv.last
  rw [agenda] at line last
  -- What has been awaited is awaited still.
  have kept : ∀ {t'}, .await t' ∈ s.agenda → .await t' ∈ rest := by
    intro t' member
    rw [agenda] at member
    simpa using member
  refine ⟨line.2, last, fun taken => ?_, fun announced => ?_, fun awaited => kept (inv.awaited awaited),
    inv.unused, inv.known, fun t' there => kept (inv.live t' there), fun t' there => ?_,
    fun t' there => ?_, nofun, fun t' member => inv.waits t' ?_⟩
  · have before := inv.taken taken
    rw [agenda] at before
    exact before
  · have same := inv.announced announced
    rw [agenda] at same
    exact same
  · -- A task that is running would be awaited past a later turn.
    have same := (inv.running t' there).1
    have after := line.2.le_of_await (kept (inv.live t' (.inr there)))
    exact absurd line.1 (by omega)
  · refine .inl ?_
    change t' < t
    rcases inv.done t' there with before | ⟨same, -⟩
    · exact before.trans line.1
    · rw [same]
      exact line.1
  · rw [agenda]
    exact List.mem_cons_of_mem _ member

theorem awaited_at (inv : TurnstileInv s) {rest : List AgendaEntry}
    (agenda : s.agenda = .await t :: rest) (done : s.tasks t = .done) :
    TurnstileInv { s with agenda := rest } := by
  obtain ⟨same, line⟩ := inv.head_await agenda
  have last := inv.last
  rw [agenda] at last
  have kept : ∀ {t'}, t' ≠ t → .await t' ∈ s.agenda → .await t' ∈ rest := by
    intro t' other member
    rw [agenda] at member
    simpa [other] using member
  refine ⟨line, last, fun taken => ?_, fun announced => ?_, fun awaited => kept ?_ (inv.awaited awaited),
    inv.unused, inv.known, fun t' there => kept ?_ (inv.live t' there), inv.running, inv.done,
    inv.released, fun t' member => inv.waits t' ?_⟩
  · have before := inv.taken taken
    rw [agenda] at before
    exact before
  · have same := inv.announced announced
    rw [agenda] at same
    exact same
  · rintro rfl
    rw [inv.unused (by rw [awaited]; exact nofun)] at done
    cases done
  · rintro rfl
    rw [done] at there
    rcases there with there | there <;> cases there
  · rw [agenda]
    exact List.mem_cons_of_mem _ member

theorem enter (inv : TurnstileInv s) (waiting : s.tasks t = .waiting) (upTo : t ≤ s.shown) :
    TurnstileInv (s.setTask t .running) := by
  obtain ⟨same, unreleased⟩ := inv.shown_of_waiting waiting upTo
  refine ⟨inv.line, inv.last, inv.taken, inv.announced, inv.awaited, fun booking => ?_,
    fun t' there => ?_, fun t' there => ?_, fun t' there => ?_, fun t' done => ?_, fun released => ?_,
    fun t' member => ?_⟩
  · change (if s.turns = t then _ else s.tasks s.turns) = _
    rw [if_neg (inv.live_of_booking booking (.inl waiting)).symm]
    exact inv.unused booking
  · change (if t' = t then _ else s.tasks t') ≠ _ at there
    split at there
    · rename_i here
      rw [here]
      exact inv.known t (by rw [waiting]; exact nofun)
    · exact inv.known t' there
  · by_cases here : t' = t
    · rw [here]
      exact inv.live t (.inl waiting)
    · change (if t' = t then _ else s.tasks t') = _ ∨ (if t' = t then _ else s.tasks t') = _ at there
      rw [if_neg here] at there
      exact inv.live t' there
  · by_cases here : t' = t
    · rw [here]
      exact ⟨same, unreleased⟩
    · change (if t' = t then _ else s.tasks t') = _ at there
      rw [if_neg here] at there
      exact inv.running t' there
  · exact inv.done t' (of_setTask done nofun).2
  · exact absurd (unreleased.symm.trans released) nofun
  · change (if t' = t then _ else s.tasks t') ≠ _ ∨ _
    split
    · exact .inl nofun
    · exact inv.waits t' member

theorem release (inv : TurnstileInv s) (running : s.tasks t = .running) :
    TurnstileInv { s.setTask t .done with shown := t, released := true } := by
  obtain ⟨rfl, unreleased⟩ := inv.running t running
  refine ⟨inv.line, inv.last, inv.taken, inv.announced, inv.awaited, fun booking => ?_,
    fun t' there => ?_, fun t' there => ?_, fun t' running' => ?_, fun t' done => ?_, fun _ => if_pos rfl,
    fun t' member => ?_⟩
  · change (if s.turns = s.shown then _ else s.tasks s.turns) = _
    rw [if_neg (inv.live_of_booking booking (.inr running)).symm]
    exact inv.unused booking
  · change (if t' = s.shown then _ else s.tasks t') ≠ _ at there
    split at there
    · rename_i here
      rw [here]
      exact inv.known s.shown (by rw [running]; exact nofun)
    · exact inv.known t' there
  · change (if t' = s.shown then _ else s.tasks t') = _ ∨
      (if t' = s.shown then _ else s.tasks t') = _ at there
    split at there
    · rcases there with no | no <;> cases no
    · exact inv.live t' there
  · -- Only the task at the turn that is shown was running.
    obtain ⟨other, running'⟩ := of_setTask running' nofun
    exact absurd (inv.running t' running').1 other
  · change (if t' = s.shown then _ else s.tasks t') = _ at done
    split at done
    · rename_i here
      exact .inr ⟨here, rfl⟩
    · rcases inv.done t' done with before | ⟨same, -⟩
      · exact .inl before
      · exact .inr ⟨same, rfl⟩
  · change (if t' = s.shown then _ else s.tasks t') ≠ _ ∨ _
    split
    · exact .inl nofun
    · exact inv.waits t' member

/-- **Every step keeps the turnstile in order.** -/
theorem step {act : TurnstileAct} (inv : TurnstileInv s) (step : turnstile.step s act = some s') :
    TurnstileInv s' := by
  cases act with
  | advance =>
      cases agenda : s.agenda with
      | nil =>
          simp only [turnstile, agenda] at step
          cases step
      | cons e rest =>
          cases e with
          | announce t =>
              simp only [turnstile, agenda] at step
              cases step
              exact inv.announced_at agenda
          | await t =>
              have done := inv.done_of_advance agenda step
              simp only [turnstile, agenda] at step
              split at step
              · cases step
                exact inv.awaited_at agenda done
              · cases step
  | _ =>
      simp only [turnstile] at step
      split at step
      · rename_i guard
        cases step
        first
          | exact inv.take guard
          | exact inv.announce guard
          | exact inv.await guard
          | exact inv.publish guard
          | exact inv.abandon (by rcases guard with guard | guard <;> rw [guard] <;> exact nofun)
          | exact inv.enter guard.1 guard.2
          | exact inv.release guard
      · cases step

/-- **A run keeps the turnstile in order.** -/
theorem run {acts : List TurnstileAct} (inv : TurnstileInv s) (ran : turnstile.run acts s = some s') :
    TurnstileInv s' :=
  Machine.run_invariant_of_step (fun _ _ _ inv step => inv.step step) inv ran

end TurnstileInv

end OpenDS.Library
