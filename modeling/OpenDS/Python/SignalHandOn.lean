import OpenDS.Python.CleanupDeadlock

/-!
# What a signal finds when it is handed on

`_signal_cleanup` cleans up and then hands its signal on to the prior disposition, which
may end the process. Whether the driver is closed by then depends on where the signal
arrived: `_cleanup` closes the driver only if it is referenced and no other `_cleanup` is
in progress (`Covered`).

When every signal of a run arrives at a covered point, every hand-on of the run finds the
driver closed, however the signals nest and whatever the prior dispositions raise, and so
does every return from a handler to the code that it interrupted (`handOn_closed`). At a
point that is not covered, an undisturbed handler hands its signal on with the driver
open (`handsOnOpen_of_not_covered`).
-/

set_option autoImplicit false

namespace OpenDS.Python

open OpenDS.Library

/-- Where the handler of a signal closes the driver, if it is open. -/
def Covered (s : ModuleState) : Prop :=
  s.driverOpen = true → 0 < s.driverRefs ∧ s.cleaning = false

namespace HandOn

/-- An operation that gives a signal to the prior disposition. -/
def GivesAway : Op → Prop
  | .invoke _ _ => True
  | .kill _ => True
  | _ => False

/-- Complete handlers have closed the driver. -/
def Closed (s : ModuleState) : Prop := s.driverOpen = false

def After (_ s' : ModuleState) : Prop := Closed s'

def Between (s s' : ModuleState) : Prop := s' = s ∨ Closed s'

theorem laws : Interference Between After where
  refl _ := .inl rfl
  trans s s' s'' first second := by
    rcases second with same | closed
    · exact same ▸ first
    · exact .inr closed
  complete _ _ closed := .inr closed
  before_after _ _ _ _ closed := closed
  after_before s s' s'' closed more := by
    rcases more with same | closed'
    · exact same ▸ closed
    · exact closed'

/-- A signal is given away with the driver closed. -/
def Needs (op : Op) (s : ModuleState) : Prop := GivesAway op → Closed s

/-- The module opens the driver in `_ensure_driver` only. -/
def NotOpening (op : Op) : Prop := op ≠ .driverOpen

theorem exec_closed {env : Env} {op : Op} {s s' : ModuleState} {answer : Except PyError op.Ans}
    (other : NotOpening op) (closed : Closed s) (step : exec env op s = some (answer, s')) :
    Closed s' := by
  unfold Closed at *
  cases op with
  | acquire l =>
      cases l with
      | module =>
          cases step
          exact closed
      | registry =>
          simp only [exec] at step
          split at step
          · cases step
          · cases step
            exact closed
  | release l => cases l <;> cases step <;> exact closed
  | driverOpen => exact absurd rfl other
  | driverClose =>
      cases step
      simp [ModuleState.closeDriver, closed]
  | osOpen | osClose | setsignal | invoke =>
      simp only [exec] at step
      split at step <;> cases step <;> exact closed
  | _ =>
      cases step
      exact closed

/-- The program gives no signal away while the driver is open, and ends with the driver
closed or with a result of the kind that `q` says. -/
abbrev Holds {α : Type} (p : Py α) (q : Except PyError α → Prop) (s : ModuleState) : Prop :=
  p.Keeps host.exec Between After Needs (fun r s => Closed s ∨ q r) s

variable {α β : Type} {q : Except PyError α → Prop} {s : ModuleState}

/-- **A program that does not open the driver is harmless once the driver is closed.** -/
theorem holds_of_closed {p : Py α} (uses : p.Uses NotOpening) (closed : Closed s) :
    Holds p q s := by
  have keeps : p.Keeps host.exec Between After Needs (fun _ => Closed) s := by
    refine uses.keeps laws ?_ ?_ ?_ closed
    · intro s s' during closed
      rcases during with same | closed'
      · exact same ▸ closed
      · exact closed'
    · exact fun op s _ closed _ => closed
    · exact fun env op s answer s' other closed step => exec_closed other closed (host_exec step)
  exact keeps.mono fun _ _ => .inl

theorem holds_done {r : Except PyError α} (ends : Closed s ∨ q r) : Holds (.done r) q s := by
  rcases ends with closed | result
  · exact holds_of_closed (p := .done r) trivial closed
  · exact ⟨fun _ _ => .inr result, fun _ closed _ => .inl closed⟩

/-- One operation. The handlers in between either did not run or closed the driver. -/
theorem holds_act {closing : Bool} {op : Op} {next : Except PyError op.Ans → Py α}
    (uses : (Prog.act closing op next).Uses NotOpening) (keeps : ¬ GivesAway op)
    (step : ∀ env answer s', exec env op s = some (answer, s') → Holds (next answer) q s') :
    Holds (.act closing op next) q s := by
  have shut : ∀ s', Closed s' → Holds (Prog.act closing op next) q s' :=
    fun s' closed => holds_of_closed uses closed
  refine ⟨fun s' during => ⟨fun gives => absurd gives keeps, fun env answer s'' taken => ?_⟩,
    fun opens s' late e => ?_, fun closes s' late env answer s'' taken e => ?_⟩
  · rcases during with same | closed
    · subst same
      exact step _ answer s'' (host_exec taken)
    · exact ((shut s' closed).1 s' (laws.refl s')).2 env answer s'' taken
  · exact (shut s' late).2.1 opens s' late e
  · exact (shut s' late).2.2 closes s' late env answer s'' taken e

/-- The operation answers, and the program goes on. -/
theorem holds_call_bind {op : Op} {f : op.Ans → Py α}
    (uses : (call op >>= f).Uses NotOpening) (keeps : ¬ GivesAway op)
    (step : ∀ env answer s', exec env op s = some (answer, s') →
      ∃ a, answer = .ok a ∧ Holds (f a) q s') : Holds (call op >>= f) q s := by
  refine holds_act uses keeps fun env answer s' taken => ?_
  obtain ⟨a, ok, rest⟩ := step env answer s' taken
  subst ok
  exact rest

/-- A program that ends with a value or with the driver closed is continued. -/
theorem holds_bind {p : Py β} {f : β → Py α} (first : Holds p (fun r => ∃ b, r = .ok b) s)
    (rest : ∀ b s', Holds (f b) q s') : Holds (p >>= f) q s := by
  refine Prog.keeps_followed laws (first.mono fun r s' ends => ?_)
  rcases r with e | b
  · rcases ends with closed | ⟨b, impossible⟩
    · exact holds_done (.inl closed)
    · cases impossible
  · exact rest b s'

/-- A locked section ends as its body does. -/
theorem holds_withLock {l : Lock} {body : Py α} (uses : body.Uses NotOpening)
    (inside : ∀ s', s'.driverOpen = s.driverOpen → s'.driverRefs = s.driverRefs →
      Holds body q s') : Holds (withLock l body) q s := by
  refine holds_call_bind (Prog.uses_within (by nofun) (by nofun) uses) nofun ?_
  intro env answer s' step
  have opened : answer = .ok () ∧ s'.driverOpen = s.driverOpen ∧
      s'.driverRefs = s.driverRefs := by
    cases l with
    | module =>
        cases step
        exact ⟨rfl, rfl, rfl⟩
    | registry =>
        simp only [exec] at step
        split at step
        · cases step
        · cases step
          exact ⟨rfl, rfl, rfl⟩
  obtain ⟨ok, same, refs⟩ := opened
  refine ⟨(), ok, Prog.keeps_followed laws ((inside s' same refs).mono fun r s₁ ends => ?_)⟩
  refine holds_act ⟨nofun, fun answer => by cases answer <;> trivial⟩ (fun gives => gives.elim) ?_
  intro env answer s₂ step
  have released : answer = .ok () ∧ s₂.driverOpen = s₁.driverOpen := by
    cases l <;> cases step <;> exact ⟨rfl, rfl⟩
  obtain ⟨ok, same⟩ := released
  subst ok
  refine holds_done (ends.imp_left fun closed => ?_)
  exact same.trans closed

/-! ## The programs of the handler -/

/-- `_cleanup` does not open the driver. -/
theorem notOpening_of_cleanupOp {op : Op} (cleans : CleanupOp op) : NotOpening op := by
  rintro rfl
  exact cleans.elim

theorem uses_notOpening {α : Type} {p : Py α} (uses : p.Uses CleanupOp) : p.Uses NotOpening :=
  uses.mono fun _ => notOpening_of_cleanupOp

theorem uses_giveAway (sig : Signal) : (giveAway sig).Uses NotOpening := by
  apply Prog.uses_bind (Prog.uses_call nofun)
  intro prev
  split
  · exact Prog.uses_call nofun
  · exact Prog.uses_bind (Prog.uses_call nofun) fun _ => Prog.uses_call nofun

theorem uses_signalCleanup (sig : Signal) : (signalCleanup sig).Uses NotOpening :=
  Prog.uses_bind (uses_notOpening uses_cleanup) fun _ => uses_giveAway sig

/-- The native calls of `_registry.clear()` do not raise, so an exception in it comes from
a handler, which has closed the driver. -/
theorem holds_clearLoop (ptrs : List Nat) :
    Holds (Prog.forEach (fun ptr => call (.bufDeregister ptr)) ptrs) (fun r => ∃ a, r = .ok a)
      s := by
  induction ptrs generalizing s with
  | nil => exact holds_done (.inr ⟨(), rfl⟩)
  | cons ptr rest ih =>
      refine holds_call_bind (uses_notOpening (uses_clearLoop (ptr :: rest))) nofun fun env answer s' step => ?_
      cases step
      exact ⟨(), rfl, ih⟩

theorem holds_registryClear : Holds registryClear (fun r => ∃ a, r = .ok a) s := by
  have last : (call .regsClear : Py Unit).Uses NotOpening := Prog.uses_call nofun
  have loop : ∀ ptrs, (do
      Prog.forEach (fun ptr => call (.bufDeregister ptr)) ptrs
      call .regsClear : Py Unit).Uses NotOpening :=
    fun ptrs => Prog.uses_bind (uses_notOpening (uses_clearLoop ptrs)) fun _ => last
  refine holds_withLock (Prog.uses_bind (Prog.uses_call nofun) loop) fun s' _ _ => ?_
  refine holds_call_bind (Prog.uses_bind (Prog.uses_call nofun) loop) nofun ?_
  intro env answer s₁ step
  cases step
  refine ⟨_, rfl, holds_bind (holds_clearLoop _) fun _ s₂ => ?_⟩
  refine holds_act last nofun fun env answer s₃ step => ?_
  cases step
  exact holds_done (.inr ⟨(), rfl⟩)

/-- The part of `_cleanup` that `_lock` protects, for a driver that is referenced. -/
theorem holds_cleanupDriver (refs : 0 < s.driverRefs) :
    Holds cleanupDriver (fun _ => False) s := by
  refine holds_withLock (uses_notOpening uses_cleanupBody) fun s₁ _ same => ?_
  refine holds_call_bind (uses_notOpening uses_cleanupBody) nofun fun env answer s₂ step => ?_
  cases step
  refine ⟨_, rfl, ?_⟩
  rw [if_pos (same ▸ refs)]
  refine holds_call_bind (uses_notOpening uses_closing) nofun fun env answer s₃ step => ?_
  cases step
  refine ⟨(), rfl, holds_bind holds_registryClear fun _ s₄ => ?_⟩
  have closing : (do
      let _ ← call .driverClose
      call (.setDriverRefs 0) : Py Unit).Uses NotOpening :=
    Prog.uses_bind (Prog.uses_call nofun) fun _ => Prog.uses_call nofun
  refine holds_call_bind closing nofun fun env answer s₅ step => ?_
  obtain ⟨err, closes⟩ := runPy_driverClose env s₄
  rw [closes] at step
  cases step
  exact ⟨err, rfl, holds_of_closed (Prog.uses_call nofun) rfl⟩

/-- **`_cleanup` closes the driver at a covered point**, or is interrupted by a handler
that does. -/
theorem holds_cleanup (refs : 0 < s.driverRefs) (idle : s.cleaning = false) :
    Holds cleanup (fun _ => False) s := by
  refine holds_call_bind (uses_notOpening uses_cleanup) nofun fun env answer s₁ step => ?_
  cases step
  refine ⟨_, rfl, ?_⟩
  rw [if_neg (by simp [idle])]
  refine holds_call_bind (uses_notOpening uses_cleaning) nofun fun env answer s₂ step => ?_
  cases step
  refine ⟨(), rfl, ?_⟩
  refine Prog.keeps_followed laws ((holds_cleanupDriver (by exact refs)).mono fun r s₃ ends => ?_)
  have closed : Closed s₃ := ends.resolve_right id
  exact holds_of_closed (Prog.uses_bind (Prog.uses_call nofun) fun _ => trivial) closed

/-- **The handler gives its signal away with the driver closed**, at a covered point. -/
theorem holds_signalCleanup (sig : Signal) (covered : Covered s) :
    Holds (signalCleanup sig) (fun _ => False) s := by
  cases opened : s.driverOpen with
  | false => exact holds_of_closed (uses_signalCleanup sig) opened
  | true =>
      obtain ⟨refs, idle⟩ := covered opened
      refine Prog.keeps_followed laws ((holds_cleanup refs idle).mono fun r s₁ ends => ?_)
      have closed : Closed s₁ := ends.resolve_right id
      cases r with
      | error e => exact holds_done (.inl closed)
      | ok a => exact holds_of_closed (uses_giveAway sig) closed

end HandOn

/-- The running handler gives its signal to the prior disposition next. -/
def HandsOn (t : Task Op Op.Ans PyError ModuleState) : Prop :=
  ∃ closing op next rest, t.handlers = .act closing op next :: rest ∧ HandOn.GivesAway op

/-- The running handler returns to what it interrupted, or raises there. -/
def Returns (t : Task Op Op.Ans PyError ModuleState) : Prop :=
  ∃ result rest, t.handlers = .done result :: rest

/-! ## A handler at a point that is not covered -/

section Undisturbed

variable {s s' : ModuleState} {main : Py Unit} {rest : List (Py Unit)}
  {t t' : Task Op Op.Ans PyError ModuleState} {sig : Signal}

/-- The running handler gets from one state to the other without a further signal. -/
def Reaches (t t' : Task Op Op.Ans PyError ModuleState) : Prop :=
  ∃ n, host.machine.run (List.replicate n (.tick granted)) t = some t'

theorem Reaches.refl (t : Task Op Op.Ans PyError ModuleState) : Reaches t t := ⟨0, rfl⟩

/-- The next operation of the handler. -/
theorem Reaches.act {closing : Bool} {op : Op} {next : Except PyError op.Ans → Py Unit}
    {answer : Except PyError op.Ans} (alive : s.terminated = false)
    (step : exec granted op s = some (answer, s')) (reaches : Reaches ⟨s', main, next answer :: rest⟩ t') :
    Reaches ⟨s, main, .act closing op next :: rest⟩ t' := by
  obtain ⟨n, ran⟩ := reaches
  have taken : host.machine.step ⟨s, main, .act closing op next :: rest⟩ (.tick granted) =
      some ⟨s', main, next answer :: rest⟩ := by
    have answered : host.exec granted op s = some (answer, s') := by
      simp only [host, alive, Bool.false_eq_true, if_false]
      exact step
    simp [Host.machine, Host.tick, answered]
  refine ⟨n + 1, ?_⟩
  rw [List.replicate_succ, Machine.run_cons, taken]
  exact ran

theorem Reaches.call_bind {op : Op} {f : op.Ans → Py Unit} {a : op.Ans}
    (alive : s.terminated = false) (step : exec granted op s = some (.ok a, s'))
    (reaches : Reaches ⟨s', main, f a :: rest⟩ t') :
    Reaches ⟨s, main, (call op >>= f) :: rest⟩ t' :=
  .act alive step reaches

/-- The handler gives its signal away. -/
theorem reaches_handsOn (main : Py Unit) (rest : List (Py Unit)) (sig : Signal)
    (alive : s.terminated = false) :
    ∃ t', Reaches ⟨s, main, giveAway sig :: rest⟩ t' ∧ HandsOn t' ∧
      t'.world.driverOpen = s.driverOpen := by
  let d := priorDisposition (s.prevHandlers sig)
  cases callable : d.callable with
  | true =>
      refine ⟨⟨s, main, call (.invoke d sig) :: rest⟩, .call_bind alive rfl ?_,
        ⟨false, .invoke d sig, .done, rest, rfl, trivial⟩, rfl⟩
      rw [if_pos callable]
      exact .refl _
  | false =>
      refine ⟨⟨{ s with handlers := Function.update s.handlers sig d }, main,
        call (.kill sig) :: rest⟩, .call_bind alive rfl ?_, ⟨false, .kill sig, .done, rest, rfl,
        trivial⟩, rfl⟩
      rw [if_neg (by simpa using callable)]
      exact .call_bind alive rfl (.refl _)

/-- A handler at a point that is not covered gets past its `_cleanup`. -/
theorem reaches_giveAway (alive : s.terminated = false)
    (idle : s.cleaning = true ∨ ¬ 0 < s.driverRefs)
    (reaches : Reaches ⟨s, main, giveAway sig :: rest⟩ t') :
    Reaches ⟨s, main, signalCleanup sig :: rest⟩ t' := by
  refine .act alive rfl ?_
  change Reaches ⟨s, main, ((if s.cleaning = true then pure () else do
    call (.setCleaning true)
    Prog.tryFinally cleanupDriver (call (.setCleaning false)) : Py Unit) >>=
      fun _ => giveAway sig) :: rest⟩ t'
  cases busy : s.cleaning with
  | true =>
      rw [if_pos rfl]
      exact reaches
  | false =>
      have refs : ¬ 0 < s.driverRefs := idle.resolve_left (by simp [busy])
      rw [if_neg (by decide)]
      refine .act alive rfl (.act alive rfl (.act alive rfl ?_))
      simp only [Prog.followed, gt_iff_lt, if_neg refs]
      have back : ({ s with cleaning := false } : ModuleState) = s := by rw [← busy]
      rw [← back] at reaches
      exact .act alive rfl (.act alive rfl reaches)

/-- **An undisturbed handler gives its signal away with the driver open exactly when its
signal arrives at a point that is not covered.** -/
theorem handsOn_open_of_not_covered (routed : host.routed sig t.world = true)
    (uncovered : ¬ Covered t.world) :
    ∃ n t', host.machine.run (.signal sig :: List.replicate n (.tick granted)) t = some t' ∧
      HandsOn t' ∧ t'.world.driverOpen = true := by
  have alive : t.world.terminated = false := by
    simp only [host, Bool.and_eq_true, Bool.not_eq_true'] at routed
    exact routed.1
  obtain ⟨opened, idle⟩ : t.world.driverOpen = true ∧
      (t.world.cleaning = true ∨ ¬ 0 < t.world.driverRefs) := by
    unfold Covered at uncovered
    cases busy : t.world.cleaning <;> simp_all
  obtain ⟨t', reaches, handsOn, same⟩ :=
    reaches_handsOn t.main t.handlers sig alive
  obtain ⟨n, ran⟩ := reaches_giveAway alive idle reaches
  refine ⟨n, t', ?_, handsOn, same.trans opened⟩
  have started : host.machine.step t (.signal sig) =
      some ⟨t.world, t.main, signalCleanup sig :: t.handlers⟩ := if_pos routed
  rw [Machine.run_cons, started]
  exact ran

end Undisturbed

/-- **Every hand-on of a run finds the driver closed when every signal arrives at a covered
point**, and so does every return from a handler to the code that it interrupted. In every
state of such a run, a signal that arrives at a point that is not covered can be handed on
with the driver open. -/
theorem handOn_closed {handlers : Signal → Disposition} {events : List (Event Env Signal Call)}
    {t : Task Op Op.Ans PyError ModuleState}
    (covered : host.machine.Meets (fun t e => ∀ sig, e = .signal sig → Covered t.world) events
      (freshTask handlers))
    (ran : host.machine.run events (freshTask handlers) = some t) :
    (HandsOn t ∨ Returns t → t.world.driverOpen = false) ∧
      ∀ sig, host.routed sig t.world = true → ¬ Covered t.world →
        ∃ n t', host.machine.run (.signal sig :: List.replicate n (.tick granted)) t = some t' ∧
          HandsOn t' ∧ t'.world.driverOpen = true := by
  refine ⟨?_, fun sig => handsOn_open_of_not_covered⟩
  have finds := Host.run_keeps HandOn.laws (fun sig s _ covered =>
    (HandOn.holds_signalCleanup sig covered).mono fun _ _ ends => ends.resolve_right id) rfl
    covered ran
  rintro (⟨closing, op, next, rest, running, gives⟩ | ⟨result, rest, running⟩)
  · rw [running] at finds
    exact finds gives
  · rw [running] at finds
    obtain ⟨_, closed⟩ := finds
    exact closed

/-- The test that a signal of a run arrives at a covered point. -/
def arrivesCovered (t : Task Op Op.Ans PyError ModuleState) : Event Env Signal Call → Bool
  | .signal _ => !t.world.driverOpen || (0 < t.world.driverRefs && !t.world.cleaning)
  | _ => true

theorem arrivesCovered_sound (t : Task Op Op.Ans PyError ModuleState) (e : Event Env Signal Call)
    (passes : arrivesCovered t e = true) : ∀ sig, e = .signal sig → Covered t.world := by
  intro sig same opened
  subst same
  simpa [arrivesCovered, opened] using passes

/-- A signal after `register_buffer`, up to the point where it is handed on. -/
theorem handOn_closed_registered :
    ((host.machine.run (registerThenSignal 23 16) (freshTask fun _ => .sigDfl)).get
      (by decide)).world.driverOpen = false :=
  (handOn_closed (Machine.meets_of_check arrivesCovered_sound (by decide))
    (Option.some_get _).symm).1 (.inl ⟨_, _, _, _, rfl, trivial⟩)

/-- **A second signal inside the `_registry.clear()` of a first `_cleanup` is handed on to
the default disposition with the driver open.** -/
theorem second_signal_handsOn_open :
    ∃ t, host.machine.run (registerThenSignal 23 6 ++
        .signal .sigterm :: List.replicate 3 (.tick granted)) (freshTask fun _ => .sigDfl) = some t ∧
      HandsOn t ∧ t.world.driverOpen = true :=
  ⟨_, rfl, ⟨false, .kill .sigterm, _, _, rfl, trivial⟩, rfl⟩

end OpenDS.Python
