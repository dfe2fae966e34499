import OpenDS.Library.Program
import OpenDS.Library.Transition

/-!
# Programs that signals interrupt

A task runs one program at a time. A signal that arrives between two operations pushes
the program of its handler, which runs to its end before the interrupted program goes
on, and which may itself be interrupted. When a handler raises, the exception arrives at
the point that it interrupted.

`Keeps` is the rule of proof for one program. Each of its operations finds what it needs
when it is reached, and a postcondition holds at the end. Two relations on states say
what a program has to bear in between: `between`, what any number of complete handlers
may have done, and `after`, what holds when at least one has run, so that its exception
may arrive (`Interference`).

The rule for tasks is `Host.run_keeps`. If every handler that is started satisfies
`Keeps` from the state it is started in, with `after` as its postcondition, then every
operation of every handler of the run finds what it needs.
-/

set_option autoImplicit false

namespace OpenDS.Library

variable {Op : Type} {Ans : Op → Type} {ε α β σ ρ ι κ : Type}

/-! ## The rule for one program -/

/-- What complete handlers do to the state of the program that they interrupt: any number
of them does `between`, and one or more do `after`. -/
structure Interference (between after : σ → σ → Prop) : Prop where
  refl : ∀ s, between s s
  trans : ∀ s s' s'', between s s' → between s' s'' → between s s''
  complete : ∀ s s', after s s' → between s s'
  before_after : ∀ s s' s'', between s s' → after s' s'' → after s s''
  after_before : ∀ s s' s'', after s s' → between s' s'' → after s s''

section Keeps

variable (exec : ρ → (op : Op) → σ → Option (Except ε (Ans op) × σ))
  (between after : σ → σ → Prop) (needs : Op → σ → Prop)

/-- From the state, every operation of the program finds what it needs and the end of the
program satisfies the postcondition. -/
def Prog.Keeps : Prog Op Ans ε α → (Except ε α → σ → Prop) → σ → Prop
  | .done result, post, s =>
    (∀ s', between s s' → post result s') ∧ ∀ s', after s s' → ∀ e, post (.error e) s'
  | .act closing op next, post, s =>
    (∀ s', between s s' → needs op s' ∧
      ∀ reply answer s'', exec reply op s' = some (answer, s'') → (next answer).Keeps post s'') ∧
    (closing = false → ∀ s', after s s' → ∀ e, (next (.error e)).Keeps post s') ∧
    (closing = true → ∀ s', after s s' → ∀ reply answer s'',
      exec reply op s' = some (answer, s'') → ∀ e, (next (.error e)).Keeps post s'')

variable {exec between after needs}

theorem Prog.Keeps.mono {p : Prog Op Ans ε α} {post post' : Except ε α → σ → Prop} {s : σ}
    (keeps : p.Keeps exec between after needs post s) (weaker : ∀ r s, post r s → post' r s) :
    p.Keeps exec between after needs post' s := by
  induction p generalizing s with
  | done result =>
      exact ⟨fun s' during => weaker _ _ (keeps.1 s' during),
        fun s' raised e => weaker _ _ (keeps.2 s' raised e)⟩
  | act closing op next ih =>
      obtain ⟨answered, raised, closed⟩ := keeps
      refine ⟨fun s' during => ⟨(answered s' during).1, fun reply answer s'' step => ?_⟩, ?_, ?_⟩
      · exact ih _ ((answered s' during).2 reply answer s'' step)
      · intro opens s' late e
        exact ih _ (raised opens s' late e)
      · intro closes s' late reply answer s'' step e
        exact ih _ (closed closes s' late reply answer s'' step e)

/-- A program is continued from what it ensures. -/
theorem Prog.keeps_followed (laws : Interference between after) {p : Prog Op Ans ε α}
    {f : Except ε α → Prog Op Ans ε β} {post : Except ε β → σ → Prop} {s : σ}
    (keeps : p.Keeps exec between after needs
      (fun r => (f r).Keeps exec between after needs post) s) :
    (p.followed f).Keeps exec between after needs post s := by
  induction p generalizing s with
  | done result => exact keeps.1 s (laws.refl s)
  | act closing op next ih =>
      obtain ⟨answered, raised, closed⟩ := keeps
      refine ⟨fun s' during => ⟨(answered s' during).1, fun reply answer s'' step => ?_⟩, ?_, ?_⟩
      · exact ih _ ((answered s' during).2 reply answer s'' step)
      · intro opens s' late e
        exact ih _ (raised opens s' late e)
      · intro closes s' late reply answer s'' step e
        exact ih _ (closed closes s' late reply answer s'' step e)

/-- What complete handlers did does no harm to the program that they interrupted. -/
theorem Prog.Keeps.resume (laws : Interference between after) {p : Prog Op Ans ε α}
    {post : Except ε α → σ → Prop} {s s' : σ} (keeps : p.Keeps exec between after needs post s)
    (during : between s s') : p.Keeps exec between after needs post s' := by
  cases p with
  | done result =>
      exact ⟨fun s'' more => keeps.1 s'' (laws.trans s s' s'' during more),
        fun s'' late => keeps.2 s'' (laws.before_after s s' s'' during late)⟩
  | act closing op next =>
      exact ⟨fun s'' more => keeps.1 s'' (laws.trans s s' s'' during more),
        fun opens s'' late => keeps.2.1 opens s'' (laws.before_after s s' s'' during late),
        fun closes s'' late => keeps.2.2 closes s'' (laws.before_after s s' s'' during late)⟩

/-- An exception may arrive at any point where a handler has run. -/
theorem Prog.Keeps.interrupt (laws : Interference between after) {p : Prog Op Ans ε α}
    {post : Except ε α → σ → Prop} {s s' : σ} (keeps : p.Keeps exec between after needs post s)
    (late : after s s') (e : ε) : (p.interrupt e).Keeps exec between after needs post s' := by
  have later : ∀ s'', between s' s'' → after s s'' :=
    fun s'' more => laws.after_before s s' s'' late more
  cases p with
  | done result =>
      exact ⟨fun s'' more => keeps.2 s'' (later s'' more) e,
        fun s'' again e' => keeps.2 s'' (later s'' (laws.complete s' s'' again)) e'⟩
  | act closing op next =>
      cases closing with
      | false => exact keeps.2.1 rfl s' late e
      | true =>
          have closed := keeps.2.2 rfl
          refine ⟨fun s'' more => ⟨?_, ?_⟩, nofun, fun _ s'' again => ?_⟩
          · exact (keeps.1 s'' (laws.complete s s'' (later s'' more))).1
          · intro reply answer s₁ step
            exact closed s'' (later s'' more) reply answer s₁ step e
          · intro reply answer s₁ step _
            exact closed s'' (later s'' (laws.complete s' s'' again)) reply answer s₁ step e

/-- A program keeps what all the operations that it uses keep. -/
theorem Prog.Uses.keeps (laws : Interference between after) {permitted : Op → Prop}
    {inv : σ → Prop} {p : Prog Op Ans ε α} (uses : p.Uses permitted)
    (stable : ∀ s s', between s s' → inv s → inv s')
    (enough : ∀ op s, permitted op → inv s → needs op s)
    (step : ∀ reply op s answer s', permitted op → inv s →
      exec reply op s = some (answer, s') → inv s') {s : σ} (start : inv s) :
    p.Keeps exec between after needs (fun _ => inv) s := by
  induction p generalizing s with
  | done result =>
      exact ⟨fun s' during => stable s s' during start,
        fun s' late _ => stable s s' (laws.complete s s' late) start⟩
  | act closing op next ih =>
      refine ⟨fun s' during => ?_, fun _ s' late e => ?_, fun _ s' late reply answer s'' taken e => ?_⟩
      · have here : inv s' := stable s s' during start
        exact ⟨enough op s' uses.1 here, fun reply answer s'' taken =>
          ih _ (uses.2 _) (step reply op s' answer s'' uses.1 here taken)⟩
      · exact ih _ (uses.2 _) (stable s s' (laws.complete s s' late) start)
      · have here : inv s' := stable s s' (laws.complete s s' late) start
        exact ih _ (uses.2 _) (step reply op s' answer s'' uses.1 here taken)

/-! ### Postconditions on the state alone

A postcondition that complete handlers preserve is *stable*. -/

/-- What complete handlers do preserves the property. -/
def Stable (between : σ → σ → Prop) (inv : σ → Prop) : Prop :=
  ∀ s s', between s s' → inv s → inv s'

theorem Prog.keeps_done (laws : Interference between after) {inv : σ → Prop}
    (stable : Stable between inv) {r : Except ε α} {s : σ} (holds : inv s) :
    (Prog.done r : Prog Op Ans ε α).Keeps exec between after needs (fun _ => inv) s :=
  ⟨fun s' during => stable s s' during holds,
    fun s' late _ => stable s s' (laws.complete s s' late) holds⟩

/-- A program is continued when it ends with a value. -/
theorem Prog.keeps_bind (laws : Interference between after) (mid : σ → Prop) {inv : σ → Prop}
    (stable : Stable between inv) {p : Prog Op Ans ε α} {f : α → Prog Op Ans ε β} {s : σ}
    (first : p.Keeps exec between after needs (fun _ => mid) s) (weaker : ∀ s, mid s → inv s)
    (rest : ∀ a s, mid s → (f a).Keeps exec between after needs (fun _ => inv) s) :
    (p >>= f).Keeps exec between after needs (fun _ => inv) s := by
  refine Prog.keeps_followed laws (first.mono fun r s' holds => ?_)
  cases r with
  | ok a => exact rest a s' holds
  | error e => exact Prog.keeps_done laws stable (weaker s' holds)

/-- One operation, and what follows. -/
theorem Prog.keeps_call_bind (laws : Interference between after) {inv : σ → Prop}
    (stable : Stable between inv) {op : Op} {f : Ans op → Prog Op Ans ε β} {s : σ}
    (raised : ∀ s', after s s' → inv s')
    (step : ∀ s', between s s' → needs op s' ∧
      ∀ reply answer s'', exec reply op s' = some (answer, s'') →
        match answer with
        | .ok a => (f a).Keeps exec between after needs (fun _ => inv) s''
        | .error _ => inv s'') :
    (Prog.call op >>= f).Keeps exec between after needs (fun _ => inv) s := by
  refine ⟨fun s' during => ⟨(step s' during).1, fun reply answer s'' taken => ?_⟩, ?_, nofun⟩
  · have next := (step s' during).2 reply answer s'' taken
    cases answer with
    | ok a => exact next
    | error e => exact Prog.keeps_done laws stable next
  · intro _ s' late e
    exact Prog.keeps_done laws stable (raised s' late)

/-- One operation at the end. -/
theorem Prog.keeps_call (laws : Interference between after) {inv : σ → Prop}
    (stable : Stable between inv) {op : Op} {s : σ} (raised : ∀ s', after s s' → inv s')
    (step : ∀ s', between s s' → needs op s' ∧
      ∀ reply answer s'', exec reply op s' = some (answer, s'') → inv s'') :
    (Prog.call op : Prog Op Ans ε (Ans op)).Keeps exec between after needs (fun _ => inv) s :=
  ⟨fun s' during => ⟨(step s' during).1, fun reply answer s'' taken =>
      Prog.keeps_done laws stable ((step s' during).2 reply answer s'' taken)⟩,
    fun _ s' late _ => Prog.keeps_done laws stable (raised s' late), nofun⟩

/-- The `finally` clause runs from what the body ensures. -/
theorem Prog.keeps_tryFinally (laws : Interference between after) (mid : σ → Prop) {inv : σ → Prop}
    (stable : Stable between inv) {p : Prog Op Ans ε α} {last : Prog Op Ans ε Unit} {s : σ}
    (first : p.Keeps exec between after needs (fun _ => mid) s)
    (final : ∀ s, mid s → last.Keeps exec between after needs (fun _ => inv) s) :
    (p.tryFinally last).Keeps exec between after needs (fun _ => inv) s := by
  refine Prog.keeps_followed laws (first.mono fun r s' holds => ?_)
  exact Prog.keeps_bind laws inv stable (final s' holds) (fun _ => id)
    fun _ _ holds => Prog.keeps_done laws stable holds

/-- A scope is left from what its body ensures. -/
theorem Prog.keeps_within (laws : Interference between after) (mid : σ → Prop) {inv : σ → Prop}
    (stable : Stable between inv) {enter exit : Op} {p : Prog Op Ans ε α} {s : σ}
    (raised : ∀ s', after s s' → inv s')
    (entered : ∀ s', between s s' → needs enter s' ∧
      ∀ reply answer s'', exec reply enter s' = some (answer, s'') →
        match answer with
        | .ok _ => p.Keeps exec between after needs (fun _ => mid) s''
        | .error _ => inv s'')
    (left : ∀ s s', mid s → between s s' → needs exit s' ∧
      ∀ reply answer s'', exec reply exit s' = some (answer, s'') → inv s'') :
    (Prog.within enter exit p).Keeps exec between after needs (fun _ => inv) s := by
  refine Prog.keeps_call_bind laws stable raised fun s' during => ?_
  refine ⟨(entered s' during).1, fun reply answer s'' taken => ?_⟩
  have body := (entered s' during).2 reply answer s'' taken
  cases answer with
  | error e => exact body
  | ok a =>
      refine Prog.keeps_followed laws (body.mono fun r s₁ inside => ?_)
      refine ⟨fun s₂ during => ⟨(left s₁ s₂ inside during).1, fun reply answer s₃ taken => ?_⟩,
        nofun, fun _ s₂ late reply answer s₃ taken e => ?_⟩
      · have outside := (left s₁ s₂ inside during).2 reply answer s₃ taken
        cases answer <;> exact Prog.keeps_done laws stable outside
      · have outside := (left s₁ s₂ inside (laws.complete s₁ s₂ late)).2 reply answer s₃ taken
        exact Prog.keeps_done laws stable outside

end Keeps

/-! ## Tasks -/

/-- What a task runs: its operations, the programs of its handlers, which signals are
routed to them, and the programs that it is called with. -/
structure Host (Op : Type) (Ans : Op → Type) (ε σ ρ ι κ : Type) where
  exec : ρ → (op : Op) → σ → Option (Except ε (Ans op) × σ)
  handler : ι → Prog Op Ans ε Unit
  routed : ι → σ → Bool
  start : κ → Prog Op Ans ε Unit

/-- A task: the shared state, the interrupted program, and the active handlers with the
running one in front. -/
structure Task (Op : Type) (Ans : Op → Type) (ε σ : Type) where
  world : σ
  main : Prog Op Ans ε Unit
  handlers : List (Prog Op Ans ε Unit)

/-- What happens to a task next. -/
inductive Event (ρ ι κ : Type) where
  | tick (reply : ρ)
  | signal (i : ι)
  | call (k : κ)

namespace Host

variable (h : Host Op Ans ε σ ρ ι κ)

/-- Let the running program take its next operation, or return to what it interrupted. -/
def tick (reply : ρ) (t : Task Op Ans ε σ) : Option (Task Op Ans ε σ) :=
  match t.handlers with
  | [] =>
    match t.main with
    | .done _ => none
    | .act _ op next => (h.exec reply op t.world).map fun a => ⟨a.2, next a.1, []⟩
  | .act _ op next :: rest =>
    (h.exec reply op t.world).map fun a => ⟨a.2, t.main, next a.1 :: rest⟩
  | .done (.ok _) :: rest => some { t with handlers := rest }
  | .done (.error e) :: rest =>
    match rest with
    | [] => some { t with main := t.main.interrupt e, handlers := [] }
    | outer :: rest => some { t with handlers := outer.interrupt e :: rest }

/-- One step of a task. -/
def machine : Machine (Task Op Ans ε σ) (Event ρ ι κ) where
  step t
    | .tick reply => h.tick reply t
    | .signal i =>
      if h.routed i t.world then some { t with handlers := h.handler i :: t.handlers } else none
    | .call k =>
      match t.handlers, t.main with
      | [], .done _ => some { t with main := h.start k }
      | _, _ => none

section Rule

variable (between after : σ → σ → Prop) (needs : Op → σ → Prop)

/-- Each active handler keeps its rule, from the state in which it is interrupted, and
ends in a state that the interrupted one can go on from. -/
inductive Stacked : List (Prog Op Ans ε Unit) → σ → Prop
  | nil (s : σ) : Stacked [] s
  | cons {p : Prog Op Ans ε Unit} {rest : List (Prog Op Ans ε Unit)} {s₀ s : σ}
      (running : p.Keeps h.exec between after needs (fun _ => after s₀) s)
      (below : Stacked rest s₀) : Stacked (p :: rest) s

variable {h between after needs}

/-- A stack can go on after a complete handler. -/
theorem Stacked.resume (laws : Interference between after)
    {handlers : List (Prog Op Ans ε Unit)} {s s' : σ}
    (stacked : Stacked h between after needs handlers s) (during : between s s') :
    Stacked h between after needs handlers s' := by
  cases stacked with
  | nil => exact .nil s'
  | cons running below => exact .cons (running.resume laws during) below

/-- One step keeps the stack, when the signal of the step starts a handler that keeps its
rule. -/
theorem step_stacked (laws : Interference between after) {cond : ι → σ → Prop}
    (starts : ∀ i s, h.routed i s = true → cond i s →
      (h.handler i).Keeps h.exec between after needs (fun _ => after s) s)
    {t t' : Task Op Ans ε σ} {e : Event ρ ι κ}
    (stacked : Stacked h between after needs t.handlers t.world)
    (meets : ∀ i, e = .signal i → cond i t.world) (step : h.machine.step t e = some t') :
    Stacked h between after needs t'.handlers t'.world := by
  cases e with
  | call k =>
      simp only [machine] at step
      split at step
      · cases step
        simp_all
      · cases step
  | signal i =>
      simp only [machine] at step
      split at step
      case isTrue routed =>
        cases step
        exact .cons (starts i t.world routed (meets i rfl)) stacked
      case isFalse => cases step
  | tick reply =>
      obtain ⟨s, main, handlers⟩ := t
      simp only [machine, tick] at step
      cases stacked with
      | nil =>
          cases main with
          | done result => cases step
          | act closing op next =>
              obtain ⟨a, _, same⟩ := Option.map_eq_some_iff.mp step
              cases same
              exact .nil _
      | @cons p rest s₀ _ running below =>
          cases p with
          | act closing op next =>
              obtain ⟨⟨answer, s'⟩, taken, same⟩ := Option.map_eq_some_iff.mp step
              cases same
              exact .cons ((running.1 s (laws.refl s)).2 reply answer s' taken) below
          | done result =>
              have ended : after s₀ s := running.1 s (laws.refl s)
              cases result with
              | ok a =>
                  cases step
                  exact below.resume laws (laws.complete _ _ ended)
              | error e =>
                  cases below with
                  | nil =>
                      cases step
                      exact .nil s
                  | cons outer rest =>
                      cases step
                      exact .cons (outer.interrupt laws ended e) rest

/-- **The rule for tasks.** When every signal of the run is delivered in a state from which
its handler keeps the rule, every operation that a handler reaches finds what it needs,
and a handler that is about to end has done what it is for. -/
theorem run_keeps (laws : Interference between after) {cond : ι → σ → Prop}
    (starts : ∀ i s, h.routed i s = true → cond i s →
      (h.handler i).Keeps h.exec between after needs (fun _ => after s) s)
    {events : List (Event ρ ι κ)} {t t' : Task Op Ans ε σ} (idle : t.handlers = [])
    (meets : h.machine.Meets (fun t e => ∀ i, e = .signal i → cond i t.world) events t)
    (ran : h.machine.run events t = some t') :
    match t'.handlers with
    | [] => True
    | .act _ op _ :: _ => needs op t'.world
    | .done _ :: _ => ∃ s₀, after s₀ t'.world := by
  have keeps : ∀ t e t', Stacked h between after needs t.handlers t.world →
      (∀ i, e = Event.signal i → cond i t.world) → h.machine.step t e = some t' →
      Stacked h between after needs t'.handlers t'.world := by
    intro t e t' stacked meets step
    exact step_stacked laws starts stacked meets step
  have start : Stacked h between after needs t.handlers t.world := by
    rw [idle]
    exact .nil _
  have stacked := Machine.run_invariant keeps start meets ran
  generalize t'.handlers = handlers at stacked ⊢
  cases stacked with
  | nil => trivial
  | @cons p rest s₀ _ running below =>
      cases p with
      | act closing op next => exact (running.1 _ (laws.refl _)).1
      | done result => exact ⟨s₀, running.1 _ (laws.refl _)⟩

end Rule

end Host

end OpenDS.Library
