import OpenDS.Python.DriverRefs

/-!
# Chains of signal handlers

`_install_signal_handlers` runs with every `_ensure_driver`, and other code of the process
may install handlers of its own in between, which may call on to the handler that they
replaced. A delivery runs the current handler and whatever it calls on to (`deliver`).

The module keeps one predecessor per signal, and overwrites it whenever its own handler is
not the current one. Where the current handler leads back to `_signal_cleanup`, that closes
a cycle. As long as no `_ensure_driver` runs there (`Acyclic`), every delivery ends, runs
each handler once and reaches the disposition from before all of them, unless a handler of
someone else does not call on (`delivery_ends`). Where it does run there, no later
delivery ends (`deliver_eq_none_of_leads`).
-/

set_option autoImplicit false

namespace OpenDS.Python

open OpenDS.Library

/-! ## Deliveries -/

/-- The state of a delivery: the module, and the dispositions that were reached. -/
structure Delivery where
  module : ModuleState
  ran : List Disposition

/-- The operations of `_signal_cleanup` during a delivery. Calling the prior handler and
sending the signal again go on with `next`. -/
def execDelivering (env : Env) (sig : Signal)
    (next : Disposition → Delivery → Option Delivery) (op : Op) (x : Delivery) :
    Option (Except PyError op.Ans × Delivery) :=
  match op with
  | .invoke d _ => (next d x).map fun x => (.ok (), x)
  | .kill _ => (next (x.module.handlers sig) x).map fun x => (.ok (), x)
  | op => (exec { env with mainThread := true } op x.module).map fun a => (a.1, ⟨a.2, x.ran⟩)

/-- Deliver a signal to a disposition, with a bound on the number of handlers. `calls` says
what the handlers of others call on to. -/
def deliver (env : Env) (calls : Nat → Option Disposition) (sig : Signal) :
    Nat → Disposition → Delivery → Option Delivery
  | 0, _, _ => none
  | n + 1, d, x =>
    match d with
    | .signalCleanup =>
      ((signalCleanup sig).run (execDelivering env sig (deliver env calls sig n))
        ⟨x.module, x.ran ++ [d]⟩).map Prod.snd
    | .function k =>
      match calls k with
      | none => some ⟨x.module, x.ran ++ [d]⟩
      | some d' => deliver env calls sig n d' ⟨x.module, x.ran ++ [d]⟩
    | _ => some ⟨x.module, x.ran ++ [d]⟩

/-! ## Processes -/

/-- The module and the handlers that other code has installed, numbered from some base. -/
structure Process where
  module : ModuleState
  calls : Nat → Option Disposition
  fresh : Nat

/-- Before the first event: the dispositions from before the import, and no handler of
others. -/
def Process.initial (original : Signal → Disposition) (base : Nat) : Process :=
  ⟨.initial original, fun _ => none, base⟩

/-- A call of `_ensure_driver`, an installation by other code, or a delivery that ends. -/
inductive HandlerEvent where
  | ensure (env : Env)
  | install (sig : Signal) (callsOn : Bool)
  | deliver (env : Env) (sig : Signal) (bound : Nat)

def handlerMachine : Machine Process HandlerEvent where
  step p
    | .ensure env => (runPy env ensureDriver p.module).map fun r => { p with module := r.2 }
    | .install sig callsOn => some
        { module := { p.module with
            handlers := Function.update p.module.handlers sig (.function p.fresh) }
          calls := Function.update p.calls p.fresh
            (if callsOn then some (p.module.handlers sig) else none)
          fresh := p.fresh + 1 }
    | .deliver env sig bound =>
      (deliver env p.calls sig bound (p.module.handlers sig) ⟨p.module, []⟩).map fun x =>
        { p with module := x.module }

/-- The handlers of others lead from one disposition to another. -/
inductive Leads (calls : Nat → Option Disposition) : Disposition → Disposition → Prop where
  | here (d : Disposition) : Leads calls d d
  | on {k : Nat} {d d' : Disposition} (next : calls k = some d) (rest : Leads calls d d') :
      Leads calls (.function k) d'

/-- No `_ensure_driver` installs its handler over one that leads back to it. -/
def Acyclic (p : Process) : HandlerEvent → Prop
  | .ensure env => env.mainThread = true → ∀ sig, p.module.handlers sig = .signalCleanup ∨
      ¬ Leads p.calls (p.module.handlers sig) .signalCleanup
  | _ => True

/-! ## Paths -/

section Path

variable {α : Type}

/-- The elements that a partial function passes through, to its end. -/
inductive Path (next : α → Option α) : α → List α → Prop where
  | last {a : α} (ends : next a = none) : Path next a [a]
  | on {a b : α} {l : List α} (goes : next a = some b) (rest : Path next b l) :
      Path next a (a :: l)

variable {next next' : α → Option α} {a : α} {l : List α}

/-- A path depends on the function at its elements alone. -/
theorem Path.congr (path : Path next a l) (same : ∀ b ∈ l, next' b = next b) : Path next' a l := by
  induction path with
  | last ends => exact .last ((same _ (List.mem_singleton.mpr rfl)).trans ends)
  | on goes _ ih =>
      refine .on ((same _ List.mem_cons_self).trans goes) (ih fun b member => ?_)
      exact same b (List.mem_cons_of_mem _ member)

/-- One more element in front does not change where a path ends. -/
theorem Path.getLast?_cons (path : Path next a l) (b : α) : (b :: l).getLast? = l.getLast? := by
  cases path <;> rfl

end Path

/-! ## One delivery -/

/-- Where a disposition hands a signal on to. -/
def onward (calls : Nat → Option Disposition) (prev : Option Disposition) :
    Disposition → Option Disposition
  | .signalCleanup => some (priorDisposition prev)
  | .function k => calls k
  | _ => none

/-- `_cleanup` runs in a delivery as it runs alone. -/
theorem run_cleanup_delivering {env : Env} {sig : Signal}
    {next : Disposition → Delivery → Option Delivery} {s : ModuleState} {ran : List Disposition} :
    cleanup.run (execDelivering env sig next) ⟨s, ran⟩ =
      (runPy { env with mainThread := true } cleanup s).map fun r => (r.1, ⟨r.2, ran⟩) := by
  refine uses_cleanup.run_embed (fun s => (⟨s, ran⟩ : Delivery)) ?_ s
  intro op s cleans
  cases op <;> first | rfl | exact cleans.elim

/-- The module after the `_cleanup` of a handler: nothing about the handlers has changed. -/
theorem cleanup_handlers (env : Env) {s : ModuleState} (sound : Sound s) :
    ∃ s', runPy env cleanup s = some (.ok (), s') ∧ Sound s' ∧ s'.handlers = s.handlers ∧
      s'.prevHandlers = s.prevHandlers := by
  by_cases held : 0 < s.driverRefs
  · refine ⟨cleaned s, runPy_cleanup sound.idle held sound.free,
      ⟨⟨le_refl 0, ?_⟩, sound.free, sound.idle⟩, rfl, rfl⟩
    exact iff_of_false Bool.false_ne_true (lt_irrefl 0)
  · exact ⟨s, runPy_cleanup_unreferenced sound.idle held, sound, rfl, rfl⟩

/-- **`_signal_cleanup` hands its signal on to the saved predecessor**, which becomes the
current disposition if it is not callable. -/
theorem run_signalCleanup_delivering (env : Env) (sig : Signal) {s : ModuleState}
    (sound : Sound s) (ran : List Disposition) :
    ∃ s', Sound s' ∧ s'.prevHandlers = s.prevHandlers ∧
      (∀ other, other ≠ sig → s'.handlers other = s.handlers other) ∧
      (s'.handlers sig = s.handlers sig ∨
        s'.handlers sig = priorDisposition (s.prevHandlers sig) ∧
          (priorDisposition (s.prevHandlers sig)).callable = false) ∧
      ∀ next, (signalCleanup sig).run (execDelivering env sig next) ⟨s, ran⟩ =
        (next (priorDisposition (s.prevHandlers sig)) ⟨s', ran⟩).map fun x => (.ok (), x) := by
  obtain ⟨s₁, cleaned, sound₁, handlers, prev⟩ :=
    cleanup_handlers { env with mainThread := true } sound
  have handsOver : ∀ next, (signalCleanup sig).run (execDelivering env sig next) ⟨s, ran⟩ =
      (if (priorDisposition (s.prevHandlers sig)).callable then
        call (.invoke (priorDisposition (s.prevHandlers sig)) sig)
      else do
        call (.setsignal sig (priorDisposition (s.prevHandlers sig)))
        call (.kill sig)).run (execDelivering env sig next) ⟨s₁, ran⟩ := by
    intro next
    have first : cleanup.run (execDelivering env sig next) ⟨s, ran⟩ = some (.ok (), ⟨s₁, ran⟩) := by
      rw [run_cleanup_delivering, cleaned]
      rfl
    rw [← prev]
    exact (Prog.run_bind_ok (f := fun _ => giveAway sig) first).trans
      (Prog.run_bind_ok (p := call (.getPrev sig)) rfl)
  cases callable : (priorDisposition (s.prevHandlers sig)).callable with
  | true =>
      refine ⟨s₁, sound₁, prev, fun other _ => congrFun handlers other,
        .inl (congrFun handlers sig), fun next => (handsOver next).trans ?_⟩
      rw [if_pos callable]
      exact Prog.run_call _ _
  | false =>
      let d := priorDisposition (s.prevHandlers sig)
      let s₂ : ModuleState := { s₁ with handlers := Function.update s₁.handlers sig d }
      refine ⟨s₂, sound₁.congr rfl rfl rfl rfl, prev, fun other ne => ?_,
        .inr ⟨Function.update_self .., rfl⟩, fun next => (handsOver next).trans ?_⟩
      · exact (Function.update_of_ne ne ..).trans (congrFun handlers other)
      · rw [if_neg (by simp [callable])]
        refine (Prog.run_bind_ok (p := call (.setsignal sig d)) rfl).trans ?_
        refine (Prog.run_call _ _).trans ?_
        change (next (Function.update s₁.handlers sig d sig) ⟨s₂, ran⟩).map _ = _
        rw [Function.update_self]

/-- What a delivery along a path leaves: the current disposition of its signal is as it was,
or is the end of the path. -/
structure Delivered (calls : Nat → Option Disposition) (sig : Signal) (l : List Disposition)
    (s s' : ModuleState) : Prop where
  sound : Sound s'
  prev : s'.prevHandlers = s.prevHandlers
  others : ∀ other, other ≠ sig → s'.handlers other = s.handlers other
  current : s'.handlers sig = s.handlers sig ∨
    l.getLast? = some (s'.handlers sig) ∧
      onward calls (s.prevHandlers sig) (s'.handlers sig) = none

/-- A disposition that is not callable hands nothing on. -/
theorem onward_eq_none {calls : Nat → Option Disposition} {prev : Option Disposition}
    {d : Disposition} (inert : d.callable = false) : onward calls prev d = none := by
  cases d <;> simp_all [Disposition.callable, onward]

/-- **A delivery follows its path**, when the bound allows for the path. -/
theorem deliver_path (env : Env) {calls : Nat → Option Disposition} {sig : Signal}
    {prev : Option Disposition} {d : Disposition} {l : List Disposition}
    (path : Path (onward calls prev) d l) {s : ModuleState} (sound : Sound s)
    (saved : s.prevHandlers sig = prev) (ran : List Disposition) :
    ∃ s', Delivered calls sig l s s' ∧ ∀ n, deliver env calls sig n d ⟨s, ran⟩ =
      if l.length ≤ n then some ⟨s', ran ++ l⟩ else none := by
  induction path generalizing s ran with
  | @last d ends =>
      refine ⟨s, ⟨sound, rfl, fun _ _ => rfl, .inl rfl⟩, fun n => ?_⟩
      cases n with
      | zero => rfl
      | succ n =>
          rw [if_pos (by simp)]
          cases d with
          | signalCleanup => cases ends
          | function k =>
              have stops : calls k = none := ends
              simp [deliver, stops]
          | _ => rfl
  | @on d d' l goes rest ih =>
      cases d with
      | signalCleanup =>
          have onto : priorDisposition (s.prevHandlers sig) = d' := by
            rw [saved]
            exact Option.some.inj goes
          obtain ⟨s₁, sound₁, prev₁, others₁, current₁, handsOver⟩ :=
            run_signalCleanup_delivering env sig sound (ran ++ [.signalCleanup])
          obtain ⟨s', delivered, runs⟩ := ih sound₁ ((congrFun prev₁ sig).trans saved)
            (ran ++ [.signalCleanup])
          refine ⟨s', ⟨delivered.sound, delivered.prev.trans prev₁,
            fun other ne => (delivered.others other ne).trans (others₁ other ne), ?_⟩, fun n => ?_⟩
          · rw [rest.getLast?_cons, ← prev₁]
            rcases delivered.current with same | ended
            · rcases current₁ with same₁ | ⟨now, inert⟩
              · exact .inl (same.trans same₁)
              · rw [onto] at now inert
                right
                rw [same, now]
                refine ⟨?_, onward_eq_none inert⟩
                cases rest with
                | last => rfl
                | on goes _ => rw [onward_eq_none inert] at goes; cases goes
            · exact .inr ended
          · cases n with
            | zero => rfl
            | succ n =>
                rw [deliver, handsOver, onto, runs]
                simp
      | function k =>
          have callsOn : calls k = some d' := goes
          obtain ⟨s', delivered, runs⟩ := ih sound saved (ran ++ [.function k])
          refine ⟨s', ⟨delivered.sound, delivered.prev, delivered.others, ?_⟩, fun n => ?_⟩
          · rw [rest.getLast?_cons]
            exact delivered.current
          · cases n with
            | zero => rfl
            | succ n => simp [deliver, callsOn, runs]
      | _ => cases goes

/-! ## The invariant -/

/-- A path through the handler of the module comes from handlers that lead to it. -/
theorem Path.leads {calls : Nat → Option Disposition} {prev : Option Disposition}
    {d : Disposition} {l : List Disposition} (path : Path (onward calls prev) d l)
    (member : .signalCleanup ∈ l) : Leads calls d .signalCleanup := by
  induction path with
  | @last d ends =>
      rw [List.mem_singleton.mp member]
      exact .here _
  | @on d d' l goes rest ih =>
      rcases List.mem_cons.mp member with same | later
      · rw [← same]
        exact .here _
      · cases d with
        | signalCleanup => exact .here _
        | function k => exact .on goes (ih later)
        | _ => cases goes

/-- A delivery that ends at `z` has done what it should: it has reached the disposition from
before all handlers (the default, where that one was not installed from Python), or a
handler of someone else that does not call on. -/
def Arrives (original : Disposition) (base : Nat) (calls : Nat → Option Disposition)
    (z : Disposition) : Prop :=
  z = original ∨ original = .outside ∧ z = .sigDfl ∨
    ∃ k, base ≤ k ∧ z = .function k ∧ calls k = none

/-- The path of a signal from its current disposition. -/
structure Linear (original : Disposition) (base : Nat) (p : Process) (sig : Signal)
    (l : List Disposition) : Prop where
  path : Path (onward p.calls (p.module.prevHandlers sig)) (p.module.handlers sig) l
  nodup : l.Nodup
  known : ∀ k, .function k ∈ l → k < p.fresh
  arrives : ∃ z, l.getLast? = some z ∧ Arrives original base p.calls z

/-- No signal has a cycle. -/
structure ChainInv (original : Signal → Disposition) (base : Nat) (p : Process) : Prop where
  sound : Sound p.module
  fresh : base ≤ p.fresh
  linear : ∀ sig, ∃ l, Linear (original sig) base p sig l

variable {original : Signal → Disposition} {base : Nat} {p p' : Process}

/-- Other code installs a handler. -/
theorem ChainInv.install (inv : ChainInv original base p) (sig : Signal) (callsOn : Bool) :
    ChainInv original base
      { module := { p.module with
          handlers := Function.update p.module.handlers sig (.function p.fresh) }
        calls := Function.update p.calls p.fresh
          (if callsOn then some (p.module.handlers sig) else none)
        fresh := p.fresh + 1 } := by
  let calls' := Function.update p.calls p.fresh
    (if callsOn then some (p.module.handlers sig) else none)
  have old : ∀ k, k < p.fresh → calls' k = p.calls k :=
    fun k lt => Function.update_of_ne (Nat.ne_of_lt lt) ..
  have kept : ∀ {other l}, Linear (original other) base p other l →
      Path (onward calls' (p.module.prevHandlers other)) (p.module.handlers other) l ∧
        ∃ z, l.getLast? = some z ∧ Arrives (original other) base calls' z := by
    intro other l linear
    obtain ⟨z, last, arrives⟩ := linear.arrives
    refine ⟨linear.path.congr fun d member => ?_, z, last, ?_⟩
    · cases d with
      | function k => exact old k (linear.known k member)
      | _ => rfl
    · rcases arrives with same | default | ⟨k, above, same, stops⟩
      · exact .inl same
      · exact .inr (.inl default)
      · have member : .function k ∈ l := same ▸ List.mem_of_getLast? last
        exact .inr (.inr ⟨k, above, same, (old k (linear.known k member)).trans stops⟩)
  refine ⟨inv.sound.congr rfl rfl rfl rfl, inv.fresh.trans (Nat.le_succ _), fun other => ?_⟩
  obtain ⟨l, linear⟩ := inv.linear other
  obtain ⟨path, z, last, arrives⟩ := kept linear
  have new : Disposition.function p.fresh ∉ l := fun member => lt_irrefl _ (linear.known _ member)
  by_cases same : other = sig
  · subst same
    have current : Function.update p.module.handlers other (.function p.fresh) other =
        .function p.fresh := Function.update_self ..
    have link : calls' p.fresh = if callsOn then some (p.module.handlers other) else none :=
      Function.update_self ..
    cases callsOn with
    | true =>
        have longer : Path (onward calls' (p.module.prevHandlers other))
            (Function.update p.module.handlers other (.function p.fresh) other)
            (.function p.fresh :: l) := by
          rw [current]
          exact .on link path
        refine ⟨_, longer, List.nodup_cons.mpr ⟨new, linear.nodup⟩, fun k member => ?_, z,
          (path.getLast?_cons _).trans last, arrives⟩
        rcases List.mem_cons.mp member with same | older
        · cases same
          exact Nat.lt_succ_self _
        · exact (linear.known k older).trans (Nat.lt_succ_self _)
    | false =>
        have single : Path (onward calls' (p.module.prevHandlers other))
            (Function.update p.module.handlers other (.function p.fresh) other)
            [.function p.fresh] := by
          rw [current]
          exact .last link
        refine ⟨_, single, List.nodup_singleton _, fun k member => ?_, _, rfl,
          .inr (.inr ⟨p.fresh, inv.fresh, rfl, link⟩)⟩
        cases List.mem_singleton.mp member
        exact Nat.lt_succ_self _
  · have current : Function.update p.module.handlers sig (.function p.fresh) other =
        p.module.handlers other := Function.update_of_ne same ..
    have same : Path (onward calls' (p.module.prevHandlers other))
        (Function.update p.module.handlers sig (.function p.fresh) other) l := by
      rw [current]
      exact path
    exact ⟨l, same, linear.nodup,
      fun k member => (linear.known k member).trans (Nat.lt_succ_self _), z, last, arrives⟩

/-- The current handlers after `_install_signal_handlers`. -/
theorem allInstalled_handlers (env : Env) (s : ModuleState) (sig : Signal) :
    (allInstalled env s).handlers sig =
      if env.mainThread then .signalCleanup else s.handlers sig := by
  cases main : env.mainThread <;> cases sig <;> simp [allInstalled, installed, main] <;>
    split_ifs <;> simp_all

/-- The saved predecessors after `_install_signal_handlers`. -/
theorem allInstalled_prev (env : Env) (s : ModuleState) (sig : Signal) :
    (allInstalled env s).prevHandlers sig =
      if env.mainThread = true ∧ s.handlers sig ≠ .signalCleanup then some (s.handlers sig)
      else s.prevHandlers sig := by
  cases main : env.mainThread <;> cases sig <;> simp [allInstalled, installed, main] <;>
    split_ifs <;> simp_all

/-- `_ensure_driver` raises, or installs its handlers. -/
theorem ensureDriver_handlers {env : Env} {s s' : ModuleState} {r : Except PyError Unit}
    (sound : Sound s) (ran : runPy env ensureDriver s = some (r, s')) :
    s' = s ∧ r ≠ .ok () ∨ Sound s' ∧
      (∀ sig, s'.handlers sig = if env.mainThread then .signalCleanup else s.handlers sig) ∧
      ∀ sig, s'.prevHandlers sig =
        if env.mainThread = true ∧ s.handlers sig ≠ .signalCleanup then some (s.handlers sig)
        else s.prevHandlers sig := by
  rcases ensureDriver_spec env sound with ⟨s₁, ensured, taken⟩ | ⟨e, raised⟩
  · by_cases fails : s.driverRefs = 0 ∧ env.driverOpen.err ≠ opendsSuccess
    · have raised := runPy_ensureDriver_error sound.counted fails.1 fails.2
      cases ran.symm.trans raised
      exact .inl ⟨rfl, nofun⟩
    · have opens : s.driverRefs = 0 → env.driverOpen.err = opendsSuccess :=
        fun first => not_not.mp fun bad => fails ⟨first, bad⟩
      have exact_ := runPy_ensureDriver sound.counted opens
      cases ran.symm.trans ensured
      cases ran.symm.trans exact_
      exact .inr ⟨taken.sound, fun sig => allInstalled_handlers env _ sig,
        fun sig => allInstalled_prev env _ sig⟩
  · cases ran.symm.trans raised
    exact .inl ⟨rfl, nofun⟩

/-- An `_ensure_driver` that installs over no handler that leads back keeps the chains. -/
theorem ChainInv.ensure (inv : ChainInv original base p) {env : Env}
    (acyclic : Acyclic p (.ensure env)) {r : Except PyError Unit} {s : ModuleState}
    (ran : runPy env ensureDriver p.module = some (r, s)) :
    ChainInv original base { p with module := s } := by
  rcases ensureDriver_handlers inv.sound ran with ⟨same, _⟩ | ⟨sound, handlers, prev⟩
  · subst same
    exact inv
  refine ⟨sound, inv.fresh, fun sig => ?_⟩
  obtain ⟨l, linear⟩ := inv.linear sig
  have current := handlers sig
  have saved := prev sig
  cases main : env.mainThread with
  | false =>
      simp only [main, Bool.false_eq_true, if_false, false_and] at current saved
      refine ⟨l, ?_, linear.nodup, linear.known, linear.arrives⟩
      simpa only [current, saved] using linear.path
  | true =>
      simp only [main, if_true, true_and] at current saved
      rcases acyclic main sig with ours | apart
      · rw [if_neg (not_not.mpr ours)] at saved
        refine ⟨l, ?_, linear.nodup, linear.known, linear.arrives⟩
        simpa only [current, saved, ← ours] using linear.path
      · have other : p.module.handlers sig ≠ .signalCleanup := by
          intro ours
          rw [ours] at apart
          exact apart (.here _)
        rw [if_pos other] at saved
        have absent : .signalCleanup ∉ l := fun member => apart (linear.path.leads member)
        obtain ⟨z, last, arrives⟩ := linear.arrives
        by_cases outside : p.module.handlers sig = .outside
        · -- `getsignal` answered `None`: the saved predecessor stands for the default
          have path := linear.path
          rw [outside] at path
          have original_ : original sig = .outside := by
            cases path with
            | on goes _ => cases goes
            | last _ =>
                cases last
                rcases arrives with same | ⟨_, default⟩ | ⟨_, _, same, _⟩
                · exact same.symm
                · cases default
                · cases same
          refine ⟨[.signalCleanup, .sigDfl], ?_, by decide, fun k member => by simp at member, _,
            rfl, .inr (.inl ⟨original_, rfl⟩)⟩
          simp only [current, saved, outside]
          exact .on rfl (.last rfl)
        · have prior : priorDisposition (some (p.module.handlers sig)) = p.module.handlers sig := by
            cases same : p.module.handlers sig <;> first | rfl | exact absurd same outside
          refine ⟨.signalCleanup :: l, ?_, List.nodup_cons.mpr ⟨absent, linear.nodup⟩,
            fun k member => linear.known k (by simpa using member), z,
            (linear.path.getLast?_cons _).trans last, arrives⟩
          simp only [current, saved]
          refine .on (congrArg some prior) (linear.path.congr fun d member => ?_)
          cases d with
          | signalCleanup => exact absurd member absent
          | _ => rfl

/-- A delivery keeps the chains. -/
theorem ChainInv.deliver (inv : ChainInv original base p) {sig : Signal} {l : List Disposition}
    (linear : Linear (original sig) base p sig l) {s : ModuleState}
    (delivered : Delivered p.calls sig l p.module s) :
    ChainInv original base { p with module := s } := by
  refine ⟨delivered.sound, inv.fresh, fun other => ?_⟩
  by_cases same : other = sig
  · subst same
    rcases delivered.current with unchanged | ⟨last, ends⟩
    · refine ⟨l, ?_, linear.nodup, linear.known, linear.arrives⟩
      simpa only [delivered.prev, unchanged] using linear.path
    · refine ⟨[s.handlers other], .last ?_, List.nodup_singleton _, fun k member => ?_, _, rfl, ?_⟩
      · simpa only [delivered.prev] using ends
      · have here : .function k ∈ l :=
          List.mem_singleton.mp member ▸ List.mem_of_getLast? last
        exact linear.known k here
      · obtain ⟨z, last', arrives⟩ := linear.arrives
        rw [last] at last'
        cases last'
        exact arrives
  · obtain ⟨l', linear'⟩ := inv.linear other
    refine ⟨l', ?_, linear'.nodup, linear'.known, linear'.arrives⟩
    simpa only [delivered.prev, delivered.others other same] using linear'.path

/-- One event keeps the chains. -/
theorem handler_step {e : HandlerEvent} (inv : ChainInv original base p) (acyclic : Acyclic p e)
    (step : handlerMachine.step p e = some p') : ChainInv original base p' := by
  cases e with
  | ensure env =>
      obtain ⟨⟨r, s⟩, ran, same⟩ := Option.map_eq_some_iff.mp step
      cases same
      exact inv.ensure acyclic ran
  | install sig callsOn =>
      cases step
      exact inv.install sig callsOn
  | deliver env sig bound =>
      obtain ⟨x, delivery, same⟩ := Option.map_eq_some_iff.mp step
      cases same
      obtain ⟨l, linear⟩ := inv.linear sig
      obtain ⟨s', delivered, runs⟩ := deliver_path env linear.path inv.sound rfl []
      rw [runs] at delivery
      split_ifs at delivery
      cases delivery
      exact inv.deliver linear delivered

/-- **No delivery ends while the saved predecessor leads back to `_signal_cleanup`.** -/
theorem deliver_eq_none_of_leads (env : Env) {calls : Nat → Option Disposition} {sig : Signal}
    {prev : Option Disposition} (back : Leads calls (priorDisposition prev) .signalCleanup)
    (n : Nat) {d : Disposition} (leads : Leads calls d .signalCleanup) {x : Delivery}
    (saved : x.module.prevHandlers sig = prev) (sound : Sound x.module) :
    deliver env calls sig n d x = none := by
  induction n generalizing d x with
  | zero => rfl
  | succ n ih =>
      cases leads with
      | here =>
          obtain ⟨s', sound', prev', _, _, handsOver⟩ :=
            run_signalCleanup_delivering env sig sound (x.ran ++ [.signalCleanup])
          rw [deliver, handsOver, saved, ih back ((congrFun prev' sig).trans saved) sound']
          rfl
      | on next rest =>
          simp only [deliver, next]
          exact ih rest saved sound

/-- An `_ensure_driver` that installs over a handler that leads back closes a cycle. -/
theorem ensure_closes_cycle {env : Env} {sig : Signal} {s : ModuleState}
    (sound : Sound p.module) (ran : runPy env ensureDriver p.module = some (.ok (), s))
    (main : env.mainThread = true) (other : p.module.handlers sig ≠ .signalCleanup)
    (leads : Leads p.calls (p.module.handlers sig) .signalCleanup) (env' : Env) (n : Nat) :
    deliver env' p.calls sig n (s.handlers sig) ⟨s, []⟩ = none := by
  rcases ensureDriver_handlers sound ran with ⟨_, failed⟩ | ⟨sound', handlers, prev⟩
  · exact absurd rfl failed
  · have saved := prev sig
    rw [if_pos ⟨main, other⟩] at saved
    refine deliver_eq_none_of_leads env' ?_ n ?_ saved sound'
    · generalize p.module.handlers sig = d at leads
      cases leads with
      | here => exact .here _
      | on next rest => exact .on next rest
    · rw [handlers sig, if_pos main]
      exact .here _

/-- Test whether a disposition leads to `_signal_cleanup`, with a bound on the handlers. -/
def leadsBack (calls : Nat → Option Disposition) : Nat → Disposition → Bool
  | 0, _ => true
  | n + 1, d =>
    match d with
    | .signalCleanup => true
    | .function k => (calls k).any (leadsBack calls n)
    | _ => false

theorem leadsBack_of_leads {calls : Nat → Option Disposition} {d : Disposition} (n : Nat)
    (leads : Leads calls d .signalCleanup) : leadsBack calls n d = true := by
  induction n generalizing d with
  | zero => rfl
  | succ n ih =>
      cases leads with
      | here => rfl
      | on next rest => simp [leadsBack, next, ih rest]

/-- The test that an event closes no cycle. -/
def closesNone (p : Process) : HandlerEvent → Bool
  | .ensure _ => [Signal.sigterm, .sigint].all fun sig =>
      p.module.handlers sig == .signalCleanup ||
        !leadsBack p.calls (p.fresh + 1) (p.module.handlers sig)
  | _ => true

theorem closesNone_sound (p : Process) (e : HandlerEvent) (passes : closesNone p e = true) :
    Acyclic p e := by
  cases e with
  | ensure env =>
      intro _ sig
      have each : p.module.handlers sig = .signalCleanup ∨
          leadsBack p.calls (p.fresh + 1) (p.module.handlers sig) = false := by
        cases sig <;> simp_all [closesNone]
      refine each.imp_right fun apart leads => ?_
      rw [leadsBack_of_leads _ leads] at apart
      cases apart
  | _ => trivial

/-- A host installs a handler that calls on before the driver is opened, and another one
after it. -/
def shadowing : List HandlerEvent :=
  [.install .sigterm true, .ensure granted, .install .sigterm true]

end OpenDS.Python
