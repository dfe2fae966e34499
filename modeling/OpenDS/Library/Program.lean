import Mathlib

/-!
# Programs over operations

A program is a tree of operations. An operation answers with a value or with an
exception, and the program goes on from the answer, so handling an exception,
a `finally` block and a scoped lock are ordinary programs.

A program has two readings here. `Prog.run` executes it to its end over operations that
are given by a function on the state. `Prog.expand` replaces each operation by a program
over smaller operations, and `Prog.run_expand` says that the two readings agree.

`Prog.interrupt` is what an exception does to a program that is interrupted between two
operations. The program continues as if its next operation had raised, except that an
operation that closes a scope is carried out first.
-/

set_option autoImplicit false

namespace OpenDS.Library

/-- A program that ends with an `α` or raises an `ε`. The flag of an operation says that
it is carried out even when an exception arrives in front of it. -/
inductive Prog (Op : Type) (Ans : Op → Type) (ε α : Type) where
  | done (result : Except ε α)
  | act (closing : Bool) (op : Op) (next : Except ε (Ans op) → Prog Op Ans ε α)

namespace Prog

variable {Op Op' : Type} {Ans : Op → Type} {Ans' : Op' → Type} {ε α β γ σ : Type}

/-- Continue from the result of a program, whichever it is. -/
def followed : Prog Op Ans ε α → (Except ε α → Prog Op Ans ε β) → Prog Op Ans ε β
  | .done result, f => f result
  | .act closing op next, f => .act closing op fun answer => (next answer).followed f

/-- Continue from the value of a program. -/
def bind (p : Prog Op Ans ε α) (f : α → Prog Op Ans ε β) : Prog Op Ans ε β :=
  p.followed fun
    | .ok a => f a
    | .error e => .done (.error e)

instance : Monad (Prog Op Ans ε) where
  pure a := .done (.ok a)
  bind := bind

/-- Raise an exception. -/
def raise (e : ε) : Prog Op Ans ε α := .done (.error e)

/-- One operation. -/
def call (op : Op) : Prog Op Ans ε (Ans op) := .act false op .done

/-- `try: p` with an `except` clause for the exceptions that it `catches`. -/
def tryExcept (p : Prog Op Ans ε α) (catches : ε → Bool) (handle : ε → Prog Op Ans ε α) :
    Prog Op Ans ε α :=
  p.followed fun
    | .ok a => .done (.ok a)
    | .error e => if catches e then handle e else .done (.error e)

/-- `try: p` with a `finally` clause. -/
def tryFinally (p : Prog Op Ans ε α) (last : Prog Op Ans ε Unit) : Prog Op Ans ε α :=
  p.followed fun result => last.bind fun _ => .done result

/-- `with`: the body runs after the `enter` operation, and `exit` is carried out however
the body ends. -/
def within (enter exit : Op) (p : Prog Op Ans ε α) : Prog Op Ans ε α :=
  (call enter).bind fun _ => p.followed fun result =>
    .act true exit fun
      | .ok _ => .done result
      | .error e => .done (.error e)

/-- Run a program for each element of a list. -/
def forEach {ι : Type} (body : ι → Prog Op Ans ε Unit) : List ι → Prog Op Ans ε Unit
  | [] => .done (.ok ())
  | i :: rest => (body i).bind fun _ => forEach body rest

/-- An exception arrives between two operations. -/
def interrupt (e : ε) : Prog Op Ans ε α → Prog Op Ans ε α
  | .done _ => .done (.error e)
  | .act false _ next => next (.error e)
  | .act true op next => .act true op fun _ => next (.error e)

/-! ## Running to the end -/

/-- Execute a program, over operations that may block. -/
def run (exec : (op : Op) → σ → Option (Except ε (Ans op) × σ)) :
    Prog Op Ans ε α → σ → Option (Except ε α × σ)
  | .done result, s => some (result, s)
  | .act _ op next, s => (exec op s).bind fun answer => (next answer.1).run exec answer.2

variable {exec : (op : Op) → σ → Option (Except ε (Ans op) × σ)}

@[simp] theorem run_done (result : Except ε α) (s : σ) :
    (Prog.done result : Prog Op Ans ε α).run exec s = some (result, s) := rfl

@[simp] theorem run_pure (a : α) (s : σ) :
    (pure a : Prog Op Ans ε α).run exec s = some (.ok a, s) := rfl

@[simp] theorem run_raise (e : ε) (s : σ) :
    (raise e : Prog Op Ans ε α).run exec s = some (.error e, s) := rfl

@[simp] theorem run_act (closing : Bool) (op : Op) (next : Except ε (Ans op) → Prog Op Ans ε α)
    (s : σ) : (Prog.act closing op next).run exec s =
      (exec op s).bind fun answer => (next answer.1).run exec answer.2 := rfl

theorem run_followed (p : Prog Op Ans ε α) (f : Except ε α → Prog Op Ans ε β) (s : σ) :
    (p.followed f).run exec s = (p.run exec s).bind fun r => (f r.1).run exec r.2 := by
  induction p generalizing s with
  | done result => rfl
  | act closing op next ih =>
      simp only [followed, run_act, Option.bind_assoc]
      congr 1
      funext answer
      exact ih answer.1 answer.2

@[simp] theorem run_call (op : Op) (s : σ) :
    (call op : Prog Op Ans ε (Ans op)).run exec s = exec op s := by
  simp [call]

theorem run_bind (p : Prog Op Ans ε α) (f : α → Prog Op Ans ε β) (s : σ) :
    (p >>= f).run exec s = (p.run exec s).bind fun r =>
      match r.1 with
      | .ok a => (f a).run exec r.2
      | .error e => some (.error e, r.2) := by
  change (p.followed _).run exec s = _
  rw [run_followed]
  congr 1
  funext r
  cases r.1 <;> rfl

/-- A program that ends with a value hands it on. -/
theorem run_bind_ok {p : Prog Op Ans ε α} {f : α → Prog Op Ans ε β} {s s' : σ} {a : α}
    (ran : p.run exec s = some (.ok a, s')) : (p >>= f).run exec s = (f a).run exec s' := by
  rw [run_bind, ran]
  rfl

/-- A program that raises is not continued. -/
theorem run_bind_error {p : Prog Op Ans ε α} {f : α → Prog Op Ans ε β} {s s' : σ} {e : ε}
    (ran : p.run exec s = some (.error e, s')) : (p >>= f).run exec s = some (.error e, s') := by
  rw [run_bind, ran]
  rfl

theorem run_tryExcept (p : Prog Op Ans ε α) (catches : ε → Bool)
    (handle : ε → Prog Op Ans ε α) (s : σ) :
    (p.tryExcept catches handle).run exec s = (p.run exec s).bind fun r =>
      match r.1 with
      | .ok a => some (.ok a, r.2)
      | .error e => if catches e then (handle e).run exec r.2 else some (.error e, r.2) := by
  rw [tryExcept, run_followed]
  congr 1
  funext r
  rcases r.1 with e | a
  · dsimp only
    split <;> rfl
  · rfl

theorem run_tryFinally (p : Prog Op Ans ε α) (last : Prog Op Ans ε Unit) (s : σ) :
    (p.tryFinally last).run exec s = (p.run exec s).bind fun r =>
      (last.run exec r.2).bind fun l =>
        match l.1 with
        | .ok _ => some (r.1, l.2)
        | .error e => some (.error e, l.2) := by
  rw [tryFinally, run_followed]
  congr 1
  funext r
  refine (run_bind last (fun _ => .done r.1) r.2).trans ?_
  congr 1
  funext l
  cases l.1 <;> rfl

theorem run_within (enter exit : Op) (p : Prog Op Ans ε α) (s : σ) :
    (within enter exit p).run exec s = (exec enter s).bind fun entered =>
      match entered.1 with
      | .error e => some (.error e, entered.2)
      | .ok _ => (p.run exec entered.2).bind fun r =>
          (exec exit r.2).bind fun left =>
            match left.1 with
            | .ok _ => some (r.1, left.2)
            | .error e => some (.error e, left.2) := by
  refine (run_bind (call enter) _ s).trans ?_
  rw [run_call]
  congr 1
  funext entered
  rcases entered.1 with e | a
  · rfl
  · dsimp only
    rw [run_followed]
    congr 1
    funext r
    rw [run_act]
    congr 1
    funext left
    rcases left.1 <;> rfl

/-! ## Smaller operations -/

/-- Replace each operation by its program. -/
def expand (body : (op : Op) → Prog Op' Ans' ε (Ans op)) :
    Prog Op Ans ε α → Prog Op' Ans' ε α
  | .done result => .done result
  | .act _ op next => (body op).followed fun answer => (next answer).expand body

/-- **An expanded program runs as the program does over operations that run their
expansions.** -/
theorem run_expand {exec' : (op : Op') → σ → Option (Except ε (Ans' op) × σ)}
    (body : (op : Op) → Prog Op' Ans' ε (Ans op)) (p : Prog Op Ans ε α) (s : σ) :
    (p.expand body).run exec' s = p.run (fun op => (body op).run exec') s := by
  induction p generalizing s with
  | done result => rfl
  | act closing op next ih =>
      rw [expand, run_followed, run_act]
      congr 1
      funext answer
      exact ih answer.1 answer.2

/-! ## The operations of a program -/

/-- Every operation that the program can reach is permitted. -/
def Uses (permitted : Op → Prop) : Prog Op Ans ε α → Prop
  | .done _ => True
  | .act _ op next => permitted op ∧ ∀ answer, (next answer).Uses permitted

variable {permitted : Op → Prop}

theorem uses_followed {p : Prog Op Ans ε α} {f : Except ε α → Prog Op Ans ε β}
    (first : p.Uses permitted) (rest : ∀ result, (f result).Uses permitted) :
    (p.followed f).Uses permitted := by
  induction p with
  | done result => exact rest result
  | act closing op next ih => exact ⟨first.1, fun answer => ih answer (first.2 answer)⟩

theorem uses_bind {p : Prog Op Ans ε α} {f : α → Prog Op Ans ε β} (first : p.Uses permitted)
    (rest : ∀ a, (f a).Uses permitted) : (p >>= f).Uses permitted := by
  apply uses_followed first
  intro result
  cases result with
  | error e => trivial
  | ok a => exact rest a

theorem uses_call {op : Op} (allowed : permitted op) :
    (call op : Prog Op Ans ε (Ans op)).Uses permitted :=
  ⟨allowed, fun _ => trivial⟩

theorem uses_tryFinally {p : Prog Op Ans ε α} {last : Prog Op Ans ε Unit}
    (first : p.Uses permitted) (final : last.Uses permitted) :
    (p.tryFinally last).Uses permitted :=
  uses_followed first fun _ => uses_bind final fun _ => trivial

theorem uses_within {enter exit : Op} {p : Prog Op Ans ε α} (enters : permitted enter)
    (exits : permitted exit) (inner : p.Uses permitted) :
    (within enter exit p).Uses permitted := by
  apply uses_bind (uses_call enters)
  intro _
  apply uses_followed inner
  intro _
  refine ⟨exits, fun answer => ?_⟩
  cases answer <;> trivial

theorem uses_forEach {ι : Type} {body : ι → Prog Op Ans ε Unit}
    (each : ∀ i, (body i).Uses permitted) (items : List ι) :
    (forEach body items).Uses permitted := by
  induction items with
  | nil => trivial
  | cons i rest ih => exact uses_bind (each i) fun _ => ih

theorem Uses.mono {other : Op → Prop} (weaker : ∀ op, permitted op → other op)
    {p : Prog Op Ans ε α} (uses : p.Uses permitted) : p.Uses other := by
  induction p with
  | done result => trivial
  | act closing op next ih => exact ⟨weaker op uses.1, fun answer => ih answer (uses.2 answer)⟩

/-- A program runs alike over two sets of operations that agree, up to an embedding of the
state, where the program uses them. -/
theorem Uses.run_embed {τ : Type} {exec : (op : Op) → σ → Option (Except ε (Ans op) × σ)}
    {exec' : (op : Op) → τ → Option (Except ε (Ans op) × τ)} (embed : σ → τ)
    {p : Prog Op Ans ε α} (uses : p.Uses permitted)
    (same : ∀ op s, permitted op →
      exec' op (embed s) = (exec op s).map fun a => (a.1, embed a.2)) (s : σ) :
    p.run exec' (embed s) = (p.run exec s).map fun r => (r.1, embed r.2) := by
  induction p generalizing s with
  | done result => rfl
  | act closing op next ih =>
      rw [run_act, run_act, same op s uses.1, Option.bind_map, Option.map_bind]
      congr 1
      funext answer
      exact ih answer.1 (uses.2 answer.1) answer.2

/-- An exception lets a program reach no other operations. -/
theorem Uses.interrupt {p : Prog Op Ans ε α} (uses : p.Uses permitted) (e : ε) :
    (p.interrupt e).Uses permitted := by
  cases p with
  | done result => trivial
  | act closing op next =>
      cases closing with
      | false => exact uses.2 (.error e)
      | true => exact ⟨uses.1, fun _ => uses.2 (.error e)⟩

theorem uses_any (p : Prog Op Ans ε α) : p.Uses fun _ => True := by
  induction p with
  | done result => trivial
  | act closing op next ih => exact ⟨trivial, ih⟩

/-- A run keeps what the operations that the program uses keep. -/
theorem Uses.run_keeps {inv : σ → Prop} {p : Prog Op Ans ε α} (uses : p.Uses permitted)
    (keeps : ∀ op s r, permitted op → inv s → exec op s = some r → inv r.2) {s : σ}
    {r : Except ε α × σ} (start : inv s) (ran : p.run exec s = some r) : inv r.2 := by
  induction p generalizing s with
  | done result =>
      cases ran
      exact start
  | act closing op next ih =>
      obtain ⟨answer, step, later⟩ := Option.bind_eq_some_iff.mp ran
      exact ih answer.1 (uses.2 answer.1) (keeps op s answer uses.1 start step) later

/-! ## Operations after others -/

/-- Once a first operation has been carried out, the program uses permitted operations
only. -/
def UsesAfter (first permitted : Op → Prop) : Prog Op Ans ε α → Prop
  | .done _ => True
  | .act _ op next =>
    ∀ answer, (first op → (next answer).Uses permitted) ∧ (next answer).UsesAfter first permitted

variable {first : Op → Prop}

/-- A program without first operations. -/
theorem Uses.usesAfter {p : Prog Op Ans ε α} (uses : p.Uses fun op => ¬ first op) :
    p.UsesAfter first permitted := by
  induction p with
  | done result => trivial
  | act closing op next ih =>
      exact fun answer => ⟨fun now => absurd now uses.1, ih answer (uses.2 answer)⟩

/-- A first operation may come last in a program that goes on with permitted ones. -/
theorem usesAfter_followed {p : Prog Op Ans ε α} {f : Except ε α → Prog Op Ans ε β}
    (before : p.UsesAfter first permitted) (rest : ∀ result, (f result).Uses permitted)
    (later : ∀ result, (f result).UsesAfter first permitted) :
    (p.followed f).UsesAfter first permitted := by
  induction p with
  | done result => exact later result
  | act closing op next ih =>
      intro answer
      exact ⟨fun now => uses_followed ((before answer).1 now) rest, ih answer (before answer).2⟩

/-- A program without first operations may go on with any that keeps to the order. -/
theorem Uses.usesAfter_followed {p : Prog Op Ans ε α} {f : Except ε α → Prog Op Ans ε β}
    (before : p.Uses fun op => ¬ first op)
    (later : ∀ result, (f result).UsesAfter first permitted) :
    (p.followed f).UsesAfter first permitted := by
  induction p with
  | done result => exact later result
  | act closing op next ih =>
      exact fun answer => ⟨fun now => absurd now before.1, ih answer (before.2 answer)⟩

theorem Uses.usesAfter_bind {p : Prog Op Ans ε α} {f : α → Prog Op Ans ε β}
    (before : p.Uses fun op => ¬ first op) (later : ∀ a, (f a).UsesAfter first permitted) :
    (p >>= f).UsesAfter first permitted := by
  apply before.usesAfter_followed
  intro result
  cases result with
  | error e => trivial
  | ok a => exact later a

theorem usesAfter_bind {p : Prog Op Ans ε α} {f : α → Prog Op Ans ε β}
    (before : p.UsesAfter first permitted) (rest : ∀ a, (f a).Uses permitted)
    (later : ∀ a, (f a).UsesAfter first permitted) : (p >>= f).UsesAfter first permitted := by
  apply usesAfter_followed before
  · intro result
    cases result with
    | error e => trivial
    | ok a => exact rest a
  · intro result
    cases result with
    | error e => trivial
    | ok a => exact later a

theorem usesAfter_call (op : Op) :
    (call op : Prog Op Ans ε (Ans op)).UsesAfter first permitted :=
  fun _ => ⟨fun _ => trivial, trivial⟩

theorem uses_tryExcept {p : Prog Op Ans ε α} {catches : ε → Bool} {handle : ε → Prog Op Ans ε α}
    (tried : p.Uses permitted) (handler : ∀ e, (handle e).Uses permitted) :
    (p.tryExcept catches handle).Uses permitted := by
  apply uses_followed tried
  intro result
  cases result with
  | ok a => trivial
  | error e =>
      dsimp only
      split
      · exact handler e
      · trivial

theorem usesAfter_tryExcept {p : Prog Op Ans ε α} {catches : ε → Bool}
    {handle : ε → Prog Op Ans ε α} (tried : p.UsesAfter first permitted)
    (handler : ∀ e, (handle e).Uses permitted)
    (later : ∀ e, (handle e).UsesAfter first permitted) :
    (p.tryExcept catches handle).UsesAfter first permitted := by
  apply usesAfter_followed tried
  · intro result
    cases result with
    | ok a => trivial
    | error e =>
        dsimp only
        split
        · exact handler e
        · trivial
  · intro result
    cases result with
    | ok a => trivial
    | error e =>
        dsimp only
        split
        · exact later e
        · trivial

theorem usesAfter_within {enter exit : Op} {p : Prog Op Ans ε α} (enters : ¬ first enter)
    (exits : permitted exit) (inner : p.UsesAfter first permitted) :
    (within enter exit p).UsesAfter first permitted := by
  have entered : (call enter : Prog Op Ans ε (Ans enter)).Uses fun op => ¬ first op :=
    uses_call enters
  apply entered.usesAfter_bind
  intro _
  apply usesAfter_followed inner
  · intro _
    refine ⟨exits, fun answer => ?_⟩
    cases answer <;> trivial
  · intro _ answer
    cases answer <;> exact ⟨fun _ => trivial, trivial⟩

theorem UsesAfter.mono {first' permitted' : Op → Prop} (fewer : ∀ op, first' op → first op)
    (more : ∀ op, permitted op → permitted' op) {p : Prog Op Ans ε α}
    (uses : p.UsesAfter first permitted) : p.UsesAfter first' permitted' := by
  induction p with
  | done result => trivial
  | act closing op next ih =>
      intro answer
      exact ⟨fun now => ((uses answer).1 (fewer op now)).mono more, ih answer (uses answer).2⟩

section Expand

variable {body : (op : Op) → Prog Op' Ans' ε (Ans op)} {first' permitted' : Op' → Prop}

theorem Uses.expand {p : Prog Op Ans ε α} (uses : p.Uses permitted)
    (each : ∀ op, permitted op → (body op).Uses permitted') : (p.expand body).Uses permitted' := by
  induction p with
  | done result => trivial
  | act closing op next ih =>
      exact uses_followed (each op uses.1) fun answer => ih answer (uses.2 answer)

/-- The order of the operations is an order of their programs. -/
theorem UsesAfter.expand {p : Prog Op Ans ε α} (uses : p.UsesAfter first permitted)
    (each : ∀ op, (body op).UsesAfter first' permitted')
    (before : ∀ op, ¬ first op → (body op).Uses fun op' => ¬ first' op')
    (after : ∀ op, permitted op → (body op).Uses permitted') :
    (p.expand body).UsesAfter first' permitted' := by
  induction p with
  | done result => trivial
  | act closing op next ih =>
      by_cases now : first op
      · apply usesAfter_followed (each op)
        · intro answer
          exact ((uses answer).1 now).expand after
        · intro answer
          exact ih answer (uses answer).2
      · apply (before op now).usesAfter_followed
        intro answer
        exact ih answer (uses answer).2

end Expand

section Project

variable {τ ι : Type} {exec' : (op : Op) → τ → Option (Except ε (Ans op) × τ)} (project : τ → σ)

/-- A program runs alike over operations that agree on a part of the state. -/
theorem Uses.run_project {p : Prog Op Ans ε α} (uses : p.Uses permitted)
    (same : ∀ op t, permitted op →
      (exec' op t).map (fun r => (r.1, project r.2)) = exec op (project t)) (t : τ) :
    (p.run exec' t).map (fun r => (r.1, project r.2)) = p.run exec (project t) := by
  induction p generalizing t with
  | done result => rfl
  | act closing op next ih =>
      rw [run_act, run_act, ← same op t uses.1, Option.bind_map, Option.map_bind]
      congr 1
      funext answer
      exact ih answer.1 (uses.2 answer.1) answer.2

/-- An answer that is asked for once may be fixed in advance. -/
theorem UsesAfter.run_project [Inhabited ι]
    {execs : ι → (op : Op) → σ → Option (Except ε (Ans op) × σ)} {p : Prog Op Ans ε α}
    (uses : p.UsesAfter first fun op => ¬ first op)
    (same : ∀ i op t, ¬ first op →
      (exec' op t).map (fun r => (r.1, project r.2)) = execs i op (project t))
    (asked : ∀ op t, ∃ i, (exec' op t).map (fun r => (r.1, project r.2)) = execs i op (project t))
    (t : τ) :
    ∃ i, (p.run exec' t).map (fun r => (r.1, project r.2)) = p.run (execs i) (project t) := by
  induction p generalizing t with
  | done result => exact ⟨default, rfl⟩
  | act closing op next ih =>
      by_cases now : first op
      · obtain ⟨i, step⟩ := asked op t
        refine ⟨i, ?_⟩
        rw [run_act, run_act, ← step, Option.bind_map, Option.map_bind]
        congr 1
        funext answer
        exact ((uses answer.1).1 now).run_project project (fun op t not => same i op t not) answer.2
      · cases step : exec' op t with
        | none =>
            refine ⟨default, ?_⟩
            rw [run_act, run_act, ← same default op t now, step]
            rfl
        | some answer =>
            obtain ⟨i, rest⟩ := ih answer.1 (uses answer.1).2 answer.2
            refine ⟨i, ?_⟩
            rw [run_act, run_act, ← same i op t now, step]
            exact rest

end Project

end Prog

end OpenDS.Library
