import OpenDS.DataPath.AsyncReads
import OpenDS.DataPath.Outstanding

/-!
# Concurrent asynchronous reads are independent

As long as the destinations of the asynchronous reads are disjoint, every one of them
comes to the result and leaves the bytes of a read alone that has been told the same,
whichever worker and slot it is routed to and whatever is served meanwhile
(`concurrentReads_independent`).
-/

set_option autoImplicit false

namespace OpenDS.DataPath

open OpenDS.Library (Machine Memory Ptr)
open OpenDS.Aisio OpenDS.Engine

variable {n : Nat} {ι : Type} {d : Driver} {s s' : IoState n ι} {w v : Fin n} {j k : Nat}
  {f : OpFields} {mem₀ : Memory Space UInt8} {disk₀ : Nat → Nat → UInt8}

/-! ## Destinations -/

/-- The address lies in the destination of an asynchronous operation. -/
def InDestination (f : OpFields) (a : Int) : Prop :=
  f.bufBase + (requestOf f.u ⟨0, 0, 0⟩).bufOffset ≤ a ∧
    a < f.bufBase + (requestOf f.u ⟨0, 0, 0⟩).bufOffset + (requestOf f.u ⟨0, 0, 0⟩).size

/-- **The operations have disjoint destinations.** -/
def Apart (s : IoState n ι) : Prop :=
  ∀ (w v : Fin n) (j k : Nat) (ltJ : j < (s.sys.workers w).published.length)
    (ltK : k < (s.sys.workers v).published.length) (a : Int),
    InDestination (s.sys.workers w).published[j] a → InDestination (s.sys.workers v).published[k] a →
      w = v ∧ j = k

/-- What is published stays published. -/
theorem Apart.mono (apart : Apart s')
    (published : ∀ w, ∃ more, (s'.sys.workers w).published = (s.sys.workers w).published ++ more) :
    Apart s := by
  have own : ∀ (w : Fin n) (k : Nat) (lt : k < (s.sys.workers w).published.length),
      ∃ lt' : k < (s'.sys.workers w).published.length,
        (s'.sys.workers w).published[k] = (s.sys.workers w).published[k] := by
    intro w k lt
    obtain ⟨more, longer⟩ := published w
    have lt' : k < (s'.sys.workers w).published.length := by
      rw [longer, List.length_append]
      omega
    exact ⟨lt', by simp only [longer, List.getElem_append_left lt]⟩
  intro w v j k ltJ ltK a inJ inK
  obtain ⟨ltJ', ownJ⟩ := own w j ltJ
  obtain ⟨ltK', ownK⟩ := own v k ltK
  rw [← ownJ] at inJ
  rw [← ownK] at inK
  exact apart w v j k ltJ' ltK' a inJ inK

/-- A read alone of an asynchronous operation goes to its destination. -/
theorem aloneRead_span (mem : Memory Space UInt8) (desc : BounceCopy) {p : Ptr Space} {m : Nat}
    (holds : (aloneRead f mem desc).op.span.Holds p m) {a : Int} (covers : p.Covers m p.space a) :
    InDestination f a := by
  obtain ⟨-, low, high⟩ := holds
  obtain ⟨-, from', upTo⟩ := covers
  simp only [FileOp.span, aloneRead] at low high
  constructor <;> omega

/-! ## What holds of the bytes -/

/-- The bytes of a read that goes on are those of the read alone. -/
structure GoesOn (d : Driver) (mem₀ : Memory Space UInt8) (disk₀ : Nat → Nat → UInt8) (s : IoState n ι)
    (w : Fin n) (k : Nat) (f : OpFields) (st : ReadState) : Prop where
  span : (s.view w (slotAt k)).op.span = (aloneRead f mem₀ zeroDesc).op.span
  ran : (readAlone d disk₀).run (s.answers w k) ⟨aloneRead f mem₀ zeroDesc, none⟩ =
    some ⟨st, s.planOf w k⟩
  same : SameBytes d (InDestination f) (s.view w (slotAt k)) st.mem

/-- The read alone that has been told the same has come to the result and has left the
bytes that are there. -/
def Agrees (d : Driver) (mem₀ : Memory Space UInt8) (disk₀ : Nat → Nat → UInt8) (s : IoState n ι)
    (w : Fin n) (k : Nat) (f : OpFields) (m : Int) : Prop :=
  ∃ st, (readAlone d disk₀).run (s.answers w k) ⟨aloneRead f mem₀ zeroDesc, none⟩ = some ⟨st, none⟩ ∧
    st.op.state = .free ∧ st.op.result = some m ∧
      ∀ a, InDestination f a → s.mem .user a = st.mem .user a

/-- What has become of the destination of an operation at a stage of its life. -/
def BytesAt (d : Driver) (mem₀ : Memory Space UInt8) (disk₀ : Nat → Nat → UInt8) (s : IoState n ι)
    (w : Fin n) (k : Nat) (f : OpFields) : Stage → Prop
  | .waiting => ∀ a, InDestination f a → s.mem .user a = mem₀ .user a
  | .writing => False
  | .reading _ _ => Fresh s w k ∧ (∀ a, InDestination f a → s.mem .user a = mem₀ .user a) ∨
    ¬ Fresh s w k ∧ ∃ st, GoesOn d mem₀ disk₀ s w k f st
  | .reported m => Agrees d mem₀ disk₀ s w k f m
  | .stored m => Agrees d mem₀ disk₀ s w k f m
  | .completed m => Agrees d mem₀ disk₀ s w k f m

/-- **What holds of the bytes at any time.** -/
structure Bytes (d : Driver) (mem₀ : Memory Space UInt8) (disk₀ : Nat → Nat → UInt8)
    (s : IoState n ι) : Prop where
  disk : s.disk = disk₀
  untouched : ∀ a, (∀ (w : Fin n) k (lt : k < (s.sys.workers w).published.length),
    ¬ InDestination (s.sys.workers w).published[k] a) → s.mem .user a = mem₀ .user a
  reads : ∀ w k (lt : k < (s.sys.workers w).published.length) stage,
    (s.sys.workers w).published[k].life.run ((s.sys.workers w).history k) .waiting = some stage →
    BytesAt d mem₀ disk₀ s w k (s.sys.workers w).published[k] stage

theorem Bytes.start (futures : Nat → Future) (bytesRead : Nat → Int) :
    Bytes d mem₀ disk₀ (ioSetup n ι futures bytesRead mem₀ disk₀) where
  disk := rfl
  untouched _ _ := rfl
  reads _ k lt := absurd lt (Nat.not_lt_zero k)

/-! ## Bytes that stay -/

/-- The step leaves the bytes of an operation alone: its destination, and what is in its
bounce buffer. -/
structure Spares (s s' : IoState n ι) (w : Fin n) (k : Nat) (f : OpFields) : Prop where
  user : ∀ a, InDestination f a → s'.mem .user a = s.mem .user a
  staged : Reading s w k → ∀ b, (s.view w (slotAt k)).op.lent none = some b → ∀ a,
    s'.mem (.bounce b) a = s.mem (.bounce b) a

/-- The bytes of an operation stay if a step is about others and spares it. -/
theorem BytesAt.frame {stage : Stage} (bytes : BytesAt d mem₀ disk₀ s w k f stage)
    (spares : Spares s s' w k f) (answers : s'.answers w k = s.answers w k)
    (targets : ¬ Fresh s w k → Reading s w k → TaskInv d ⟨s.view w (slotAt k), s.planOf w k⟩)
    (reads : ∀ b e, stage = .reading b e → Reading s w k ∧ Elsewhere s s' w k) :
    BytesAt d mem₀ disk₀ s' w k f stage := by
  have agrees : ∀ m, Agrees d mem₀ disk₀ s w k f m → Agrees d mem₀ disk₀ s' w k f m := by
    rintro m ⟨st, ran, state, result, same⟩
    exact ⟨st, by rw [answers]; exact ran, state, result,
      fun a inside => (spares.user a inside).trans (same a inside)⟩
  cases stage with
  | waiting => exact fun a inside => (spares.user a inside).trans (bytes a inside)
  | writing => exact bytes
  | reading b e =>
      obtain ⟨reading, elsewhere⟩ := reads b e rfl
      refine bytes.imp (fun at' => ⟨elsewhere.fresh.mpr at'.1, fun a inside =>
        (spares.user a inside).trans (at'.2 a inside)⟩) fun at' => ?_
      obtain ⟨planned, st, span, ran, same⟩ := at'
      refine ⟨fun fresh => planned (elsewhere.fresh.mp fresh), st, ?_, ?_, ?_, ?_⟩
      · rw [elsewhere.view.op]
        exact span
      · rw [answers, elsewhere.plan]
        exact ran
      · exact fun a inside => (spares.user a inside).trans (same.user a inside)
      · intro fine place c logged bounce arrived a covered
        rw [elsewhere.view.op] at fine
        rw [elsewhere.view.issued] at logged
        rw [elsewhere.view.inflight] at arrived
        have before := same.staged fine place c logged bounce arrived a covered
        -- What the command has read is in the bounce buffer of the operation.
        have into := (targets planned reading).issued c (List.mem_of_getElem? logged)
        rw [Command.Targets, bounce] at into
        obtain ⟨buf, lent, space⟩ := into
        rw [space] at before ⊢
        exact (spares.staged reading buf lent a).trans before
  | reported m => exact agrees m bytes
  | stored m => exact agrees m bytes
  | completed m => exact agrees m bytes

/-- The bytes that an answer leaves alone. -/
theorem Tells.spares {a : Answer} {st : ReadState} (tells : Tells d s s' w k a st)
    (inv : TaskInv d ⟨s.view w (slotAt k), s.planOf w k⟩) {space : Space} {x : Int}
    (user : space = .user → ∀ p m, (s.view w (slotAt k)).op.span.Holds p m →
      ¬ p.Covers m .user x)
    (staged : ∀ b, (s.view w (slotAt k)).op.lent none = some b → space ≠ .bounce b) :
    s'.mem space x = s.mem space x := by
  rw [tells.mem]
  exact tells.effect.spares inv user staged

/-- The bytes that the end of a read leaves alone. -/
theorem Reaps.spares {ok : Nat → Bool} {copied : Bool} (reaps : Reaps d s s' w k ok copied)
    (inv : TaskInv d ⟨s.view w (slotAt k), s.planOf w k⟩) {space : Space} {x : Int}
    (user : space = .user → ∀ p m, (s.view w (slotAt k)).op.span.Holds p m →
      ¬ p.Covers m .user x) : s'.mem space x = s.mem space x := by
  have state : (s.view w (slotAt k)).op.state ≠ .pending := by
    have effect := reaps.effect
    cases effect with
    | reaped ok outside state => rw [state]; simp
  rw [reaps.mem]
  refine inv.completion_spares _ state fun p m holds covered => ?_
  have here : space = .user := covered.1.trans holds.1
  subst here
  exact user rfl _ _ holds covered

/-- A read that is planned, and what holds of it. -/
theorem Served.taskInv (served : Served d s) (reading : Reading s w k) (planned : ¬ Fresh s w k) :
    TaskInv d ⟨s.view w (slotAt k), s.planOf w k⟩ := by
  obtain ⟨lt, b, e, lived⟩ := reading
  exact ((served.tasks.standing w k lt _ lived).resolve_left fun at' => planned at'.1).2.2

/-- The destination of a read that is planned. -/
theorem Bytes.span (bytes : Bytes d mem₀ disk₀ s) (reading : Reading s w k) (planned : ¬ Fresh s w k) :
    ∃ lt : k < (s.sys.workers w).published.length,
      (s.view w (slotAt k)).op.span =
        (aloneRead (s.sys.workers w).published[k] mem₀ zeroDesc).op.span := by
  obtain ⟨lt, b, e, lived⟩ := reading
  obtain ⟨-, st, goesOn⟩ := (bytes.reads w k lt _ lived).resolve_left fun at' => planned at'.1
  exact ⟨lt, goesOn.span⟩

/-- The bounce buffer of an asynchronous read. -/
theorem AsyncOnly.lent (only : AsyncOnly s) (inv : IoInv s) (reading : Reading s w k) :
    (s.view w (slotAt k)).op.lent none = (s.ops w (slotAt k)).bounceBuf := by
  have lt := reading.1
  have fields := reading.fields inv lt
  obtain ⟨-, a, async⟩ := only.published w _ (List.getElem_mem lt)
  rw [← fields] at async
  simp only [FileOp.lent, IoState.view, async, modeOf]
  cases (s.ops w (slotAt k)).bounceBuf <;> rfl

/-- **A byte that moves is in the destination of a read that is told of it, or in its
bounce buffer.** -/
theorem Moves.own (moves : Moves d s s') (served : Served d s) (only : AsyncOnly s)
    (bytes : Bytes d mem₀ disk₀ s) {space : Space} {x : Int}
    (moved : s'.mem space x ≠ s.mem space x) :
    ∃ w j, ∃ lt : j < (s.sys.workers w).published.length, Reading s w j ∧
      s'.answers w j ≠ s.answers w j ∧
      (space = .user ∧ InDestination (s.sys.workers w).published[j] x ∨
        ∃ b, (s.ops w (slotAt j)).bounceBuf = some b ∧ space = .bounce b) := by
  have told : ∀ {w j a}, s'.answers w j = s.answers w j ++ [a] → s'.answers w j ≠ s.answers w j := by
    intro w j a longer same
    rw [longer] at same
    exact absurd (congrArg List.length same) (by simp)
  -- An address outside of the destination.
  have outside : ∀ {w j} (lt : j < (s.sys.workers w).published.length), Reading s w j →
      ¬ Fresh s w j → ¬ (space = .user ∧ InDestination (s.sys.workers w).published[j] x) →
      space = .user → ∀ p m, (s.view w (slotAt j)).op.span.Holds p m → ¬ p.Covers m .user x := by
    intro w j lt reading planned out user p m holds covered
    obtain ⟨lt', span⟩ := bytes.span reading planned
    rw [span] at holds
    refine out ⟨user, aloneRead_span _ _ holds (p := p) (m := m) ?_⟩
    exact ⟨rfl, covered.2⟩
  cases moves with
  | still same => exact absurd (congrFun (congrFun same space) x) moved
  | tells w j a st tells =>
      refine ⟨w, j, tells.reading.1, tells.reading, told tells.answers, ?_⟩
      by_contra nowhere
      rw [not_or] at nowhere
      refine moved (tells.spares (served.taskInv tells.reading tells.before)
        (outside tells.reading.1 tells.reading tells.before nowhere.1) fun b lent same => nowhere.2 ⟨b, ?_, same⟩)
      rw [← only.lent served.inv tells.reading]
      exact lent
  | reaps w j ok copied reaps =>
      refine ⟨w, j, reaps.reading.1, reaps.reading, told reaps.answers, ?_⟩
      by_contra nowhere
      rw [not_or] at nowhere
      exact moved (reaps.spares (served.taskInv reaps.reading reaps.before)
        (outside reaps.reading.1 reaps.reading reaps.before nowhere.1))

/-- **A step spares the operations that are not told of it.** -/
theorem Moves.spares (moves : Moves d s s') (served : Served d s) (only : AsyncOnly s)
    (bytes : Bytes d mem₀ disk₀ s)
    (clear : ∀ a, InDestination f a → ∀ v j (lt : j < (s.sys.workers v).published.length),
      InDestination (s.sys.workers v).published[j] a → s'.answers v j = s.answers v j)
    (untold : s'.answers w k = s.answers w k) : Spares s s' w k f := by
  refine ⟨fun a inside => ?_, fun reading b lent a => ?_⟩
  · by_contra moved
    obtain ⟨v, j, lt, -, told, ⟨-, here⟩ | ⟨b, -, elsewhere⟩⟩ := moves.own served only bytes moved
    · exact told (clear a inside v j lt here)
    · cases elsewhere
  · by_contra moved
    obtain ⟨v, j, ltJ, readingJ, told, ⟨elsewhere, -⟩ | ⟨b', held, same⟩⟩ :=
      moves.own served only bytes moved
    · cases elsewhere
    · cases same
      rw [only.lent served.inv reading] at lent
      obtain ⟨rfl, slots⟩ := served.buffers.apart w (slotAt k) v (slotAt j) b lent held
      obtain ⟨lt, c, e, lived⟩ := reading
      obtain ⟨lt', c', e', lived'⟩ := readingJ
      obtain ⟨m, queue⟩ := served.inv.engine.queues v
      obtain ⟨low, -⟩ := window_of_reading queue lt lived
      obtain ⟨lowJ, -⟩ := window_of_reading queue ltJ lived'
      by_cases here : j = k
      · exact told (here ▸ untold)
      · exact queue.counters.slotAt_ne lowJ ltJ low lt here slots

/-! ## Steps -/

/-- A read that is planned is in flight. -/
theorem Reading.inFlight (reading : Reading s w k) (inv : IoInv s) :
    (s.view w (slotAt k)).op.state = .inFlight := by
  obtain ⟨lt, b, e, lived⟩ := reading
  obtain ⟨m, queue⟩ := inv.engine.queues w
  obtain ⟨-, -, state, -⟩ := window_of_reading queue lt lived
  exact state

/-- What is dispatched, stored and completed moves no bytes of the operation. -/
theorem BytesAt.outer {stage stage' : Stage} {e : OpEvent}
    (bytes : BytesAt d mem₀ disk₀ s w k f stage) (spares : Spares s s' w k f)
    (read : f.isWrite = false) (step : f.life.step stage e = some stage')
    (answers : s'.answers w k = s.answers w k) (outer : Outer e)
    (begins : e = .dispatched → f.isWrite = false → Fresh s' w k) :
    BytesAt d mem₀ disk₀ s' w k f stage' := by
  have agrees : ∀ m, Agrees d mem₀ disk₀ s w k f m → Agrees d mem₀ disk₀ s' w k f m := by
    rintro m ⟨st, ran, state, result, same⟩
    exact ⟨st, by rw [answers]; exact ran, state, result,
      fun a inside => (spares.user a inside).trans (same a inside)⟩
  cases stage with
  | waiting =>
      cases e with
      | dispatched =>
          simp only [OpFields.life, read, Bool.false_eq_true, if_false] at step
          cases step
          exact .inl ⟨begins rfl read, fun a inside => (spares.user a inside).trans (bytes a inside)⟩
      | _ => cases step
  | writing => exact bytes.elim
  | reading b err => cases e <;> first | exact outer.elim | cases step
  | reported m =>
      cases e with
      | stored target m' =>
          simp only [OpFields.life] at step
          split at step
          · cases step
            exact agrees m bytes
          · cases step
      | _ => cases step
  | stored m =>
      cases e with
      | completed target m' =>
          simp only [OpFields.life] at step
          split at step
          · cases step
            exact agrees m bytes
          · cases step
      | _ => cases step
  | completed m => cases e <;> cases step

/-- A read that is planned has moved no bytes yet. -/
theorem GoesOn.plans {cells : Request} {getExtents : Nat → Except Int (List Extent)}
    (plans : Plans d s s' w k cells getExtents) (untold : s.answers w k = [])
    (fields : ((s.sys.workers w).fileOpQueue (slotAt k)).fields = f) (async : ∃ a, f.u = .async a)
    (before : ∀ a, InDestination f a → s.mem .user a = mem₀ .user a) :
    ∃ st, GoesOn d mem₀ disk₀ s' w k f st := by
  refine ⟨_, ?_, plans.alone untold fields disk₀ mem₀ zeroDesc, fun a inside => ?_, ?_⟩
  · rw [plans.view.op]
    subst fields
    obtain ⟨a, async⟩ := async
    have span : ∀ dev, (ReadTask.begin d dev (s.requested w (slotAt k) cells)).st.op.span =
        (s.requested w (slotAt k) cells).op.span := by
      intro dev
      unfold ReadTask.begin
      simp only
      split <;> rfl
    rw [span]
    simp only [FileOp.span, IoState.requested, IoState.view, aloneRead, requestOf, async]
  · rw [twin_mem]
    exact (congrFun (congrFun plans.mem .user) a).trans (before a inside)
  · intro fine place c logged
    rw [plans.view.issued, (begin_frame _ _).2.2.2.2.1] at logged
    cases logged

/-- An answer moves the same bytes in the engine as in the read alone. -/
theorem GoesOn.tells {a : Answer} {st st' : ReadState} (goesOn : GoesOn d mem₀ disk₀ s w k f st)
    (tells : Tells d s s' w k a st') (inv : IoInv s) (follows : Follows d s w k f)
    (targets : TaskInv d ⟨s.view w (slotAt k), s.planOf w k⟩) (disk : s.disk = disk₀) :
    ∃ twin, GoesOn d mem₀ disk₀ s' w k f twin := by
  obtain ⟨st₂, ran, alike, mode⟩ := follows disk₀ mem₀ zeroDesc
  cases Option.some.inj (ran.symm.trans goesOn.ran)
  obtain ⟨twin', stepped, -, -⟩ := tells.alone alike mode disk₀
  have effect := tells.effect
  rw [disk] at effect
  have same := goesOn.same.step targets alike (fun ok copies => absurd copies (tells.goesOn ok)) effect
    (ReadTask.step_effect stepped)
  refine ⟨twin', ?_, ?_, fun a inside => ?_, ?_⟩
  · have unplanned : ∀ cells getExtents, a ≠ .resolved cells getExtents := by
      rintro cells getExtents rfl
      have pending : (s.view w (slotAt k)).op.state = .pending := by
        generalize s'.planOf w k = plan' at effect
        cases effect with
        | fails _ _ _ _ pending => exact pending
        | planned _ _ _ _ pending => exact pending
      cases pending.symm.trans (tells.reading.inFlight inv)
    rw [tells.view.op]
    exact (effect.span_eq unplanned).trans goesOn.span
  · rw [tells.answers]
    exact Machine.run_snoc goesOn.ran stepped
  · exact (congrFun (congrFun tells.mem .user) a).trans (same.user a inside)
  · intro fine place c logged bounce arrived x covered
    rw [tells.view.op] at fine
    rw [tells.view.issued] at logged
    rw [tells.view.inflight] at arrived
    exact (congrFun (congrFun tells.mem c.dst.space) x).trans
      (same.staged fine place c logged bounce arrived x covered)

/-- The end of a read leaves the same bytes in the engine as in the read alone. -/
theorem GoesOn.reaps {ok : Nat → Bool} {copied : Bool} {st : ReadState}
    (goesOn : GoesOn d mem₀ disk₀ s w k f st) (reaps : Reaps d s s' w k ok copied)
    (follows : Follows d s w k f)
    (targets : TaskInv d ⟨s.view w (slotAt k), s.planOf w k⟩) (disk : s.disk = disk₀) {m : Int}
    (result : (completeReadOp { obliging s.disk with copies := ok } (s.view w (slotAt k))).op.result =
      some m) : Agrees d mem₀ disk₀ s' w k f m := by
  obtain ⟨st₂, ran, alike, mode⟩ := follows disk₀ mem₀ zeroDesc
  have ran' := goesOn.ran
  rw [reaps.plan] at ran ran' targets
  cases Option.some.inj (ran.symm.trans ran')
  obtain ⟨twin', stepped, alike', -⟩ := reaps.alone alike mode disk₀
  have effect := reaps.effect
  have mem := reaps.mem
  rw [disk] at effect mem result alike'
  have same := goesOn.same.step targets alike (fun ok copies => ⟨mode, reaps.idle⟩) effect
    (ReadTask.step_effect stepped)
  obtain ⟨r, op⟩ := completeReadOp_op { obliging disk₀ with copies := ok } (s.view w (slotAt k))
  refine ⟨twin', ?_, ?_, ?_, fun a inside => ?_⟩
  · rw [reaps.answers]
    exact Machine.run_snoc ran stepped
  · rw [alike'.twin]
    exact congrArg FileOp.state op
  · rw [alike'.twin]
    exact result
  · exact (congrFun (congrFun mem .user) a).trans (same.user a inside)

/-- **Every step keeps the bytes of an operation on their way.** -/
theorem BytesAt.step (served : Served d s)
    (bytes : ∀ stage, f.life.run ((s.sys.workers w).history k) .waiting = some stage →
      BytesAt d mem₀ disk₀ s w k f stage)
    (disk : s.disk = disk₀) (lt : k < (s.sys.workers w).published.length)
    (own : (s.sys.workers w).published[k] = f) (read : IsAsyncRead f)
    (spares : s'.answers w k = s.answers w k → Spares s s' w k f)
    (affects : Affects d s s' w k) {stage : Stage}
    (lived : f.life.run ((s'.sys.workers w).history k) .waiting = some stage) :
    BytesAt d mem₀ disk₀ s' w k f stage := by
  have before : ∀ events, (s'.sys.workers w).history k = (s.sys.workers w).history k ++ events →
      ∃ stage₀, f.life.run ((s.sys.workers w).history k) .waiting = some stage₀ ∧
        f.life.run events stage₀ = some stage := by
    intro events history
    rw [history, Machine.run_append] at lived
    exact Option.bind_eq_some_iff.mp lived
  have reads : Reading s w k → ∀ stage₀,
      f.life.run ((s.sys.workers w).history k) .waiting = some stage₀ →
      ∃ b e, stage₀ = .reading b e := by
    rintro ⟨lt', b, e, reading⟩ stage₀ lived₀
    rw [own, lived₀] at reading
    exact ⟨b, e, Option.some.inj reading⟩
  have stands : ∀ stage₀, f.life.run ((s.sys.workers w).history k) .waiting = some stage₀ →
      Standing d s w k f stage₀ := by
    intro stage₀ lived₀
    subst own
    exact served.tasks.standing w k lt stage₀ lived₀
  cases affects with
  | skips history answers reads =>
      rw [history] at lived
      refine (bytes stage lived).frame (spares answers) answers
        (fun planned reading => served.taskInv reading planned) fun b e same => ?_
      subst same
      have reading : Reading s w k := ⟨lt, b, e, by rw [own]; exact lived⟩
      exact ⟨reading, reads reading⟩
  | outer e lt' history answers outer begins =>
      rw [history] at lived
      obtain ⟨stage₀, lived₀, step⟩ := Machine.exists_of_run_snoc lived
      refine (bytes stage₀ lived₀).outer (spares answers) read.1 step answers outer
        fun dispatch _ => begins dispatch ?_
      rw [own]
      exact read.1
  | plans cells getExtents plans =>
      obtain ⟨events, history, inner⟩ := plans.history
      obtain ⟨stage₀, lived₀, ran⟩ := before _ history
      obtain ⟨b, e, rfl⟩ := reads plans.reading stage₀ lived₀
      obtain ⟨b', e', rfl⟩ := reading_of_inner inner ran
      obtain ⟨-, untold⟩ := (stands _ lived₀).resolve_right fun at' => at'.1 plans.fresh
      obtain ⟨-, still⟩ := (bytes _ lived₀).resolve_right fun at' => at'.1 plans.fresh
      have fields := plans.reading.fields served.inv lt
      rw [own] at fields
      exact .inr ⟨plans.planned, GoesOn.plans plans untold fields read.2 still⟩
  | tells a st tells =>
      obtain ⟨events, history, inner⟩ := tells.history
      obtain ⟨stage₀, lived₀, ran⟩ := before _ history
      obtain ⟨b, e, rfl⟩ := reads tells.reading stage₀ lived₀
      obtain ⟨b', e', rfl⟩ := reading_of_inner inner ran
      obtain ⟨-, follows, targets⟩ := (stands _ lived₀).resolve_left fun at' => tells.before at'.1
      obtain ⟨-, st₀, goesOn⟩ := (bytes _ lived₀).resolve_left fun at' => tells.before at'.1
      exact .inr ⟨tells.planned, goesOn.tells tells served.inv follows targets disk⟩
  | reaps ok copied reaps =>
      obtain ⟨stage₀, lived₀, ran⟩ := before _ reaps.history
      obtain ⟨b, e, rfl⟩ := reads reaps.reading stage₀ lived₀
      obtain ⟨-, follows, targets⟩ := (stands _ lived₀).resolve_left fun at' => reaps.before at'.1
      obtain ⟨-, st₀, goesOn⟩ := (bytes _ lived₀).resolve_left fun at' => reaps.before at'.1
      cases ran
      subst own
      exact goesOn.reaps reaps follows targets disk (reaps.result lt b e lived₀)

variable [DecidableEq ι] [NeZero n] {l : IoLabel n ι}

/-- **Every step keeps the bytes of the reads on their way.** -/
theorem Bytes.step (bytes : Bytes d mem₀ disk₀ s) (served : Served d s) (only : AsyncOnly s)
    (apart : Apart s') (step : (io d).step s l = some s') : Bytes d mem₀ disk₀ s' := by
  obtain ⟨published, affects, -⟩ := served.inv.affects served.logs step
  have moves := only.moves served.inv served.logs step
  have before := apart.mono published
  -- An operation of the state before is published past the step as well.
  have own : ∀ (v : Fin n) (j : Nat) (lt : j < (s.sys.workers v).published.length),
      ∃ lt' : j < (s'.sys.workers v).published.length,
        (s'.sys.workers v).published[j] = (s.sys.workers v).published[j] := by
    intro v j lt
    obtain ⟨more, longer⟩ := published v
    have lt' : j < (s'.sys.workers v).published.length := by
      rw [longer, List.length_append]
      omega
    exact ⟨lt', by simp only [longer, List.getElem_append_left lt]⟩
  refine ⟨(only.disk served.inv served.tasks step).trans bytes.disk, fun a outside => ?_,
    fun w k lt stage lived => ?_⟩
  · have untouched := bytes.untouched a fun v j lt inside => by
      obtain ⟨lt', same⟩ := own v j lt
      rw [← same] at inside
      exact outside v j lt' inside
    rw [← untouched]
    by_contra moved
    obtain ⟨v, j, lt, -, -, ⟨-, inside⟩ | ⟨b, -, elsewhere⟩⟩ := moves.own served only bytes moved
    · obtain ⟨lt', same⟩ := own v j lt
      rw [← same] at inside
      exact outside v j lt' inside
    · cases elsewhere
  · by_cases old : k < (s.sys.workers w).published.length
    · obtain ⟨lt', same⟩ := own w k old
      rw [same] at lived ⊢
      refine BytesAt.step served (bytes.reads w k old) bytes.disk old rfl
        (only.published w _ (List.getElem_mem old)) (fun untold => ?_) (affects w k) lived
      refine moves.spares served only bytes (fun a inside v j ltJ insideJ => ?_) untold
      obtain ⟨rfl, rfl⟩ := before w v k j old ltJ a inside insideJ
      exact untold
    · -- Nothing has happened to an operation that is just published, and its destination
      -- is no one else's.
      have past := Nat.le_of_not_lt old
      obtain ⟨history, answers⟩ := (affects w k).unpublished past
      rw [history, history_of_unpublished served.inv.engine past] at lived
      cases lived
      intro a inside
      have free : ∀ (v : Fin n) j (ltJ : j < (s.sys.workers v).published.length),
          ¬ InDestination (s.sys.workers v).published[j] a := by
        intro v j ltJ insideJ
        obtain ⟨lt', same⟩ := own v j ltJ
        rw [← same] at insideJ
        obtain ⟨rfl, rfl⟩ := apart w v k j lt lt' a inside insideJ
        exact old ltJ
      rw [← bytes.untouched a free]
      by_contra moved
      obtain ⟨v, j, ltJ, -, -, ⟨-, insideJ⟩ | ⟨b, -, elsewhere⟩⟩ := moves.own served only bytes moved
      · exact free v j ltJ insideJ
      · cases elsewhere

/-! ## Runs -/

/-- What holds in a run in which asynchronous reads are submitted, and nothing else. -/
theorem AsyncOnly.run (power : d.lbaSize = 2 ^ d.lbaShift) {labels : List (IoLabel n ι)}
    {futures : Nat → Future} {bytesRead : Nat → Int} (reads : ∀ l ∈ labels, l.ReadsAsync)
    (ran : (io d).run labels (ioSetup n ι futures bytesRead mem₀ disk₀) = some s) :
    Served d s ∧ AsyncOnly s ∧ (Apart s → Bytes d mem₀ disk₀ s) := by
  induction labels using List.reverseRecOn generalizing s with
  | nil =>
      cases ran
      exact ⟨.start futures bytesRead mem₀ disk₀, .start futures bytesRead mem₀ disk₀,
        fun _ => .start futures bytesRead⟩
  | append_singleton labels l ih =>
      obtain ⟨s₁, ran, step⟩ := Machine.exists_of_run_snoc ran
      obtain ⟨served, only, bytes⟩ := ih (fun l member => reads l (List.mem_append_left _ member)) ran
      have reads' := reads l (List.mem_append_right _ (List.mem_singleton.mpr rfl))
      refine ⟨served.step power step, only.step served.inv reads' step, fun apart => ?_⟩
      have published := (served.inv.affects served.logs step).1
      exact (bytes (apart.mono published)).step served only apart step

/-- **Concurrent asynchronous reads are independent.** In every run in which asynchronous
reads with disjoint destinations are submitted, whatever the order of its steps, the
number of I/O threads and the routing of the reads, each read that has come to a result
has come to that of the read alone that has been told the same, and the bytes of its
destination are those that the read alone leaves there. -/
theorem concurrentReads_independent (power : d.lbaSize = 2 ^ d.lbaShift)
    {labels : List (IoLabel n ι)} {futures : Nat → Future} {bytesRead : Nat → Int}
    (reads : ∀ l ∈ labels, l.ReadsAsync)
    (ran : (io d).run labels (ioSetup n ι futures bytesRead mem₀ disk₀) = some s) (apart : Apart s)
    (w : Fin n) (k : Nat) (lt : k < (s.sys.workers w).published.length) (stage : Stage) (m : Int)
    (lived : (s.sys.workers w).published[k].life.run ((s.sys.workers w).history k) .waiting =
      some stage)
    (result : stage.result = some m) :
    ∃ alone, (readAlone d disk₀).run (s.answers w k)
        ⟨aloneRead (s.sys.workers w).published[k] mem₀ zeroDesc, none⟩ = some ⟨alone, none⟩ ∧
      alone.op.state = .free ∧ alone.op.result = some m ∧
      ∀ a, InDestination (s.sys.workers w).published[k] a → s.mem .user a = alone.mem .user a := by
  obtain ⟨-, -, bytes⟩ := AsyncOnly.run power reads ran
  have at' := (bytes apart).reads w k lt stage lived
  cases stage with
  | reported m' => cases result; exact at'
  | stored m' => cases result; exact at'
  | completed m' => cases result; exact at'
  | _ => cases result

/-! ## Two reads in one queue -/

/-- The worker reaps both reads. -/
def finishesTwo : List (IoLabel 1 Unit) :=
  List.replicate 3 (.worker 0 .go) ++ [.worker 0 (.poked 0 true)] ++ List.replicate 3 (.worker 0 .go) ++
    [.worker 0 (.copies fun _ => true)] ++ List.replicate 4 (.worker 0 .go) ++
    [.worker 0 (.copies fun _ => true)] ++ List.replicate 3 (.worker 0 .go)

/-- The stage of the second operation. -/
def secondStage (s : IoState 1 Unit) : Option Stage :=
  (s.sys.workers 0).published[1]?.bind fun f => f.life.run ((s.sys.workers 0).history 1) .waiting

/-- The second of two reads reads what it reads alone. -/
theorem concurrentReads_independent_twoReads :
    ∃ s, (io sectorDriver).run (twoReads ++ finishesTwo) quietStart = some s ∧
      ∃ alone : ReadState, alone.op.result = some 1024 ∧
        ∀ a : Int, 4096 ≤ a → a < 4096 + 1024 → s.mem .user a = alone.mem .user a := by
  have facts : ((io sectorDriver).run (twoReads ++ finishesTwo) quietStart).map
      (fun s => ((s.sys.workers 0).published, secondStage s)) =
      some ([⟨false, 0, 0, .async ⟨100, 0, 0, 0⟩⟩, ⟨false, 0, 4096, .async ⟨1024, 0, 0, 1⟩⟩],
        some (.completed 1024)) := by decide +kernel
  obtain ⟨s, ran, facts⟩ := Option.map_eq_some_iff.mp facts
  obtain ⟨published, second⟩ := Prod.mk.inj facts
  have reads : ∀ l ∈ twoReads ++ finishesTwo, l.ReadsAsync := by
    simp [twoReads, servesTwo, finishesTwo, submitsRead, readCall, IoLabel.ReadsAsync, ReadsAsync]
  have apart : Apart s := by
    intro w v j k ltJ ltK a inJ inK
    obtain rfl := Subsingleton.elim w 0
    obtain rfl := Subsingleton.elim v 0
    simp only [published, List.length_cons, List.length_nil] at ltJ ltK inJ inK
    refine ⟨rfl, ?_⟩
    interval_cases j <;> interval_cases k <;> simp [InDestination, requestOf] at inJ inK ⊢ <;> omega
  have lt : 1 < (s.sys.workers 0).published.length := by rw [published]; decide
  have lived : (s.sys.workers 0).published[1].life.run ((s.sys.workers 0).history 1) .waiting =
      some (.completed 1024) := by
    rw [secondStage, List.getElem?_eq_getElem lt] at second
    exact second
  obtain ⟨alone, -, -, result, same⟩ :=
    concurrentReads_independent rfl reads ran apart 0 1 lt (.completed 1024) 1024 lived rfl
  refine ⟨s, ran, alone, result, fun a low high => same a ?_⟩
  simp only [published]
  exact ⟨by simpa [requestOf] using low, by simpa [requestOf] using high⟩

end OpenDS.DataPath
