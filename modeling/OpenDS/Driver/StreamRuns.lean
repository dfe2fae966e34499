import OpenDS.Driver.StreamRegister
import OpenDS.Library.Transition

/-!
# Streams over whole runs of registrations

The registered streams are a finite map from handles to states (`streamRegister_map`).
Deregistering a stream gives nothing back, so registering a stream fails once the driver has
seen 8192 others, however many of them are in use (`registrations_succeed_iff`).
-/

set_option autoImplicit false

namespace OpenDS.Driver

open OpenDS.Library

variable {d d' : StreamTable} {stream other : UInt64} {a : BounceAnswer} {i n : Nat}

/-! ## Sessions -/

/-- A call on the streams. -/
inductive StreamCall where
  | register (stream : UInt64) (a : BounceAnswer)
  | deregister (stream : UInt64)

/-- The driver, and the streams that were registered with success. -/
structure StreamSession where
  drv : Option StreamTable
  succeeded : List UInt64

/-- Calls on the streams, one after the other. -/
def streamCalls : Machine StreamSession StreamCall where
  step s c :=
    match c with
    | .register stream a =>
      let out := opendsStreamRegister s.drv stream a
      some ⟨out.1, if out.2 = .ok () then stream :: s.succeeded else s.succeeded⟩
    | .deregister stream => some ⟨(opendsStreamDeregister s.drv stream).1, s.succeeded⟩

/-- The session of a driver that has just been opened. -/
def StreamSession.opened (words : Nat → UInt32) (dptr : Nat) : StreamSession :=
  ⟨some (StreamTable.opened words dptr), []⟩

/-- What the allocators answer is not in use. -/
def FreshCall (s : StreamSession) : StreamCall → Prop
  | .register _ a => ∀ d, s.drv = some d → FreshBounce d a
  | .deregister _ => True

/-- An open driver with its streams in order, and what it finds: the streams that were
registered with success. -/
structure Open (s : StreamSession) (d : StreamTable) : Prop where
  drv : s.drv = some d
  ready : d.workersReady = true
  numbered : Numbered d
  found : ∀ stream, stream ≠ 0 → (d.get stream ≠ none ↔ stream ∈ s.succeeded)
  known : (0 : UInt64) ∉ s.succeeded
  number : d.nStreams = s.succeeded.toFinset.card

variable {s s' : StreamSession} {c : StreamCall}

theorem Open.opened (words : Nat → UInt32) (dptr : Nat) :
    Open (StreamSession.opened words dptr) (StreamTable.opened words dptr) := by
  refine ⟨rfl, rfl, .opened words dptr, fun stream some' => ?_, List.not_mem_nil, rfl⟩
  have missing : (StreamTable.opened words dptr).get stream = none :=
    ((Numbered.opened words dptr).get_eq_none_iff some').mpr fun _ _ => nofun
  simp [missing, StreamSession.opened]

/-- The session after a registration. -/
theorem streamCalls_register (open' : Open s d) (stream : UInt64) (a : BounceAnswer) :
    streamCalls.step s (.register stream a) = some ⟨some (d.register stream a).1,
      if (d.register stream a).2 = .ok () then stream :: s.succeeded else s.succeeded⟩ := by
  simp only [streamCalls, opendsStreamRegister, open'.drv]

/-- A number is used up for each new stream that is registered with success. -/
theorem register_nStreams (inv : Numbered d) (stream : UInt64) (a : BounceAnswer) :
    (d.register stream a).1.nStreams =
      if (d.register stream a).2 = .ok () ∧ d.get stream = none then d.nStreams + 1
      else d.nStreams := by
  have effect := inv.register_effect stream a
  generalize d.register stream a = out at effect ⊢
  obtain ⟨d', result⟩ := out
  cases effect with
  | refused | noBounce => exact (if_neg (by simp)).symm
  | known some₁ found => exact (if_neg fun both => found both.2).symm
  | new p buf desc s words some₁ missing => exact (if_pos ⟨rfl, missing⟩).symm

theorem register_null (inv : Numbered d) (a : BounceAnswer) : (d.register 0 a).2 ≠ .ok () := by
  have effect := inv.register_effect 0 a
  generalize d.register 0 a = out at effect ⊢
  obtain ⟨d', result⟩ := out
  cases effect with
  | refused | noBounce => exact nofun
  | known some' | new p buf desc s words some' => exact absurd rfl some'

/-- **A registration keeps the session in order.** -/
theorem Open.register (open' : Open s d) (stream : UInt64) (a : BounceAnswer) :
    Open ⟨some (d.register stream a).1,
      if (d.register stream a).2 = .ok () then stream :: s.succeeded else s.succeeded⟩
      (d.register stream a).1 := by
  have inv := open'.numbered
  have known : (d.register stream a).2 = .ok () → stream ≠ 0 := by
    rintro went rfl
    exact register_null inv a went
  refine ⟨rfl, (register_ready inv stream a).trans open'.ready, inv.register stream a,
    fun other some' => ?_, ?_, ?_⟩
  · rw [inv.register_found some', open'.found other some']
    by_cases went : (d.register stream a).2 = .ok ()
    · simp only [went, and_true, if_true, List.mem_cons]
      exact or_comm
    · simp only [went, and_false, or_false, if_false]
  · by_cases went : (d.register stream a).2 = .ok ()
    · rw [if_pos went, List.mem_cons]
      rintro (null | old)
      · exact known went null.symm
      · exact open'.known old
    · rw [if_neg went]
      exact open'.known
  · rw [register_nStreams inv stream a]
    by_cases went : (d.register stream a).2 = .ok ()
    · simp only [went, true_and, if_true, List.toFinset_cons]
      by_cases missing : d.get stream = none
      · have new : stream ∉ s.succeeded.toFinset := by
          rw [List.mem_toFinset, ← open'.found stream (known went)]
          exact fun found => found missing
        rw [if_pos missing, Finset.card_insert_of_notMem new, open'.number]
      · have old : stream ∈ s.succeeded.toFinset := by
          rw [List.mem_toFinset]
          exact (open'.found stream (known went)).mp missing
        rw [if_neg missing, Finset.insert_eq_of_mem old, open'.number]
    · simp only [went, false_and, if_false, open'.number]

/-- **Every call keeps the session in order.** -/
theorem Open.step (open' : Open s d) (step : streamCalls.step s c = some s') :
    ∃ d', Open s' d' := by
  cases c with
  | register stream a =>
      rw [streamCalls_register open'] at step
      cases step
      exact ⟨_, open'.register stream a⟩
  | deregister stream =>
      cases step
      exact ⟨d, open'⟩

/-- What a session keeps of an earlier one: every stream that was found then, with its
number and its state. -/
def KeepsStreams (d d' : StreamTable) : Prop :=
  ∀ stream, stream ≠ 0 → ∀ n, d.get stream = some n →
    d'.get stream = some n ∧ d'.streams n = d.streams n

theorem KeepsStreams.trans {d d' d'' : StreamTable} (first : KeepsStreams d d')
    (second : KeepsStreams d' d'') : KeepsStreams d d'' := by
  intro stream some' n found
  obtain ⟨found', same⟩ := first stream some' n found
  obtain ⟨found'', same'⟩ := second stream some' n found'
  exact ⟨found'', same'.trans same⟩

/-- A run from an open session: its streams stay in order, and apart if they were. -/
theorem Open.run {labels : List StreamCall} (open' : Open s d)
    (ran : streamCalls.run labels s = some s') :
    ∃ d', Open s' d' ∧ KeepsStreams d d' ∧
      (streamCalls.Meets FreshCall labels s → Bounced d → Bounced d') := by
  induction labels generalizing s d with
  | nil =>
      cases ran
      exact ⟨d, open', fun stream _ n found => ⟨found, rfl⟩, fun _ => id⟩
  | cons c rest ih =>
      obtain ⟨mid, step, later⟩ := Option.bind_eq_some_iff.mp ran
      cases c with
      | register stream a =>
          have step' := streamCalls_register open' stream a
          rw [step] at step'
          cases step'
          obtain ⟨d', last, keeps, bounced⟩ := ih (open'.register stream a) later
          refine ⟨d', last, KeepsStreams.trans (fun other some' n found =>
            open'.numbered.register_keeps stream a some' found) keeps, fun fresh apart => ?_⟩
          exact bounced (fresh.2 _ step)
            (apart.register open'.numbered (fresh.1 d open'.drv) stream)
      | deregister stream =>
          cases step
          obtain ⟨d', last, keeps, bounced⟩ := ih open' later
          exact ⟨d', last, keeps, fun fresh => bounced (fresh.2 _ rfl)⟩

/-- **The registered streams are a finite map.** A handle is found exactly if it was
registered with success; different handles have different numbers, gates and bounce
slots; a known handle changes nothing and a failed registration no lookup; and while
there is room no insertion fails. -/
structure FiniteMap (succeeded : List UInt64) (d : StreamTable) : Prop where
  found : ∀ stream, stream ≠ 0 → (d.get stream ≠ none ↔ stream ∈ succeeded)
  apart : ∀ stream other m n, stream ≠ 0 → other ≠ 0 → stream ≠ other →
    d.get stream = some m → d.get other = some n → m ≠ n ∧ Apart (d.streams m) (d.streams n)
  known : ∀ stream a, stream ≠ 0 → d.get stream ≠ none → d.register stream a = (d, .ok ())
  failed : ∀ stream a, (d.register stream a).2 ≠ .ok () →
    ∀ other, (d.register stream a).1.get other = d.get other
  room : d.nStreams < maxStreams →
    (∀ stream idx, (dsStreamMapPut d.streamMap streamMapMask stream idx).1 = 0) ∧
      ∀ stream a, stream ≠ 0 → BounceSucceeds a → (d.register stream a).2 = .ok ()

theorem Open.finiteMap (open' : Open s d) (bounced : Bounced d) : FiniteMap s.succeeded d := by
  have inv := open'.numbered
  refine ⟨open'.found, fun stream other m n some₁ some₂ different found found' => ?_,
    fun stream a some' found => ?_, fun stream a failed => inv.register_failed failed,
    fun room => ⟨fun stream idx => ?_, fun stream a some' bounce =>
      (inv.register_ok_iff open'.ready some' bounce).mpr (.inr room)⟩⟩
  · have numbers : m ≠ n := by
      rintro rfl
      exact different (inv.get_injective some₁ some₂ found found')
    have below : ∀ h k, h ≠ 0 → d.get h = some k → k < d.nStreams := by
      intro h k some' found
      obtain ⟨i, low, here, idx⟩ := (inv.get_eq_some_iff some').mp found
      obtain ⟨k', below, idx'⟩ := inv.number i low (by rw [here]; exact nofun)
      omega
    exact ⟨numbers, bounced.apart m n (below _ m some₁ found) (below _ n some₂ found') numbers⟩
  · have effect := inv.register_effect stream a
    generalize d.register stream a = out at effect ⊢
    obtain ⟨d', result⟩ := out
    cases effect with
    | refused e why =>
        rcases why with null | notReady | ⟨missing, -⟩
        · exact absurd null some'
        · rw [open'.ready] at notReady
          cases notReady
        · exact absurd missing found
    | known => rfl
    | noBounce e s words missing => exact absurd missing found
    | new p buf desc s words some₁ missing => exact absurd missing found
  · obtain ⟨p, inTable, free, occupied⟩ := inv.exists_firstFree stream
    rw [dsStreamMapPut_of_firstFree streamMapMask_table inTable free occupied]

/-- **Stream registration is a finite map.** After every sequence of calls on an opened
driver the registered streams are a finite map, and after every further sequence each
stream that was found has its number and its state as before. -/
theorem streamRegister_map (words : Nat → UInt32) (dptr : Nat) (before after : List StreamCall)
    (s s' : StreamSession)
    (fresh : streamCalls.Meets FreshCall before (StreamSession.opened words dptr))
    (ran : streamCalls.run before (StreamSession.opened words dptr) = some s)
    (ran' : streamCalls.run after s = some s') :
    ∃ d d', s.drv = some d ∧ s'.drv = some d' ∧ FiniteMap s.succeeded d ∧ KeepsStreams d d' := by
  obtain ⟨d, open', -, bounced⟩ := (Open.opened words dptr).run ran
  obtain ⟨d', last, keeps, -⟩ := open'.run ran'
  exact ⟨d, d', open'.drv, last.drv, open'.finiteMap (bounced fresh (.opened words dptr)), keeps⟩

/-- The handle of the legacy stream, and another one. -/
def twoStreams : List StreamCall :=
  [.register 1 ⟨.ok (4096, 64), some 8192⟩, .register 2 ⟨.ok (4160, 128), some 12288⟩]

/-- Compute whether what the allocators answer is not in use. -/
def isFresh (s : StreamSession) : StreamCall → Bool
  | .register _ a => s.drv.all fun d => (List.range d.nStreams).all fun n =>
      (a.buf.all fun buf => decide ((d.streams n).bounceBuf ≠ some buf)) &&
        (a.desc.toOption.all fun desc => decide ((d.streams n).bounceDescHost ≠ some desc.1))
  | .deregister _ => true

theorem freshCall_of_isFresh (s : StreamSession) (c : StreamCall) (passed : isFresh s c = true) :
    FreshCall s c := by
  cases c with
  | deregister stream => trivial
  | register stream a =>
      intro d drv n below
      simp only [isFresh, drv, Option.all_some, List.all_eq_true, List.mem_range, Bool.and_eq_true]
        at passed
      obtain ⟨freshBuf, freshDesc⟩ := passed n below
      refine ⟨fun buf answered => ?_, fun desc answered => ?_⟩
      · rw [answered] at freshBuf
        exact of_decide_eq_true freshBuf
      · rw [answered] at freshDesc
        exact of_decide_eq_true freshDesc

/-- Two streams are registered, and after a third one they are found as before. -/
theorem streamRegister_map_twoStreams :
    ∃ s s' d d', streamCalls.run twoStreams (StreamSession.opened (fun _ => 7) 0) = some s ∧
      streamCalls.run [.register 3 ⟨.ok (4224, 192), some 16384⟩] s = some s' ∧
      s.drv = some d ∧ s'.drv = some d' ∧ FiniteMap s.succeeded d ∧ KeepsStreams d d' := by
  have fresh : streamCalls.Meets FreshCall twoStreams (StreamSession.opened (fun _ => 7) 0) :=
    Machine.meets_of_check freshCall_of_isFresh (by decide +kernel)
  obtain ⟨s, ran⟩ : ∃ s, streamCalls.run twoStreams (StreamSession.opened (fun _ => 7) 0) = some s :=
    ⟨_, rfl⟩
  obtain ⟨s', ran'⟩ : ∃ s', streamCalls.run [.register 3 ⟨.ok (4224, 192), some 16384⟩] s =
      some s' := ⟨_, rfl⟩
  obtain ⟨d, d', facts⟩ := streamRegister_map _ _ twoStreams _ s s' fresh ran ran'
  exact ⟨s, s', d, d', ran, ran', facts⟩

/-! ## The capacity -/

/-- The stream of a registration that is not of the null handle. -/
def StreamCall.registered : StreamCall → Option UInt64
  | .register stream _ => if stream = 0 then none else some stream
  | .deregister _ => none

/-- The streams that the calls register. -/
def streamsOf (calls : List StreamCall) : Finset UInt64 :=
  (calls.filterMap StreamCall.registered).toFinset

/-- The call registers a stream with success, if it registers one. -/
def CallSucceeds (s : StreamSession) (c : StreamCall) : Prop :=
  ∀ stream a, c = .register stream a → stream ≠ 0 →
    (opendsStreamRegister s.drv stream a).2 = .ok ()

/-- The bounce slots of the call are allocated. -/
def CallBounces (c : StreamCall) : Prop := ∀ stream a, c = .register stream a → BounceSucceeds a

theorem streamsOf_cons (c : StreamCall) (rest : List StreamCall) :
    streamsOf (c :: rest) = c.registered.toFinset ∪ streamsOf rest := by
  cases registered : c.registered with
  | none =>
      rw [streamsOf, List.filterMap_cons_none registered]
      exact (Finset.empty_union _).symm
  | some stream =>
      rw [streamsOf, List.filterMap_cons_some registered, List.toFinset_cons, Finset.insert_eq]
      rfl

/-- From an open session, every registration succeeds exactly if the driver has numbers
for the streams it has seen and those that are to come. -/
theorem Open.succeed_iff {labels : List StreamCall} (open' : Open s d)
    (bounce : ∀ c ∈ labels, CallBounces c) :
    streamCalls.Meets CallSucceeds labels s ↔
      (s.succeeded.toFinset ∪ streamsOf labels).card ≤ maxStreams := by
  induction labels generalizing s d with
  | nil =>
      have none : streamsOf [] = ∅ := rfl
      rw [none, Finset.union_empty, ← open'.number]
      exact ⟨fun _ => open'.numbered.count, fun _ => trivial⟩
  | cons c rest ih =>
      have later : ∀ c' ∈ rest, CallBounces c' :=
        fun c' member => bounce c' (List.mem_cons_of_mem _ member)
      rw [streamsOf_cons]
      cases c with
      | deregister stream =>
          have step : streamCalls.step s (.deregister stream) = some s := rfl
          have none : (StreamCall.deregister stream).registered = none := rfl
          rw [Machine.meets_cons_iff step, ih open' later, none, Option.toFinset_none,
            Finset.empty_union]
          exact ⟨fun meets => meets.2, fun room => ⟨nofun, room⟩⟩
      | register stream a =>
          have step := streamCalls_register open' stream a
          have after := open'.register stream a
          rw [Machine.meets_cons_iff step, ih after later]
          have succeeds : CallSucceeds s (.register stream a) ↔
              (stream ≠ 0 → (d.register stream a).2 = .ok ()) := by
            refine ⟨fun succeeds some' => ?_, fun succeeds stream' a' same some' => ?_⟩
            · have went := succeeds stream a rfl some'
              rwa [open'.drv] at went
            · cases same
              rw [open'.drv]
              exact succeeds some'
          rw [succeeds]
          by_cases null : stream = 0
          · subst null
            have none : (StreamCall.register 0 a).registered = none := rfl
            rw [if_neg (register_null open'.numbered a), none, Option.toFinset_none,
              Finset.empty_union]
            exact ⟨fun meets => meets.2, fun room => ⟨fun some' => absurd rfl some', room⟩⟩
          · have registered : (StreamCall.register stream a).registered = some stream := if_neg null
            have ok := open'.numbered.register_ok_iff open'.ready null
              (bounce _ (List.mem_cons_self ..) stream a rfl)
            rw [registered, Option.toFinset_some]
            by_cases went : (d.register stream a).2 = .ok ()
            · rw [if_pos went, List.toFinset_cons, Finset.insert_eq, Finset.union_assoc,
                Finset.union_left_comm]
              exact ⟨fun meets => meets.2, fun room => ⟨fun _ => went, room⟩⟩
            · -- A stream that is new when there are no more numbers is one too many.
              refine ⟨fun meets => absurd (meets.1 null) went, fun room => absurd room ?_⟩
              rw [ok, not_or, not_not] at went
              obtain ⟨missing, full⟩ := went
              have new : stream ∉ s.succeeded.toFinset := by
                rw [List.mem_toFinset, ← open'.found stream null]
                exact fun found => found missing
              have more : (insert stream s.succeeded.toFinset).card ≤
                  (s.succeeded.toFinset ∪ ({stream} ∪ streamsOf rest)).card := by
                refine Finset.card_le_card fun x member => ?_
                simp only [Finset.mem_insert, Finset.mem_union, Finset.mem_singleton] at member ⊢
                tauto
              rw [Finset.card_insert_of_notMem new, ← open'.number] at more
              omega

/-- From the opened driver. -/
theorem succeed_iff_of_opened (words : Nat → UInt32) (dptr : Nat) {labels : List StreamCall}
    (bounce : ∀ c ∈ labels, CallBounces c) :
    streamCalls.Meets CallSucceeds labels (StreamSession.opened words dptr) ↔
      (streamsOf labels).card ≤ maxStreams := by
  have none : (StreamSession.opened words dptr).succeeded.toFinset ∪ streamsOf labels =
      streamsOf labels := Finset.empty_union _
  rw [(Open.opened words dptr).succeed_iff bounce, none]

/-- **What the capacity counts.** In every sequence of calls whose bounce slots are
allocated, every registration of a stream succeeds exactly if the sequence registers at
most `MAX_STREAMS` different streams in all, deregistered or not. -/
theorem registrations_succeed_iff (words : Nat → UInt32) (dptr : Nat) (labels : List StreamCall)
    (bounce : ∀ c ∈ labels, CallBounces c) :
    streamCalls.Meets CallSucceeds labels (StreamSession.opened words dptr) ↔
      (streamsOf labels).card ≤ maxStreams :=
  succeed_iff_of_opened words dptr bounce

/-- A bounce slot is allocated. -/
def someBounce : BounceAnswer := ⟨.ok (1, 1), some 1⟩

/-- A stream comes and goes, and comes again. -/
def returning : List StreamCall := [.register 5 someBounce, .deregister 5, .register 5 someBounce]

/-- The registrations of a stream that comes and goes succeed. -/
theorem registrations_succeed_iff_returning :
    streamCalls.Meets CallSucceeds returning (StreamSession.opened (fun _ => 0) 0) := by
  refine (registrations_succeed_iff _ _ returning fun c member stream a same => ?_).mpr
    (by decide +kernel)
  subst same
  simp only [returning, List.mem_cons, StreamCall.register.injEq, List.not_mem_nil, or_false,
    reduceCtorEq, false_or] at member
  rcases member with ⟨-, rfl⟩ | ⟨-, rfl⟩ <;> exact ⟨1, (1, 1), rfl, rfl⟩

/-- The streams that are registered and not deregistered, after one more call. -/
def liveAfter (live : Finset UInt64) : StreamCall → Finset UInt64
  | .register stream _ => if stream = 0 then live else insert stream live
  | .deregister stream => live.erase stream

/-- Registrations succeed while at most `MAX_STREAMS` streams are registered at once. -/
def CapacityCountsLive : Prop :=
  ∀ (words : Nat → UInt32) (dptr : Nat) (labels : List StreamCall),
    (∀ c ∈ labels, CallBounces c) →
    (∀ n, ((labels.take n).foldl liveAfter ∅).card ≤ maxStreams) →
    streamCalls.Meets CallSucceeds labels (StreamSession.opened words dptr)

/-- A stream is registered and deregistered. -/
def comeAndGo (i : Nat) : List StreamCall :=
  [.register (UInt64.ofNat (i + 1)) someBounce, .deregister (UInt64.ofNat (i + 1))]

/-- At any time at most one of the streams that come and go is registered. -/
theorem card_live_comeAndGo (streams : List Nat) (n : Nat) :
    (((streams.flatMap comeAndGo).take n).foldl liveAfter ∅).card ≤ 1 := by
  induction streams generalizing n with
  | nil =>
      rw [List.flatMap_nil, List.take_nil]
      exact Nat.zero_le 1
  | cons i rest ih =>
      rw [List.flatMap_cons]
      match n with
      | 0 => exact Nat.zero_le 1
      | 1 =>
          change (liveAfter ∅ (.register (UInt64.ofNat (i + 1)) someBounce)).card ≤ 1
          simp only [liveAfter]
          split
          · exact Nat.zero_le 1
          · exact Nat.le_refl 1
      | n + 2 =>
          have none : liveAfter (liveAfter ∅ (.register (UInt64.ofNat (i + 1)) someBounce))
              (.deregister (UInt64.ofNat (i + 1))) = ∅ := by
            simp only [liveAfter]
            split
            · rfl
            · rw [Finset.erase_insert (Finset.notMem_empty _)]
          change (((rest.flatMap comeAndGo).take n).foldl liveAfter
            (liveAfter (liveAfter ∅ (.register (UInt64.ofNat (i + 1)) someBounce))
              (.deregister (UInt64.ofNat (i + 1))))).card ≤ 1
          rw [none]
          exact ih n

theorem registered_comeAndGo {i : Nat} (small : i + 1 < 2 ^ 64) :
    (comeAndGo i).filterMap StreamCall.registered = [UInt64.ofNat (i + 1)] := by
  have some' : UInt64.ofNat (i + 1) ≠ 0 := by
    intro null
    have zero := congrArg UInt64.toNat null
    rw [UInt64.toNat_ofNat', Nat.mod_eq_of_lt small] at zero
    exact absurd zero (Nat.succ_ne_zero i)
  simp only [comeAndGo, List.filterMap_cons, StreamCall.registered, if_neg some', List.filterMap_nil]

/-- They are all different. -/
theorem card_streamsOf_comeAndGo {n : Nat} (small : n < 2 ^ 64) :
    (streamsOf ((List.range n).flatMap comeAndGo)).card = n := by
  have handles : ((List.range n).flatMap comeAndGo).filterMap StreamCall.registered =
      (List.range n).map fun i => UInt64.ofNat (i + 1) := by
    rw [List.filterMap_flatMap, List.map_eq_flatMap]
    refine List.flatMap_congr fun i member => ?_
    rw [List.mem_range] at member
    exact registered_comeAndGo (by omega)
  have distinct : ((List.range n).map fun i => UInt64.ofNat (i + 1)).Nodup := by
    refine List.Nodup.map_on (fun i inI j inJ same => ?_) (List.nodup_range)
    rw [List.mem_range] at inI inJ
    have equal := congrArg UInt64.toNat same
    rw [UInt64.toNat_ofNat', UInt64.toNat_ofNat', Nat.mod_eq_of_lt (by omega),
      Nat.mod_eq_of_lt (by omega)] at equal
    omega
  rw [streamsOf, handles, List.toFinset_card_of_nodup distinct, List.length_map, List.length_range]

/-- **Streams that are gone use up the capacity**: of 8193 streams that come and go one
after the other the last one is refused. -/
theorem gone_streams_use_capacity : ¬ CapacityCountsLive := by
  intro counts
  obtain ⟨n, size⟩ : ∃ n, n = maxStreams + 1 := ⟨_, rfl⟩
  have bounce : ∀ c ∈ (List.range n).flatMap comeAndGo, CallBounces c := by
    intro c member stream a same
    obtain ⟨i, -, here⟩ := List.mem_flatMap.mp member
    subst same
    simp only [comeAndGo, List.mem_cons, StreamCall.register.injEq, List.not_mem_nil, or_false,
      reduceCtorEq] at here
    obtain ⟨-, rfl⟩ := here
    exact ⟨1, (1, 1), rfl, rfl⟩
  have few : ∀ k, ((((List.range n).flatMap comeAndGo).take k).foldl liveAfter ∅).card ≤
      maxStreams := fun k => Nat.le_trans (card_live_comeAndGo _ k) (by decide)
  have small : n < 2 ^ 64 := by
    rw [size]
    norm_num [maxStreams]
  have succeed := (succeed_iff_of_opened (fun _ => 0) 0 bounce).mp (counts _ 0 _ bounce few)
  rw [card_streamsOf_comeAndGo small] at succeed
  omega

end OpenDS.Driver
