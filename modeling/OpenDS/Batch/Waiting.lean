import OpenDS.Batch.BatchAsync

/-!
# How long a batch waits

`opends_batch_get_status` counts the completions until there are enough of them or the
deadline has come, and then delivers what it finds. Operations complete meanwhile, in any
order. What a call delivers is as documented in every run of it, unless the deadline is past
the end of `time_t`: such a deadline has always come, and the call does not wait
(`getStatus_waits_iff`).
-/

set_option autoImplicit false

namespace OpenDS.Batch

open OpenDS.Library

/-! ## The call -/

/-- A call of `opends_batch_get_status` with what it has read from the clock, and the entries
that its delivery scan began with. -/
structure StatusRun where
  state : BatchState
  readings : List Timespec
  scanned : Option AsyncBatch

/-- The call has come to its delivery scan. -/
def beginsScan (before after : BatchPc) : Bool :=
  match before, after with
  | .collect _ _ _, _ => false
  | _, .collect _ _ _ => true
  | _, _ => false

/-- The readings after a step. -/
def readAfter (readings : List Timespec) : BatchLabel → List Timespec
  | .clock now => readings ++ [now]
  | _ => readings

/-- A call, to its return. -/
def statusMachine : Machine StatusRun BatchLabel where
  step t label :=
    if t.state.pc = .idle then none
    else (batchMachine.step t.state label).map fun s =>
      ⟨s, readAfter t.readings label, if beginsScan t.state.pc s.pc then some s.batch else t.scanned⟩

/-- The arguments of a call, and the time of the call. -/
structure StatusArgs where
  minNr : Nat
  nr : Nat
  timeout : Option Timespec
  now : Timespec

/-- The call is made. -/
def BatchState.enter (s : BatchState) (q : StatusArgs) : StatusRun :=
  ⟨s.statusCall q.minNr (some q.nr) true q.timeout q.now, [], none⟩

/-! ## The claim -/

/-- A time that `clock_gettime` reports, or a timeout with a valid count of nanoseconds. -/
structure Timespec.Valid (t : Timespec) : Prop where
  sec : 0 ≤ t.tvSec
  fits : t.tvSec < 2 ^ 63
  nsec : 0 ≤ t.tvNsec
  below : t.tvNsec < 1000000000

/-- The time in nanoseconds. -/
def Timespec.nanoseconds (t : Timespec) : Int := t.tvSec * 1000000000 + t.tvNsec

/-- The clock does not go back. -/
def Ticks (q : StatusArgs) (t : StatusRun) (label : BatchLabel) : Prop :=
  ∀ now, label = .clock now → now.Valid ∧
    ((t.readings.getLast?).getD q.now).nanoseconds ≤ now.nanoseconds

/-- The entry holds a completion that was not delivered. -/
def AsyncBatch.ready (b : AsyncBatch) (i : Nat) : Bool :=
  !(b.entries i).delivered && (b.entries i).isDone

/-- The completions that were not delivered, from an entry on. -/
def AsyncBatch.readyFrom (b : AsyncBatch) (i : Nat) : Nat :=
  Nat.count (fun k => b.ready (i + k) = true) (b.used - i)

/-- What a call has delivered that returns. -/
structure ReportsRight (s : BatchState) (q : StatusArgs) (t : StatusRun) (events : List Delivery) :
    Prop where
  history : t.state.history.events = s.history.events ++ events
  success : t.state.returned = .success
  atMost : events.length ≤ q.nr
  waits : q.timeout = none → q.minNr ≤ events.length
  /-- It delivers less only where the clock has reached the deadline. -/
  expires : ∀ timeout, q.timeout = some timeout → events.length < q.minNr →
    ∃ now, t.readings.getLast? = some now ∧
      q.now.nanoseconds + timeout.nanoseconds ≤ now.nanoseconds
  /-- It delivers all that was complete when the scan began, if there was room. -/
  complete : events.length < q.nr → ∃ b, t.scanned = some b ∧ ∀ i, i < b.used →
    b.ready i = true → (b.entries i).id ∈ events.map Delivery.op

/-- Every run of the call delivers what it should. -/
def WaitsRight (s : BatchState) (q : StatusArgs) : Prop :=
  ∀ labels t, statusMachine.Meets (Ticks q) labels (s.enter q) →
    statusMachine.run labels (s.enter q) = some t → t.state.pc = .idle →
    ∃ events, ReportsRight s q t events

/-- The deadline is a `time_t`. -/
def Timespec.DeadlineFits (now timeout : Timespec) : Prop :=
  now.tvSec + timeout.tvSec + (now.tvNsec + timeout.tvNsec) / 1000000000 < 2 ^ 63

instance (now timeout : Timespec) : Decidable (now.DeadlineFits timeout) :=
  inferInstanceAs (Decidable (_ < _))

/-! ## The clock -/

variable {now timeout reading : Timespec}

/-- **A deadline that fits is exact to the nanosecond.** -/
theorem reached_iff (valid : now.Valid) (bounded : timeout.Valid) (read : reading.Valid)
    (fits : now.DeadlineFits timeout) :
    (now.deadline timeout).reached reading = true ↔
      now.nanoseconds + timeout.nanoseconds ≤ reading.nanoseconds := by
  obtain ⟨sec, _, nsec, below⟩ := valid
  obtain ⟨sec', _, nsec', below'⟩ := bounded
  obtain ⟨_, _, nsec'', below''⟩ := read
  unfold Timespec.DeadlineFits at fits
  unfold Timespec.reached Timespec.deadline timeT Timespec.nanoseconds
  simp only [Int.bmod_def]
  split <;> simp only [decide_eq_true_eq] <;> omega

/-- A deadline that does not fit has always come. -/
theorem reached_of_wraps (valid : now.Valid) (bounded : timeout.Valid) (read : reading.Valid)
    (wraps : ¬ now.DeadlineFits timeout) : (now.deadline timeout).reached reading = true := by
  obtain ⟨sec, fits, nsec, below⟩ := valid
  obtain ⟨sec', fits', nsec', below'⟩ := bounded
  obtain ⟨sec'', _, nsec'', below''⟩ := read
  unfold Timespec.DeadlineFits at wraps
  unfold Timespec.reached Timespec.deadline timeT
  simp only [Int.bmod_def]
  split <;> simp only [decide_eq_true_eq] <;> omega

/-! ## Completions -/

variable {b b' : AsyncBatch} {s s' : BatchState} {i : Nat}

/-- The completions that were not delivered, in the first entries. -/
def AsyncBatch.readyBelow (b : AsyncBatch) (i : Nat) : Nat := Nat.count (fun j => b.ready j = true) i

theorem readyFrom_zero (b : AsyncBatch) : b.readyFrom 0 = b.readyBelow b.used := by
  simp [AsyncBatch.readyFrom, AsyncBatch.readyBelow]

theorem readyFrom_of_le (past : b.used ≤ i) : b.readyFrom i = 0 := by
  rw [AsyncBatch.readyFrom, Nat.sub_eq_zero_of_le past, Nat.count_zero]

/-- The entry comes off that the loop stands at. -/
theorem readyFrom_eq (lt : i < b.used) :
    b.readyFrom i = b.readyFrom (i + 1) + if b.ready i = true then 1 else 0 := by
  unfold AsyncBatch.readyFrom
  have next : (fun k => b.ready (i + (k + 1)) = true) = fun k => b.ready (i + 1 + k) = true := by
    funext k
    rw [Nat.add_assoc, Nat.add_comm k 1]
  rw [show b.used - i = b.used - (i + 1) + 1 by omega, Nat.count_succ']
  simp only [next, Nat.add_zero]

theorem readyFrom_mono (used : b'.used = b.used)
    (more : ∀ j, i ≤ j → b.ready j = true → b'.ready j = true) : b.readyFrom i ≤ b'.readyFrom i := by
  unfold AsyncBatch.readyFrom
  rw [used]
  exact Nat.count_mono_left fun k _ ready => more (i + k) (Nat.le_add_right i k) ready

/-- What a completion does while a call runs: it makes its entry ready, if that was not
delivered. -/
structure Arrives (s s' : BatchState) : Prop where
  pc : s'.pc = s.pc
  events : s'.history.events = s.history.events
  used : s'.batch.used = s.batch.used
  ready : ∀ j, s.batch.ready j = true → s'.batch.ready j = true
  id : ∀ j, (s'.batch.entries j).id = (s.batch.entries j).id

theorem arrives {index : Nat} {result : Int} (step : s.arrive index result = some s') :
    Arrives s s' := by
  obtain ⟨a, -, rfl⟩ := Option.map_eq_some_iff.mp step
  refine ⟨rfl, rfl, rfl, fun j ready => ?_, fun j => ?_⟩
  · unfold AsyncBatch.ready BatchEntry.isDone at *
    by_cases here : j = a.slot
    · subst here
      simp_all
    · simpa [here] using ready
  · by_cases here : j = a.slot
    · subst here
      simp
    · simp [here]

/-! ## What a call keeps -/

variable {q : StatusArgs} {t t' : StatusRun} {label : BatchLabel}

/-- The call as its loops have it. -/
def StatusArgs.call (q : StatusArgs) : StatusCall := ⟨q.minNr, q.nr, q.timeout.map q.now.deadline⟩

/-- The call has found too little, and the deadline has come by the latest reading. -/
def Expired (s : BatchState) (q : StatusArgs) (t : StatusRun) : Prop :=
  s.batch.readyFrom 0 < q.minNr ∧ ∃ timeout now, q.timeout = some timeout ∧ t.readings.getLast? = some now ∧
    (q.now.deadline timeout).reached now = true

/-- What holds in the delivery scan at an entry. -/
structure Scanning (s : BatchState) (q : StatusArgs) (t : StatusRun) (i out : Nat)
    (events : List Delivery) : Prop where
  history : t.state.history.events = s.history.events ++ events
  length : events.length = out
  atMost : out ≤ q.nr
  /-- There is enough left to deliver, or the deadline has come. -/
  enough : q.minNr ≤ out + t.state.batch.readyFrom i ∨ Expired s q t
  /-- What was complete at the beginning has been delivered, or lies ahead. -/
  complete : ∃ b, t.scanned = some b ∧ b.used = t.state.batch.used ∧ ∀ j, j < b.used →
    b.ready j = true → (j < i ∧ (b.entries j).id ∈ events.map Delivery.op) ∨
      (i ≤ j ∧ t.state.batch.ready j = true ∧ (t.state.batch.entries j).id = (b.entries j).id)

/-- What was complete at the call still is. -/
structure StillReady (s : BatchState) (b : AsyncBatch) : Prop where
  used : b.used = s.batch.used
  ready : ∀ j, s.batch.ready j = true → b.ready j = true

/-- What holds in a call. -/
def StatusInv (s : BatchState) (q : StatusArgs) (t : StatusRun) : Prop :=
  match t.state.pc with
  | .count call i ready =>
    call = q.call ∧ t.state.history.events = s.history.events ∧ StillReady s t.state.batch ∧
      i ≤ t.state.batch.used ∧ s.batch.readyBelow i ≤ ready ∧ ready ≤ t.state.batch.readyBelow i
  | .clock call =>
    call = q.call ∧ t.state.history.events = s.history.events ∧ StillReady s t.state.batch ∧
      s.batch.readyFrom 0 < q.minNr
  | .collect call i out => call = q.call ∧ ∃ events, Scanning s q t i out events
  | .idle => ∃ events, t.state.history.events = s.history.events ++ events ∧
      t.state.returned = .success ∧ events.length ≤ q.nr ∧
      (events.length < q.minNr → Expired s q t) ∧
      (events.length < q.nr → ∃ b, t.scanned = some b ∧ ∀ i, i < b.used → b.ready i = true →
        (b.entries i).id ∈ events.map Delivery.op)
  | _ => False

/-- A step that does not return. -/
theorem statusMachine_step (running : t.state.pc ≠ .idle) (step : statusMachine.step t label = some t') :
    ∃ s', batchMachine.step t.state label = some s' ∧ t' = ⟨s', readAfter t.readings label,
        if beginsScan t.state.pc s'.pc then some s'.batch else t.scanned⟩ := by
  simp only [statusMachine, if_neg running] at step
  obtain ⟨s', taken, same⟩ := Option.map_eq_some_iff.mp step
  exact ⟨s', taken, same.symm⟩

theorem beginsScan_self (pc : BatchPc) : beginsScan pc pc = false := by
  cases pc <;> rfl

theorem StillReady.arrive {t : BatchState} (still : StillReady s t.batch) (arrived : Arrives t s') :
    StillReady s s'.batch :=
  ⟨arrived.used.trans still.used, fun j ready => arrived.ready j (still.ready j ready)⟩

/-- A completion disturbs no call. -/
theorem StatusInv.arrive (inv : StatusInv s q t) (running : t.state.pc ≠ .idle)
    (arrived : Arrives t.state s') :
    StatusInv s q ⟨s', t.readings, t.scanned⟩ := by
  unfold StatusInv at *
  rw [arrived.pc, arrived.events]
  cases pc : t.state.pc with
  | count call i ready =>
      simp only [pc] at inv ⊢
      obtain ⟨same, events, still, le, found, counted⟩ := inv
      exact ⟨same, events, still.arrive arrived, le.trans_eq arrived.used.symm, found,
        counted.trans (Nat.count_mono_left fun k _ => arrived.ready k)⟩
  | clock call =>
      simp only [pc] at inv ⊢
      obtain ⟨same, events, still, few⟩ := inv
      exact ⟨same, events, still.arrive arrived, few⟩
  | collect call i out =>
      simp only [pc] at inv ⊢
      obtain ⟨same, events, scanning⟩ := inv
      refine ⟨same, events, arrived.events.trans scanning.history, scanning.length, scanning.atMost,
        ?_, ?_⟩
      · refine scanning.enough.imp_left fun enough => enough.trans ?_
        exact Nat.add_le_add_left (readyFrom_mono arrived.used fun j _ => arrived.ready j) out
      · obtain ⟨b, began, used, complete⟩ := scanning.complete
        refine ⟨b, began, used.trans arrived.used.symm, fun j lt ready => ?_⟩
        refine (complete j lt ready).imp_right fun ahead => ?_
        exact ⟨ahead.1, arrived.ready j ahead.2.1, (arrived.id j).trans ahead.2.2⟩
  | idle => exact absurd pc running
  | _ => simp only [pc] at inv

/-- The delivery scan begins. -/
theorem Scanning.begin (events : t.state.history.events = s.history.events)
    (scanned : t.scanned = some t.state.batch)
    (enough : q.minNr ≤ t.state.batch.readyFrom 0 ∨ Expired s q t) : Scanning s q t 0 0 [] where
  history := by rw [events, List.append_nil]
  length := rfl
  atMost := Nat.zero_le _
  enough := enough.imp_left fun enough => by omega
  complete := ⟨t.state.batch, scanned, rfl, fun j _ ready => .inr ⟨Nat.zero_le j, ready, rfl⟩⟩

/-- One pass of `count_ready`. -/
theorem StatusInv.countOne {call : StatusCall} {ready : Nat} (inv : StatusInv s q t)
    (pc : t.state.pc = .count call i ready)
    (same : t' = ⟨t.state.countOne call i ready, t.readings,
      if beginsScan t.state.pc (t.state.countOne call i ready).pc
      then some (t.state.countOne call i ready).batch else t.scanned⟩) : StatusInv s q t' := by
  subst same
  unfold StatusInv at inv
  simp only [pc] at inv
  obtain ⟨rfl, events, still, le, found, counted⟩ := inv
  unfold BatchState.countOne
  split
  · rename_i lt
    refine ⟨rfl, events, still, lt, ?_, ?_⟩
    · change s.batch.readyBelow (i + 1) ≤ if t.state.batch.ready i = true then ready + 1 else ready
      have kept := still.ready i
      unfold AsyncBatch.readyBelow at *
      rw [Nat.count_succ]
      split_ifs <;> simp_all
      omega
    · change (if t.state.batch.ready i = true then ready + 1 else ready) ≤
        t.state.batch.readyBelow (i + 1)
      unfold AsyncBatch.readyBelow at *
      rw [Nat.count_succ]
      split_ifs <;> omega
  · rename_i past
    have all : i = t.state.batch.used := by omega
    split
    · rename_i few
      change ready < q.minNr at few
      split
      · refine ⟨rfl, events, still, ?_⟩
        rw [readyFrom_zero, ← still.used, ← all]
        omega
      · exact ⟨rfl, events, still, Nat.zero_le _, Nat.zero_le _, Nat.zero_le _⟩
    · rename_i enough
      refine ⟨rfl, [], Scanning.begin events ?_ (.inl ?_)⟩
      · simp [BatchState.goTo, pc, beginsScan]
      · rw [readyFrom_zero]
        change q.minNr ≤ t.state.batch.readyBelow t.state.batch.used
        change ¬ ready < q.minNr at enough
        rw [all] at counted
        omega

/-- The clock is read. -/
theorem StatusInv.waitOne {call : StatusCall} {now : Timespec} (inv : StatusInv s q t)
    (pc : t.state.pc = .clock call)
    (same : t' = ⟨t.state.waitOne call now, t.readings ++ [now],
      if beginsScan t.state.pc (t.state.waitOne call now).pc
      then some (t.state.waitOne call now).batch else t.scanned⟩) : StatusInv s q t' := by
  subst same
  unfold StatusInv at inv
  simp only [pc] at inv
  obtain ⟨rfl, events, still, few⟩ := inv
  unfold BatchState.waitOne
  split
  · rename_i deadline due
    obtain ⟨timeout, given, rfl⟩ := Option.map_eq_some_iff.mp due
    split
    · rename_i reached
      refine ⟨rfl, [], Scanning.begin events ?_ (.inr ⟨few, timeout, now, given, ?_, reached⟩)⟩
      · simp [BatchState.goTo, pc, beginsScan]
      · simp
    · exact ⟨rfl, events, still, Nat.zero_le _, Nat.zero_le _, Nat.zero_le _⟩
  · exact ⟨rfl, events, still, Nat.zero_le _, Nat.zero_le _, Nat.zero_le _⟩

/-- The test of the delivery scan. -/
theorem skips_eq (b : AsyncBatch) (i : Nat) :
    ((b.entries i).delivered || !(b.entries i).isDone) = !b.ready i := by
  simp [AsyncBatch.ready]

/-- The scan goes past an entry that is not ready. -/
theorem Scanning.skip {out : Nat} {events : List Delivery} (scanning : Scanning s q t i out events)
    (lt : i < t.state.batch.used) (unready : t.state.batch.ready i = false) (pc : BatchPc) :
    Scanning s q ⟨t.state.goTo pc, t.readings, t.scanned⟩ (i + 1) out events := by
  have left := readyFrom_eq lt
  rw [unready, if_neg Bool.false_ne_true, add_zero] at left
  refine ⟨scanning.history, scanning.length, scanning.atMost, ?_, ?_⟩
  · exact scanning.enough.imp_left fun enough => enough.trans_eq (congrArg (out + ·) left)
  · obtain ⟨b, began, used, complete⟩ := scanning.complete
    refine ⟨b, began, used, fun j lt' ready => ?_⟩
    rcases complete j lt' ready with ⟨past, mem⟩ | ⟨ahead, now, same⟩
    · exact .inl ⟨Nat.lt_succ_of_lt past, mem⟩
    · have other : j ≠ i := by
        rintro rfl
        exact absurd now (by simp [unready])
      exact .inr ⟨by omega, now, same⟩

theorem entries_deliver (s : BatchState) (call : StatusCall) (i out : Nat) (event : IoEvent) {j : Nat}
    (ahead : i < j) : (s.deliver call i out event).batch.entries j = s.batch.entries j :=
  Function.update_of_ne (by omega) _ _

/-- A delivery leaves what lies ahead. -/
theorem readyFrom_deliver (s : BatchState) (call : StatusCall) (i out : Nat) (event : IoEvent) :
    (s.deliver call i out event).batch.readyFrom (i + 1) = s.batch.readyFrom (i + 1) := by
  have same : ∀ j, i + 1 ≤ j → (s.deliver call i out event).batch.ready j = s.batch.ready j := by
    intro j past
    unfold AsyncBatch.ready
    rw [entries_deliver s call i out event past]
  exact le_antisymm (readyFrom_mono rfl fun j past => (same j past ▸ id))
    (readyFrom_mono rfl fun j past => (same j past ▸ id))

/-- The scan delivers an entry. -/
theorem Scanning.deliver {out : Nat} {events : List Delivery}
    (scanning : Scanning s q t i out events) (lt : i < t.state.batch.used) (room : out < q.nr)
    (ready : t.state.batch.ready i = true) (event : IoEvent) :
    Scanning s q ⟨t.state.deliver q.call i out event, t.readings, t.scanned⟩ (i + 1) (out + 1)
      (events ++ [⟨(t.state.batch.entries i).id, event⟩]) := by
  have left := readyFrom_eq lt
  rw [if_pos ready] at left
  refine ⟨?_, by simp [scanning.length], room, ?_, ?_⟩
  · rw [← List.append_assoc, ← scanning.history]
    rfl
  · refine scanning.enough.imp_left fun enough => ?_
    change q.minNr ≤ out + 1 + (t.state.deliver q.call i out event).batch.readyFrom (i + 1)
    rw [readyFrom_deliver]
    omega
  · obtain ⟨b, began, used, complete⟩ := scanning.complete
    refine ⟨b, began, used, fun j lt' ready => ?_⟩
    rw [List.map_append]
    rcases complete j lt' ready with ⟨past, mem⟩ | ⟨not, now, same⟩
    · exact .inl ⟨Nat.lt_succ_of_lt past, List.mem_append_left _ mem⟩
    · by_cases here : j = i
      · subst here
        exact .inl ⟨Nat.lt_succ_self j, List.mem_append_right _ (by simp [same])⟩
      · refine .inr ⟨by omega, ?_, ?_⟩
        · unfold AsyncBatch.ready at *
          rw [entries_deliver _ _ _ _ _ (by omega)]
          exact now
        · rw [entries_deliver _ _ _ _ _ (by omega)]
          exact same

/-- One pass of the delivery scan. -/
theorem StatusInv.collectOne {call : StatusCall} {out : Nat} (inv : StatusInv s q t)
    (enough : q.minNr ≤ q.nr) (pc : t.state.pc = .collect call i out)
    (step : t.state.collectOne call i out = some s') :
    StatusInv s q ⟨s', t.readings, t.scanned⟩ := by
  unfold StatusInv at inv
  simp only [pc] at inv
  obtain ⟨rfl, events, scanning⟩ := inv
  unfold BatchState.collectOne at step
  split at step
  · rename_i more
    dsimp only at step
    rw [skips_eq] at step
    split at step
    · rename_i unready
      cases step
      exact ⟨rfl, events, scanning.skip more.1 (by simpa using unready) _⟩
    · rename_i ready
      obtain ⟨event, -, rfl⟩ := Option.map_eq_some_iff.mp step
      exact ⟨rfl, _, scanning.deliver more.1 more.2 (by simpa using ready) event⟩
  · rename_i finished
    cases step
    have length := scanning.length
    have atMost := scanning.atMost
    refine ⟨events, scanning.history, rfl, by omega, fun fewer => ?_, fun room => ?_⟩
    · rcases scanning.enough with left | expired
      · by_cases past : t.state.batch.used ≤ i
        · rw [readyFrom_of_le past] at left
          omega
        · exact absurd ⟨Nat.lt_of_not_le past, by change out < q.nr; omega⟩ finished
      · exact expired
    · obtain ⟨b, began, used, complete⟩ := scanning.complete
      refine ⟨b, began, fun j lt ready => ?_⟩
      rcases complete j lt ready with ⟨_, mem⟩ | ⟨ahead, _, _⟩
      · exact mem
      · exact absurd ⟨by omega, by change out < q.nr; omega⟩ finished

/-- **Every step of a call keeps what holds in it.** -/
theorem StatusInv.step (inv : StatusInv s q t) (enough : q.minNr ≤ q.nr)
    (step : statusMachine.step t label = some t') : StatusInv s q t' := by
  have running : t.state.pc ≠ .idle := by
    intro idle
    simp [statusMachine, idle] at step
  obtain ⟨s', taken, same⟩ := statusMachine_step running step
  by_cases arrival : ∃ index result, label = .complete index result
  · obtain ⟨index, result, rfl⟩ := arrival
    have arrived := arrives (show t.state.arrive index result = some s' by
      simpa [batchMachine] using taken)
    rw [arrived.pc, beginsScan_self] at same
    subst same
    exact inv.arrive running arrived
  · have other : ∀ index result, label ≠ .complete index result :=
      fun index result same => arrival ⟨index, result, same⟩
    cases pc : t.state.pc with
    | count call i ready =>
        cases label with
        | go =>
            simp only [batchMachine, pc, Option.some.injEq] at taken
            subst taken
            exact inv.countOne pc same
        | complete index result => exact absurd rfl (other index result)
        | _ => simp [batchMachine, pc] at taken
    | clock call =>
        cases label with
        | clock now =>
            simp only [batchMachine, pc, Option.some.injEq] at taken
            subst taken
            exact inv.waitOne pc same
        | complete index result => exact absurd rfl (other index result)
        | _ => simp [batchMachine, pc] at taken
    | collect call i out =>
        cases label with
        | go =>
            simp only [batchMachine, pc] at taken
            rw [pc] at same
            subst same
            exact inv.collectOne enough pc taken
        | complete index result => exact absurd rfl (other index result)
        | _ => simp [batchMachine, pc] at taken
    | idle => exact absurd pc running
    | _ => simp [StatusInv, pc] at inv

/-! ## Whole calls -/

theorem statusCall_eq (accepted : q.minNr ≤ q.nr ∧ q.minNr ≤ s.batch.inflight) :
    s.enter q = ⟨s.goTo (.count q.call 0 0), [], none⟩ := by
  have checks : ¬ (q.nr < q.minNr ∨ s.batch.inflight < q.minNr) := by omega
  simp only [BatchState.enter, BatchState.statusCall, if_neg checks]
  rfl

/-- What holds at the return of a call. -/
theorem statusInv_of_run {labels : List BatchLabel}
    (accepted : q.minNr ≤ q.nr ∧ q.minNr ≤ s.batch.inflight)
    (ran : statusMachine.run labels (s.enter q) = some t) : StatusInv s q t := by
  have start : StatusInv s q (s.enter q) := by
    rw [statusCall_eq accepted]
    exact ⟨rfl, rfl, ⟨rfl, fun _ ready => ready⟩, Nat.zero_le _, Nat.zero_le _, Nat.zero_le _⟩
  exact Machine.run_invariant_of_step (fun t label t' inv step => inv.step accepted.1 step) start ran

/-- Every reading of a run is a time. -/
theorem readings_valid {labels : List BatchLabel} (meets : statusMachine.Meets (Ticks q) labels (s.enter q))
    (ran : statusMachine.run labels (s.enter q) = some t) : ∀ now ∈ t.readings, now.Valid := by
  have keeps : ∀ (t : StatusRun) label t', (∀ now ∈ t.readings, now.Valid) → Ticks q t label →
      statusMachine.step t label = some t' → ∀ now ∈ t'.readings, now.Valid := by
    intro t label t' valid ticks step
    have running : t.state.pc ≠ .idle := by
      intro idle
      simp [statusMachine, idle] at step
    obtain ⟨s', -, rfl⟩ := statusMachine_step running step
    cases label with
    | clock now =>
        intro r mem
        rcases List.mem_append.mp mem with before | last
        · exact valid r before
        · rw [List.mem_singleton.mp last]
          exact (ticks now rfl).1
    | _ => exact valid
  exact Machine.run_invariant keeps (fun now mem => absurd mem List.not_mem_nil) meets ran

/-- The condition: no deadline, one that fits, or enough completions at the call. -/
def CallFits (s : BatchState) (q : StatusArgs) : Prop :=
  (∀ timeout, q.timeout = some timeout → q.now.DeadlineFits timeout) ∨
    q.minNr ≤ s.batch.readyFrom 0

theorem waitsRight_of_fits (accepted : q.minNr ≤ q.nr ∧ q.minNr ≤ s.batch.inflight)
    (valid : q.now.Valid) (bounded : ∀ timeout, q.timeout = some timeout → timeout.Valid)
    (fits : CallFits s q) : WaitsRight s q := by
  intro labels t meets ran idle
  have inv := statusInv_of_run accepted ran
  unfold StatusInv at inv
  simp only [idle] at inv
  obtain ⟨events, history, success, atMost, expires, complete⟩ := inv
  refine ⟨events, history, success, atMost, fun unlimited => ?_, fun timeout given fewer => ?_, complete⟩
  · by_contra fewer
    obtain ⟨-, timeout, -, given, -⟩ := expires (Nat.lt_of_not_le fewer)
    cases unlimited.symm.trans given
  · obtain ⟨few, timeout', now, given', last, reached⟩ := expires fewer
    cases given.symm.trans given'
    have exact' : q.now.DeadlineFits timeout := by
      rcases fits with fits | enough
      · exact fits timeout given
      · omega
    have read := readings_valid meets ran now (List.mem_of_getLast? last)
    exact ⟨now, last, (reached_iff valid (bounded timeout given) read exact').mp reached⟩

/-! ## A call in which nothing completes -/

/-- What holds in a call that reads the clock once, at the time of the call, while nothing
completes. -/
def QuietInv (s : BatchState) (q : StatusArgs) (t : StatusRun) : Prop :=
  match t.state.pc with
  | .count call i ready =>
    call = q.call ∧ t.state.batch = s.batch ∧ t.state.history.events = s.history.events ∧
      t.readings = [] ∧ i ≤ s.batch.used ∧ ready ≤ s.batch.readyBelow i
  | .clock call =>
    call = q.call ∧ t.state.batch = s.batch ∧ t.state.history.events = s.history.events ∧
      t.readings = []
  | .collect call i out =>
    call = q.call ∧ t.readings = [q.now] ∧ t.state.batch.used = s.batch.used ∧
      out + t.state.batch.readyFrom i ≤ s.batch.readyFrom 0 ∧
      ∃ events, t.state.history.events = s.history.events ++ events ∧ events.length = out
  | .idle => t.readings = [q.now] ∧
      ∃ events, t.state.history.events = s.history.events ++ events ∧
        events.length ≤ s.batch.readyFrom 0
  | _ => False

/-- How far the call is from its return. -/
def quietRank (s : BatchState) (t : StatusRun) : Nat :=
  match t.state.pc with
  | .count _ i _ => (s.batch.used - i) + s.batch.used + 3
  | .clock _ => s.batch.used + 2
  | .collect _ i _ => (s.batch.used - i) + 1
  | _ => 0

/-- An entry that is ready has an event. -/
theorem event_of_ready (ready : b.ready i = true) : ∃ event, (b.entries i).event = some event := by
  unfold AsyncBatch.ready BatchEntry.isDone at ready
  unfold BatchEntry.event AsyncFuture.await
  split_ifs
  · exact ⟨_, rfl⟩
  · exact ⟨_, rfl⟩
  · exact ⟨_, rfl⟩
  · simp_all

theorem statusMachine_go (running : t.state.pc ≠ .idle) (taken : batchMachine.step t.state label = some s') :
    statusMachine.step t label = some ⟨s', readAfter t.readings label,
      if beginsScan t.state.pc s'.pc then some s'.batch else t.scanned⟩ := by
  simp only [statusMachine, if_neg running, taken]
  rfl

/-- The delivery scan of a quiet call goes on. -/
theorem quiet_collect {call : StatusCall} {out : Nat} (inv : QuietInv s q t)
    (pc : t.state.pc = .collect call i out) :
    ∃ s', t.state.collectOne call i out = some s' ∧ QuietInv s q ⟨s', t.readings, t.scanned⟩ ∧
      quietRank s ⟨s', t.readings, t.scanned⟩ < quietRank s t := by
  unfold QuietInv at inv
  simp only [pc] at inv
  obtain ⟨rfl, readings, used, few, events, history, length⟩ := inv
  unfold BatchState.collectOne
  by_cases more : i < t.state.batch.used ∧ out < q.call.nr
  · have left := readyFrom_eq more.1
    rw [if_pos more]
    dsimp only
    rw [skips_eq]
    cases ready : t.state.batch.ready i with
    | false =>
        rw [ready, if_neg Bool.false_ne_true] at left
        refine ⟨_, if_pos rfl, ⟨rfl, readings, used, ?_, events, history, length⟩, ?_⟩
        · change out + t.state.batch.readyFrom (i + 1) ≤ _
          omega
        · simp only [quietRank, BatchState.goTo, pc]
          omega
    | true =>
        rw [if_pos ready] at left
        obtain ⟨event, made⟩ := event_of_ready ready
        refine ⟨t.state.deliver q.call i out event, ?_, ⟨rfl, readings, used, ?_,
          events ++ [⟨(t.state.batch.entries i).id, event⟩], ?_, ?_⟩, ?_⟩
        · rw [if_neg (by simp), made]
          rfl
        · change out + 1 + (t.state.deliver q.call i out event).batch.readyFrom (i + 1) ≤ _
          rw [readyFrom_deliver]
          omega
        · rw [← List.append_assoc, ← history]
          rfl
        · simp [length]
        · simp only [quietRank, BatchState.deliver, pc]
          omega
  · rw [if_neg more]
    refine ⟨_, rfl, ⟨readings, events, history, by omega⟩, ?_⟩
    simp only [quietRank, BatchState.leave, pc]
    omega

/-- A quiet call goes on, past a deadline that has always come. -/
theorem quiet_goesOn (few : s.batch.readyFrom 0 < q.minNr) (valid : q.now.Valid) {timeout : Timespec}
    (given : q.timeout = some timeout) (reached : (q.now.deadline timeout).reached q.now = true)
    (inv : QuietInv s q t) (busy : quietRank s t ≠ 0) :
    ∃ label t', Ticks q t label ∧ statusMachine.step t label = some t' ∧ QuietInv s q t' ∧
      quietRank s t' < quietRank s t := by
  have still : Ticks q t .go := nofun
  cases pc : t.state.pc with
  | count call i ready =>
      have running : t.state.pc ≠ .idle := by simp [pc]
      have taken : batchMachine.step t.state .go = some (t.state.countOne call i ready) := by
        simp [batchMachine, pc]
      refine ⟨.go, _, still, statusMachine_go running taken, ?_⟩
      unfold QuietInv at inv
      simp only [pc] at inv
      obtain ⟨rfl, batch, events, readings, le, counted⟩ := inv
      unfold BatchState.countOne
      split
      · rename_i lt
        rw [batch] at lt
        refine ⟨⟨rfl, batch, events, readings, lt, ?_⟩, ?_⟩
        · change (if t.state.batch.ready i = true then ready + 1 else ready) ≤
            s.batch.readyBelow (i + 1)
          rw [batch]
          unfold AsyncBatch.readyBelow at *
          rw [Nat.count_succ]
          split_ifs <;> omega
        · simp only [quietRank, BatchState.goTo, pc]
          omega
      · rename_i past
        rw [batch] at past
        have all : i = s.batch.used := by omega
        rw [readyFrom_zero, ← all] at few
        have short : ready < q.call.minNr := by
          change ready < q.minNr
          omega
        have due : q.call.deadline = some (q.now.deadline timeout) := by
          simp [StatusArgs.call, given]
        rw [if_pos short, due]
        refine ⟨⟨rfl, batch, events, readings⟩, ?_⟩
        simp only [quietRank, BatchState.goTo, pc]
        omega
  | clock call =>
      have running : t.state.pc ≠ .idle := by simp [pc]
      have taken : batchMachine.step t.state (.clock q.now) = some (t.state.waitOne call q.now) := by
        simp [batchMachine, pc]
      refine ⟨.clock q.now, _, ?_, statusMachine_go running taken, ?_⟩
      · intro now same
        cases same
        unfold QuietInv at inv
        simp only [pc] at inv
        refine ⟨valid, ?_⟩
        rw [inv.2.2.2]
        exact le_refl _
      · unfold QuietInv at inv
        simp only [pc] at inv
        obtain ⟨rfl, batch, events, readings⟩ := inv
        have due : q.call.deadline = some (q.now.deadline timeout) := by
          simp [StatusArgs.call, given]
        have goes : t.state.waitOne q.call q.now = t.state.goTo (.collect q.call 0 0) := by
          simp [BatchState.waitOne, due, reached]
        rw [goes]
        refine ⟨⟨rfl, ?_, congrArg AsyncBatch.used batch, ?_, [], ?_, rfl⟩, ?_⟩
        · simp [readAfter, readings]
        · change 0 + t.state.batch.readyFrom 0 ≤ _
          rw [batch, Nat.zero_add]
        · rw [List.append_nil]
          exact events
        · simp only [quietRank, BatchState.goTo, pc]
          omega
  | collect call i out =>
      have running : t.state.pc ≠ .idle := by simp [pc]
      obtain ⟨s', taken, kept, less⟩ := quiet_collect inv pc
      have taken : batchMachine.step t.state .go = some s' := by simpa [batchMachine, pc] using taken
      refine ⟨.go, _, still, statusMachine_go running taken, ?_⟩
      rw [pc]
      exact ⟨kept, less⟩
  | idle => simp [quietRank, pc] at busy
  | _ => simp [QuietInv, pc] at inv

/-- A call with a deadline that does not fit need not wait for what is missing. -/
theorem not_waitsRight (accepted : q.minNr ≤ q.nr ∧ q.minNr ≤ s.batch.inflight) (valid : q.now.Valid)
    (bounded : ∀ timeout, q.timeout = some timeout → timeout.Valid) (unfit : ¬ CallFits s q) :
    ¬ WaitsRight s q := by
  intro right
  obtain ⟨unfits, few⟩ := not_or.mp unfit
  obtain ⟨timeout, unfits⟩ := not_forall.mp unfits
  obtain ⟨given, wraps⟩ := Classical.not_imp.mp unfits
  have reached := reached_of_wraps valid (bounded timeout given) valid wraps
  have start : QuietInv s q (s.enter q) := by
    rw [statusCall_eq accepted]
    exact ⟨rfl, rfl, rfl, rfl, Nat.zero_le _, Nat.zero_le _⟩
  obtain ⟨labels, t, meets, ran, inv, ended⟩ := Machine.exists_run_of_rank
    (fun t inv busy => quiet_goesOn (Nat.lt_of_not_le few) valid given reached inv busy) start
  -- The run has returned, with what was there at the call.
  obtain ⟨idle, readings, events, history, length⟩ : t.state.pc = .idle ∧ t.readings = [q.now] ∧
      ∃ events, t.state.history.events = s.history.events ++ events ∧
        events.length ≤ s.batch.readyFrom 0 := by
    unfold QuietInv quietRank at *
    cases pc : t.state.pc <;> simp only [pc] at inv ended
    case idle => exact ⟨rfl, inv⟩
    all_goals omega
  obtain ⟨delivered, delivers⟩ := right labels t meets ran idle
  have same : delivered = events := List.append_cancel_left (delivers.history.symm.trans history)
  obtain ⟨now, last, late⟩ := delivers.expires timeout given (by rw [same]; omega)
  have here : now = q.now := by simpa [readings] using last.symm
  rw [here] at late
  obtain ⟨_, _, _, _⟩ := valid
  obtain ⟨_, _, _, _⟩ := bounded timeout given
  unfold Timespec.DeadlineFits at wraps
  unfold Timespec.nanoseconds at late
  omega

/-- **`opends_batch_get_status` waits as documented exactly where its deadline fits**, or
where it need not wait. -/
theorem getStatus_waits_iff (accepted : q.minNr ≤ q.nr ∧ q.minNr ≤ s.batch.inflight)
    (valid : q.now.Valid) (bounded : ∀ timeout, q.timeout = some timeout → timeout.Valid) :
    WaitsRight s q ↔ CallFits s q :=
  ⟨fun right => not_not.mp fun unfit => not_waitsRight accepted valid bounded unfit right,
    waitsRight_of_fits accepted valid bounded⟩

/-- A read that was accepted and has not completed. -/
def oneInFlight : BatchState where
  batch := ⟨fun _ => zeroEntry, 1, 1, 4⟩
  pc := .idle
  outstanding := [⟨⟨4096, 0, 0, 512, 3, .read, 0⟩, 0, 0⟩]
  returned := .success
  history := ⟨[⟨⟨4096, 0, 0, 512, 3, .read, 0⟩, true⟩], fun _ => none, fun _ => false, []⟩

/-- A call for one completion, five seconds after the clock began. -/
def waitFor (timeout : Timespec) : StatusArgs := ⟨1, 1, some timeout, ⟨5, 0⟩⟩

theorem now_valid (timeout : Timespec) : (waitFor timeout).now.Valid :=
  ⟨by simp [waitFor], by simp [waitFor], by simp [waitFor], by simp [waitFor]⟩

/-- A call that waits for a second and a half. -/
theorem getStatus_waits_second : WaitsRight oneInFlight (waitFor ⟨1, 500000000⟩) := by
  refine (getStatus_waits_iff (by decide) (now_valid _) ?_).mpr (.inl ?_)
  · rintro timeout ⟨⟩
    exact ⟨by decide, by decide, by decide, by decide⟩
  · rintro timeout ⟨⟩
    decide

/-- **A timeout of all the seconds of a `time_t` has passed at once.** -/
theorem longest_timeout_expires_at_once :
    ¬ ∀ (s : BatchState) (q : StatusArgs), q.minNr ≤ q.nr ∧ q.minNr ≤ s.batch.inflight → q.now.Valid →
        (∀ timeout, q.timeout = some timeout → timeout.Valid) → WaitsRight s q := by
  intro all
  have bounded : ∀ timeout, (waitFor ⟨2 ^ 63 - 1, 0⟩).timeout = some timeout → timeout.Valid := by
    rintro timeout ⟨⟩
    exact ⟨by decide, by decide, by decide, by decide⟩
  refine not_waitsRight (by decide) (now_valid _) bounded ?_
    (all oneInFlight (waitFor ⟨2 ^ 63 - 1, 0⟩) (by decide) (now_valid _) bounded)
  rintro (fits | enough)
  · exact absurd (fits _ rfl) (by decide)
  · exact absurd enough (by decide)

end OpenDS.Batch
