import OpenDS.DataPath.StreamReads

/-!
# Runs of stream operations

Threads submit operations to one stream, and no call of the accelerator fails. The copy of a
read is enqueued past the lock, so nothing but the timing of the threads keeps it before the gate
of the next operation. As long as it is enqueued in time, whatever earlier operations have left
behind, a read that starts at an LBA boundary reports what an asynchronous read in its place
reports, and once the stream has passed it and its copy the caller's memory is what the
asynchronous read leaves (`streamReads_agree`). One thread alone is always in time; of two, one
can lose the other's bytes (`overtaken_copy_loses_read`).
-/

set_option autoImplicit false

namespace OpenDS.DataPath

open OpenDS.Library (Machine Memory Ptr)
open OpenDS.Aisio OpenDS.Engine

variable {n : Nat} {ι : Type} {d : Driver} {s s' s₁ : IoState n ι} {w : Fin n} {j k turn : Nat}
  {f : OpFields} {t : ι}

/-! ## One thread -/

/-- The call, if the step begins one, is one of the thread. -/
def IoLabel.By (t : ι) : IoLabel n ι → Prop
  | .thread u (.call _) => u = t
  | _ => True

/-- The stream has passed an operation and its copy: nothing on it waits for the operation, and
no copy is to come before the gate write of another one. -/
structure PassedBy (s : System n ι) (j turn : Nat) : Prop where
  waits : ∀ c ∈ (s.streams j).commands, s.awaited c ≠ some turn
  copied : ¬ NextIsCopy (s.CopyOwed j) (s.streams j).commands

section Labels

variable [DecidableEq ι] [NeZero n] {l : IoLabel n ι}

/-- The other threads stay idle. -/
theorem oneThread_of_ioStep (one : OneThread s.sys t) (inv : IoInv s) (called : l.By t)
    (step : (io d).step s l = some s') : OneThread s'.sys t := by
  cases l with
  | thread u act =>
      obtain ⟨sys, engine, rfl⟩ := Option.map_eq_some_iff.mp step
      have called : CalledBy t (.thread u act : Label n ι) := by
        cases act with
        | call c => exact called
        | _ => trivial
      exact one.step called engine
  | worker v c =>
      rcases (IoState.workerStep_effect step).refines (inv.workers v) with same | ⟨c', engine⟩
      · rw [same]
        exact one
      · exact @OneThread.step n ι _ _ t _ _ false (.worker v c') one trivial engine
  | gpu i =>
      obtain ⟨sys, engine, rfl⟩ := Option.map_eq_some_iff.mp step
      exact @OneThread.step n ι _ _ t _ _ false (.gpu i) one trivial engine
  | stop =>
      cases step
      exact one

/-- **One thread enqueues its gates behind its copies.** -/
theorem copiesFirst_of_oneThread {labels : List (IoLabel n ι)} (called : ∀ l ∈ labels, l.By t)
    (one : OneThread s.sys t) (inv : IoInv s) : (io d).Meets (CopiesFirst j) labels s := by
  induction labels generalizing s with
  | nil => trivial
  | cons l labels ih =>
      refine ⟨?_, fun s' step => ?_⟩
      · cases l with
        | thread u act => exact one.gatesBehindCopies
        | _ => trivial
      · exact ih (fun l member => called l (List.mem_cons_of_mem _ member))
          (oneThread_of_ioStep one inv (called l (List.mem_cons_self ..)) step) (inv.step step)

/-! ## Runs -/

/-- The states of a run in which a worker is about to plan the read. -/
def BegunIn (d : Driver) (start : IoState n ι) (labels : List (IoLabel n ι)) (w : Fin n) (k : Nat)
    (s₀ : IoState n ι) : Prop :=
  ∃ before, before <+: labels ∧ (io d).run before start = some s₀ ∧ Fresh s₀ w k

/-- What holds in a run of operations that are submitted to a stream. -/
structure Submitted (d : Driver) (start : IoState n ι) (labels : List (IoLabel n ι)) (s : IoState n ι)
    (j : Nat) : Prop where
  only : StreamOnly d s j
  reads : ∀ w k, ReadsAt d (BegunIn d start labels w k) s j w k

theorem Submitted.step {start : IoState n ι} {labels : List (IoLabel n ι)} (geo : d.Geometry)
    (staging : d.assumeAlignedOnly = false) (few : n ≤ maxIoThreads) (on : l.OnStream d j)
    (first : CopiesFirst j s l) (submitted : Submitted d start labels s j)
    (ran : (io d).run labels start = some s) (step : (io d).step s l = some s') :
    Submitted d start (labels ++ [l]) s' j := by
  obtain ⟨only, reads⟩ := submitted
  refine ⟨only.step geo.lbaSize staging few on first step, fun w k turn f stage has read lived => ?_⟩
  have begins : Fresh s w k → BegunIn d start labels w k s :=
    fun fresh => ⟨labels, List.prefix_rfl, ran, fresh⟩
  refine ((reads w k).step geo staging only begins on first step turn f stage has read lived).mono ?_
  rintro s₀ ⟨before, earlier, reached, fresh⟩
  exact ⟨before, earlier.trans (List.prefix_append _ _), reached, fresh⟩

variable {futures : Nat → Future} {bytesRead : Nat → Int} {mem : Memory Space UInt8}
  {disk : Nat → Nat → UInt8}

theorem Submitted.run (geo : d.Geometry) (staging : d.assumeAlignedOnly = false)
    (few : n ≤ maxIoThreads) {labels : List (IoLabel n ι)} (on : ∀ l ∈ labels, l.OnStream d j)
    (first : (io d).Meets (CopiesFirst j) labels (ioSetup n ι futures bytesRead mem disk))
    (ran : (io d).run labels (ioSetup n ι futures bytesRead mem disk) = some s) :
    Submitted d (ioSetup n ι futures bytesRead mem disk) labels s j := by
  induction labels using List.reverseRecOn generalizing s with
  | nil =>
      cases ran
      refine ⟨.start futures bytesRead mem disk, ?_⟩
      intro w k turn f stage has
      cases has.published
  | append_singleton labels l ih =>
      obtain ⟨s₁, ran, step⟩ := Machine.exists_of_run_snoc ran
      obtain ⟨earlier, last⟩ := (Machine.meets_append_iff ran).mp first
      have before := ih (fun l member => on l (List.mem_append_left _ member)) earlier ran
      exact before.step geo staging few (on l (List.mem_append_right _ (List.mem_singleton.mpr rfl)))
        last.1 ran step

/-- The read of a memory is there: it is what a read alone has left, and the stream has no more to
copy for it. -/
structure Delivered (s : IoState n ι) (j : Nat) (alone : ReadState) : Prop where
  staged : Staged s (s.descs j) alone
  user : ∀ a, s.mem .user a = alone.mem .user a

/-- What stays of a read that the stream has passed, its bytes until a later operation is
dispatched. -/
structure Rests (s₁ s : IoState n ι) (j turn : Nat) (w : Fin n) (k : Nat) (f : OpFields) (m : Int) :
    Prop where
  has : s.sys.HasTurn j turn w k f
  stored : .stored f.target m ∈ (s.sys.workers w).history k
  completed : .completed f.target m ∈ (s.sys.workers w).history k
  answers : s.answers w k = s₁.answers w k
  last : NoneLater s.sys j turn → NoneLater s₁.sys j turn
  bytes : ∀ alone, Delivered s₁ j alone → NoneLater s.sys j turn → Delivered s j alone

theorem Rests.step {m : Int} (rests : Rests s₁ s j turn w k f m) (only : StreamOnly d s j)
    (on : l.OnStream d j) (step : (io d).step s l = some s') : Rests s₁ s' j turn w k f m := by
  have inv := only.served.inv
  obtain ⟨has, stored, completed, answers, last, bytes⟩ := rests
  obtain ⟨stage, lived⟩ := inv.engine.lived has.published
  obtain rfl := OpFields.life_completed lived completed
  have history := history_of_ioStep inv step
  obtain ⟨-, answers', -⟩ := over_of_completed only.served has lived step
  have before : NoneLater s'.sys j turn → NoneLater s.sys j turn :=
    fun none' => none'.before (inv.affects only.served.logs step).1 history
  refine ⟨hasTurn_of_ioStep inv only.served.logs step has, (history w k).subset stored,
    (history w k).subset completed, answers'.trans answers, fun none' => last (before none'),
    fun alone delivered none' => ?_⟩
  have none := before none'
  obtain ⟨staged, same⟩ := bytes alone delivered none
  obtain ⟨staged', mem⟩ := staged.rest only has lived none on step
  refine ⟨staged', ?_⟩
  rcases mem with mem | same'
  · rw [mem]
    exact same
  · exact same'

theorem Rests.run {m : Int} (rests : Rests s₁ s j turn w k f m) (geo : d.Geometry)
    (staging : d.assumeAlignedOnly = false) (few : n ≤ maxIoThreads) {more : List (IoLabel n ι)}
    (on : ∀ l ∈ more, l.OnStream d j) (first : (io d).Meets (CopiesFirst j) more s)
    (only : StreamOnly d s j) (goesOn : (io d).run more s = some s') :
    Rests s₁ s' j turn w k f m := by
  induction more generalizing s with
  | nil =>
      cases goesOn
      exact rests
  | cons l more ih =>
      obtain ⟨s₂, step, rest⟩ := Option.bind_eq_some_iff.mp goesOn
      obtain ⟨here, later⟩ := (Machine.meets_cons_iff step).mp first
      have mine := on l (List.mem_cons_self ..)
      exact ih (rests.step only mine step) (fun l member => on l (List.mem_cons_of_mem _ member)) later
        (only.step geo.lbaSize staging few mine here step) rest

/-- **Stream reads agree with asynchronous ones**, whoever submits them, as long as no gate is
enqueued while the copy of an earlier read is still to be enqueued. -/
theorem streamReads_agree (geo : d.Geometry) (staging : d.assumeAlignedOnly = false)
    (few : n ≤ maxIoThreads) {labels more : List (IoLabel n ι)}
    (on : ∀ l ∈ labels ++ more, l.OnStream d j)
    (first : (io d).Meets (CopiesFirst j) (labels ++ more) (ioSetup n ι futures bytesRead mem disk))
    (ran : (io d).run labels (ioSetup n ι futures bytesRead mem disk) = some s₁)
    (has : s₁.sys.HasTurn j turn w k f) (read : f.isWrite = false) (passed : PassedBy s₁.sys j turn)
    (goesOn : (io d).run more s₁ = some s) (none : NoneLater s.sys j turn) :
    ∃ m cells, .stored f.target m ∈ (s.sys.workers w).history k ∧
      .completed f.target m ∈ (s.sys.workers w).history k ∧ asked (s.answers w k) = some cells ∧
      (StartsAligned d cells → ∃ before s₀ alone, before <+: labels ∧
        (io d).run before (ioSetup n ι futures bytesRead mem disk) = some s₀ ∧ Fresh s₀ w k ∧
        runAsync d s₀ f cells (s.answers w k) = some ⟨alone, Option.none⟩ ∧ alone.op.state = .free ∧
        alone.op.result = some m ∧ ∀ a, s.mem .user a = alone.mem .user a) := by
  obtain ⟨earlier, later⟩ := (Machine.meets_append_iff ran).mp first
  obtain ⟨only, reads⟩ := Submitted.run geo staging few
    (fun l member => on l (List.mem_append_left _ member)) earlier ran
  obtain ⟨m, stored, completed⟩ := (only.stream.gates.gateSafe j).passed w k f turn has passed.waits
  obtain ⟨stage, lived⟩ := only.served.inv.engine.lived has.published
  obtain rfl := OpFields.life_completed lived completed
  obtain ⟨cells, found, comes⟩ := reads w k turn f _ has read lived
  have rests : Rests s₁ s₁ j turn w k f m :=
    ⟨has, stored, completed, rfl, id, fun _ delivered _ => delivered⟩
  obtain ⟨-, stored, completed, answers, last, bytes⟩ := rests.run geo staging few
    (fun l member => on l (List.mem_append_right _ member)) later only goesOn
  refine ⟨m, cells, stored, completed, by rw [answers]; exact found, fun aligned => ?_⟩
  obtain ⟨s₀, alone, ⟨⟨before, earlier, reached, fresh⟩, run, state, result⟩, there⟩ := comes aligned
  refine ⟨before, s₀, alone, earlier, reached, fresh, by rw [answers]; exact run, state, result, ?_⟩
  obtain ⟨staged, copied⟩ := there (last none)
  exact (bytes alone ⟨staged, copied.resolve_right passed.copied⟩ none).user

end Labels

/-! ## A read past a failed one -/

/-- A read of the stream into the caller's memory. -/
def streamCall (bufBase : Int) : Call := ⟨false, 0, bufBase, .stream ⟨0, 0, 0, 0, 0⟩⟩

/-- The steps of a thread that submits a read to a stream, up to its copy. -/
def submitsStream {ι : Type} (t : ι) (c : Call) : List (IoLabel 1 ι) :=
  .thread t (.call c) :: List.replicate 3 (.thread t .go) ++
    List.replicate 2 (.thread t (.accel true)) ++ List.replicate 3 (.thread t .go)

/-- The worker serves a read of less than an LBA, whose command succeeds or not, with more steps
where it also comes to a read behind it, and the stream passes the read. -/
def servesStream {ι : Type} (cells : Request) (ok : Bool) (behind : Nat) : List (IoLabel 1 ι) :=
  .gpu 0 :: List.replicate 4 (.worker 0 .go) ++
    [.worker 0 (.resolved cells oneExtent), .worker 0 (.enter true), .worker 0 (.attempt true)] ++
    List.replicate (4 + behind) (.worker 0 .go) ++ [.worker 0 (.poked 0 ok)] ++
    List.replicate 3 (.worker 0 .go) ++ [.worker 0 (.copies fun _ => true)] ++
    List.replicate 3 (.worker 0 .go) ++ [.gpu 0]

/-- A read that fails, and one behind it. -/
def readsPastFailure : List (IoLabel 1 Unit) :=
  submitsStream () (streamCall 0) ++ [.thread () (.accel true)] ++ servesStream ⟨100, 0, 0⟩ false 0 ++
    [.gpu 0] ++ List.replicate 4 (.worker 0 .go) ++ submitsStream () (streamCall 4096) ++
    [.thread () (.accel true)] ++ servesStream ⟨100, 512, 0⟩ true 0 ++ [.gpu 0]

theorem IoLabel.by_unit (l : IoLabel n Unit) : l.By () := by
  unfold IoLabel.By
  split
  · rfl
  · trivial

theorem oneExtent_layout : Layout sectorDriver [⟨0, 8, 4096⟩] := ⟨by decide, by simp⟩

theorem onStream_readsPastFailure : ∀ l ∈ readsPastFailure ++ [], l.OnStream sectorDriver 0 := by
  simp [readsPastFailure, submitsStream, servesStream, streamCall, IoLabel.OnStream, Call.OnStream,
    oneExtent]
  exact oneExtent_layout

/-- What is left in the slot and the descriptor of a failed read is nothing to the next one. -/
theorem streamReads_agree_pastFailure :
    ∃ s, (io sectorDriver).run readsPastFailure quietStart = some s ∧
      ∃ alone : ReadState, alone.op.result = some 100 ∧ ∀ a, s.mem .user a = alone.mem .user a := by
  have facts : ((io sectorDriver).run readsPastFailure quietStart).map (fun s =>
      ((s.sys.workers 0).published, (s.sys.workers 0).history 1, (s.sys.streams 0).commands,
        s.sys.threads (), asked (s.answers 0 1))) =
      some ([⟨false, 0, 0, .stream ⟨0, 0, 0, 0, 0⟩ 1⟩, ⟨false, 0, 4096, .stream ⟨0, 0, 0, 0, 0⟩ 2⟩],
        [.dispatched, .issued .bounce 100, .arrived .bounce 100 true, .copied true,
          .stored (.gate 0 0 2) 100, .completed (.gate 0 0 2) 100], [], .idle, some ⟨100, 512, 0⟩) := by
    decide +kernel
  obtain ⟨s, ran, facts⟩ := Option.map_eq_some_iff.mp facts
  obtain ⟨published, history, commands, idle, found⟩ :
      (s.sys.workers 0).published = _ ∧ (s.sys.workers 0).history 1 = _ ∧ (s.sys.streams 0).commands = _ ∧
        s.sys.threads () = _ ∧ asked (s.answers 0 1) = _ := by
    simpa only [Prod.mk.injEq] using facts
  have has : s.sys.HasTurn 0 2 0 1 ⟨false, 0, 4096, .stream ⟨0, 0, 0, 0, 0⟩ 2⟩ :=
    ⟨by rw [published]; rfl, rfl⟩
  have passed : PassedBy s.sys 0 2 := by
    refine ⟨by simp [commands], ?_⟩
    rw [commands]
    rintro ⟨t, owes⟩
    rw [idle] at owes
    rcases owes with no | no <;> cases no
  have none : NoneLater s.sys 0 2 := by
    intro turn v i g has' dispatched
    obtain rfl := Subsingleton.elim v 0
    obtain ⟨at', ticket⟩ := has'
    rw [published] at at'
    match i, at' with
    | 0, at' =>
        cases at'
        cases ticket
        decide
    | 1, at' =>
        cases at'
        cases ticket
        decide
  have inv : IoInv quietStart := .start (fun _ => ⟨false, 0⟩) (fun _ => 0) (fun _ _ => 0) sectorDisk
  have one : OneThread quietStart.sys () := fun u other => absurd (Subsingleton.elim u ()) other
  have first : (io sectorDriver).Meets (CopiesFirst 0) (readsPastFailure ++ []) quietStart :=
    copiesFirst_of_oneThread (fun l _ => l.by_unit) one inv
  have few : 1 ≤ maxIoThreads := by decide
  obtain ⟨m, cells, stored, -, found', agrees⟩ := streamReads_agree sectorDriver_geometry rfl few
    onStream_readsPastFailure first ran has rfl passed rfl none
  cases found.symm.trans found'
  obtain ⟨before, s₀, alone, -, -, -, -, -, result, same⟩ := agrees ⟨1, rfl⟩
  rw [history] at stored
  obtain rfl : m = 100 := by simpa [OpFields.target] using stored
  exact ⟨s, ran, alone, result, same⟩

/-! ## A copy that comes too late -/

/-- Two threads submit a read each, and enqueue the copies when both gates are on the stream. -/
def crossedReads : List (IoLabel 1 Bool) :=
  submitsStream false (streamCall 0) ++ submitsStream true (streamCall 4096) ++
    [.thread false (.accel true), .thread true (.accel true)] ++ servesStream ⟨100, 0, 0⟩ true 2 ++
    List.replicate 7 (.worker 0 .go) ++ servesStream ⟨100, 512, 0⟩ true 0 ++ [.gpu 0, .gpu 0]

/-- The state before the first call of two threads. -/
def crossedStart : IoState 1 Bool :=
  ioSetup 1 Bool (fun _ => ⟨false, 0⟩) (fun _ => 0) (fun _ _ => 0) sectorDisk

/-- **A copy that is overtaken by the gate of the next read loses its bytes**: nothing fails, the
first read reports its 100 bytes and the stream runs everything that is enqueued to it, both
copies with the descriptor of the second read. -/
theorem overtaken_copy_loses_read :
    ∃ s, (io sectorDriver).run crossedReads crossedStart = some s ∧
      (∀ l ∈ crossedReads, l.OnStream sectorDriver 0) ∧ (s.sys.streams 0).commands = [] ∧
      (s.sys.workers 0).published[0]? = some ⟨false, 0, 0, .stream ⟨0, 0, 0, 0, 0⟩ 1⟩ ∧
      .completed (.gate 0 0 1) 100 ∈ (s.sys.workers 0).history 0 ∧
      asked (s.answers 0 0) = some ⟨100, 0, 0⟩ ∧ s.mem .user 0 ≠ sectorDisk 8 0 := by
  have facts : ((io sectorDriver).run crossedReads crossedStart).map (fun s =>
      ((s.sys.streams 0).commands, (s.sys.workers 0).published[0]?,
        decide (.completed (.gate 0 0 1) 100 ∈ (s.sys.workers 0).history 0), asked (s.answers 0 0),
        s.mem .user 0)) =
      some ([], some ⟨false, 0, 0, .stream ⟨0, 0, 0, 0, 0⟩ 1⟩, true, some ⟨100, 0, 0⟩, 0) := by
    decide +kernel
  obtain ⟨s, ran, facts⟩ := Option.map_eq_some_iff.mp facts
  simp only [Prod.mk.injEq, decide_eq_true_eq] at facts
  obtain ⟨commands, published, completed, found, byte⟩ := facts
  refine ⟨s, ran, ?_, commands, published, completed, found, by rw [byte]; decide⟩
  simp [crossedReads, submitsStream, servesStream, streamCall, IoLabel.OnStream, Call.OnStream,
    oneExtent]
  exact oneExtent_layout

end OpenDS.DataPath
