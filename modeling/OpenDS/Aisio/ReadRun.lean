import OpenDS.Aisio.ReadCover

/-!
# Whole runs of an asynchronous read

A read that is dispatched submits its commands, and from then on every poll
either completes some of them or finds both counters at zero and completes the
operation. The phases of such a run are the same whatever the order of the
completions (`ioThread_phase`), so the result and the destination of a finished
read depend on the extents and the request alone (`finished_read`).
-/

set_option autoImplicit false

namespace OpenDS.Aisio

open OpenDS.Library ReadState

variable {d : Driver} {dev : Device} {extents : List Extent}

/-- A read as its submitter leaves it: pending, with no command taken for it and
no result. -/
structure Submitted (st : ReadState) : Prop where
  pending : st.op.state = .pending
  result : st.op.result = none
  issued : st.issued = []
  inflight : st.inflight = []

/-- An asynchronous read of `size` bytes at `fileOffset` into a buffer at the
address zero, as `submit_async_op` publishes it. -/
def submittedRead (fileOffset : Int) (size : Nat) : ReadState where
  op :=
    { mode := .async, state := .pending, bufBase := 0, size := size, fileOffset := fileOffset
      bufOffset := 0, chunksRemaining := 0, bouncesOutstanding := 0, bytesAcc := 0, err := none
      bounces := [], bounceBuf := none, result := none }
  issued := []
  inflight := []
  mem _ _ := 0
  desc := ⟨⟨.user, 0⟩, ⟨.user, 0⟩, 0⟩

theorem submittedRead_submitted (fileOffset : Int) (size : Nat) :
    Submitted (submittedRead fileOffset size) :=
  ⟨rfl, rfl, rfl, rfl⟩

/-- A device with LBAs of 512 bytes and an MDTS of 4 KiB. -/
def sectorDriver : Driver := ⟨512, 9, 4096, false⟩

theorem sectorDriver_geometry : sectorDriver.Geometry := ⟨by decide, by decide⟩

/-- The bytes of a device whose LBAs differ. -/
def sectorDisk (lba offset : Nat) : UInt8 := UInt8.ofNat (lba + offset)

/-- The operation as `dispatch_pending` resets it. -/
def dispatched (st : ReadState) : ReadState :=
  { st with op := { st.op with
    chunksRemaining := 0, bouncesOutstanding := 0, bytesAcc := 0, err := none, bounces := []
    state := .inFlight } }

theorem dispatchPending_eq (st : ReadState) :
    dispatchPending d dev st = (startReadOp d dev (dispatched st)).finalState := rfl

/-- A dispatched read owns nothing yet. -/
theorem dispatched_inv (d : Driver) (dev : Device) {st : ReadState} (fresh : Submitted st)
    (target : Int → UInt8) :
    ReadInv d dev st.mem target (dispatched st) := by
  have issued : (dispatched st).issued = [] := fresh.issued
  have inflight : (dispatched st).inflight = [] := fresh.inflight
  refine ⟨⟨?_, ?_, ?_, ?_, ?_⟩, ⟨?_, ?_, ?_, ?_⟩, ?_, ?_⟩
  · rw [inflight]
    exact List.nodup_nil
  · rw [inflight]
    simp
  · rw [inflight]
    rfl
  · rw [inflight]
    rfl
  · rw [inflight, issued]
    rfl
  · rw [issued]
    simp
  · rw [issued]
    simp
  · rw [issued]
    exact List.Pairwise.nil
  · simp [dispatched]
  · refine (Stamped.none .user st.mem target).congr fun a => ?_
    simp only [iff_false]
    rintro ⟨id, c, ⟨found, -⟩, -⟩
    simp [issued] at found
  · rintro id c ⟨found, -⟩
    simp [issued] at found

/-! ## Phases -/

/-- The device has taken all commands of the dispatched read `st₁` and works on
them. -/
structure Working (d : Driver) (dev : Device) (original : Memory Space UInt8)
    (target : Int → UInt8) (st₁ st : ReadState) : Prop where
  log : SameLog st₁ st
  err : st.op.err = st₁.op.err
  inv : ReadInv d dev original target st

/-- A phase of a dispatched read: it works, or it was completed when nothing was
outstanding. -/
def Phase (d : Driver) (dev : Device) (original : Memory Space UInt8) (target : Int → UInt8)
    (st₁ st : ReadState) : Prop :=
  Working d dev original target st₁ st ∨
    ∃ last, Working d dev original target st₁ last ∧ last.inflight = [] ∧
      st = completeReadOp dev last

variable {original : Memory Space UInt8} {target : Int → UInt8} {st₁ : ReadState}

theorem Working.poke (good : dev.Good) {st : ReadState}
    (working : Working d dev original target st₁ st) (poked : List Nat) :
    Working d dev original target st₁ (poke d dev poked st) where
  log := working.log.trans (poke_frame d dev poked st)
  err := (poke_err good poked st).trans working.err
  inv := working.inv.poke poked

theorem completeReadOp_inflight (dev : Device) (st : ReadState) :
    (completeReadOp dev st).inflight = st.inflight := by
  unfold completeReadOp
  cases st.op.mode with
  | stream buf => rfl
  | async =>
      simp only
      split <;> rfl

theorem completeReadOp_state (dev : Device) (st : ReadState) :
    (completeReadOp dev st).op.state = .free ∧ (completeReadOp dev st).op.result.isSome := by
  unfold completeReadOp
  cases st.op.mode with
  | stream buf => exact ⟨rfl, rfl⟩
  | async =>
      simp only
      split <;> exact ⟨rfl, rfl⟩

theorem completeReadOp_issued (dev : Device) (st : ReadState) :
    (completeReadOp dev st).issued = st.issued := by
  unfold completeReadOp
  cases st.op.mode with
  | stream buf => rfl
  | async =>
      simp only
      split <;> rfl

/-- A poke finds nothing to complete. -/
theorem poke_nil {st : ReadState} (none : st.inflight = []) (poked : List Nat) :
    poke d dev poked st = st := by
  induction poked with
  | nil => rfl
  | cons id rest ih =>
      have same : complete d dev st id = st := by
        unfold complete
        rw [none]
        rfl
      change poke d dev rest (complete d dev st id) = st
      rw [same]
      exact ih

/-- **One pass of the I/O thread keeps the phase.** -/
theorem ioPass_phase (good : dev.Good) (inFlight : st₁.op.state = .inFlight) {st : ReadState}
    (phase : Phase d dev original target st₁ st) (poked : List Nat) :
    ∃ st', ioPass d dev st poked = some st' ∧ Phase d dev original target st₁ st' := by
  rcases phase with working | ⟨last, working, none, rfl⟩
  · have state : st.op.state = .inFlight := working.log.state.trans inFlight
    simp only [ioPass, state, Option.map_some, reapInFlight]
    split
    · rename_i idle
      have none := working.inv.acc.inflight_nil idle.1 idle.2
      refine ⟨_, rfl, .inr ⟨st, working, none, ?_⟩⟩
      exact poke_nil ((completeReadOp_inflight dev st).trans none) poked
    · exact ⟨_, rfl, .inl (working.poke good poked)⟩
  · simp only [ioPass, (completeReadOp_state dev last).1, Option.map_some]
    exact ⟨_, rfl, .inr ⟨last, working, none,
      poke_nil ((completeReadOp_inflight dev last).trans none) poked⟩⟩

theorem ioThread_append (first second : List (List Nat)) (st : ReadState) :
    ioThread d dev (first ++ second) st = (ioThread d dev first st).bind (ioThread d dev second) := by
  induction first generalizing st with
  | nil => rfl
  | cons poked rest ih =>
      simp only [List.cons_append, ioThread]
      cases ioPass d dev st poked with
      | none => rfl
      | some st' => exact ih st'

/-- **Every run of the I/O thread keeps the phase.** -/
theorem ioThread_phase (good : dev.Good) (inFlight : st₁.op.state = .inFlight)
    (polls : List (List Nat)) {st : ReadState} (phase : Phase d dev original target st₁ st) :
    ∃ st', ioThread d dev polls st = some st' ∧ Phase d dev original target st₁ st' := by
  induction polls generalizing st with
  | nil => exact ⟨st, rfl, phase⟩
  | cons poked rest ih =>
      obtain ⟨st', passed, next⟩ := ioPass_phase good inFlight phase poked
      obtain ⟨st'', ran, final⟩ := ih next
      exact ⟨st'', by simp only [ioThread, passed, Option.bind_some, ran], final⟩

/-! ## Every read completes -/

theorem complete_inflight {st : ReadState} (acc : Accounted d dev st) (id : Nat) :
    (complete d dev st id).inflight = st.inflight.erase id := by
  rcases complete_cases d dev st id with same | ⟨c, -, -, changed⟩
  · rw [same]
    by_cases outstanding : id ∈ st.inflight
    · -- An outstanding command is in the log, so its completion takes effect.
      have found := List.getElem?_eq_getElem (acc.logged id outstanding)
      have effect : (complete d dev st id).inflight = st.inflight.erase id := by
        unfold complete
        rw [found, List.contains_iff_mem.mpr outstanding]
      rwa [same] at effect
    · exact (List.erase_of_not_mem outstanding).symm
  · rw [changed]

theorem poke_inflight {st : ReadState} (acc : Accounted d dev st) (poked : List Nat) {id : Nat}
    (left : id ∈ (poke d dev poked st).inflight) : id ∈ st.inflight ∧ id ∉ poked := by
  induction poked generalizing st with
  | nil => exact ⟨left, by simp⟩
  | cons first rest ih =>
      obtain ⟨member, notRest⟩ := ih (acc.complete first) left
      rw [complete_inflight acc, acc.nodup.mem_erase_iff] at member
      exact ⟨member.2, by simp [member.1, notRest]⟩

/-- Once the polls have delivered every outstanding command, the next pass
completes the read. -/
theorem ioThread_completes (good : dev.Good) (inFlight : st₁.op.state = .inFlight)
    (polls : List (List Nat)) {st : ReadState} (phase : Phase d dev original target st₁ st)
    (delivered : ∀ id ∈ st.inflight, id ∈ polls.flatten) :
    ∃ st', ioThread d dev (polls ++ [[]]) st = some st' ∧ st'.op.result.isSome := by
  induction polls generalizing st with
  | nil =>
      have none : st.inflight = [] := List.eq_nil_iff_forall_not_mem.mpr fun id member => by
        simpa using delivered id member
      rcases phase with working | ⟨last, working, -, rfl⟩
      · have state : st.op.state = .inFlight := working.log.state.trans inFlight
        have chunks := working.inv.acc.chunks
        have bounces := working.inv.acc.bounces
        rw [none] at chunks bounces
        refine ⟨completeReadOp dev st, ?_, (completeReadOp_state dev st).2⟩
        simp only [List.nil_append, ioThread, ioPass, state, reapInFlight]
        rw [if_pos ⟨chunks, bounces⟩]
        rfl
      · refine ⟨completeReadOp dev last, ?_, (completeReadOp_state dev last).2⟩
        simp only [List.nil_append, ioThread, ioPass, (completeReadOp_state dev last).1]
        rfl
  | cons poked rest ih =>
      obtain ⟨st', passed, next⟩ := ioPass_phase good inFlight phase poked
      have left : ∀ id ∈ st'.inflight, id ∈ rest.flatten := by
        intro id member
        rcases phase with working | ⟨last, -, none, rfl⟩
        · have state : st.op.state = .inFlight := working.log.state.trans inFlight
          simp only [ioPass, state, Option.map_some, Option.some.injEq, reapInFlight] at passed
          subst passed
          split at member
          · rename_i idle
            have none := working.inv.acc.inflight_nil idle.1 idle.2
            rw [poke_nil ((completeReadOp_inflight dev st).trans none), completeReadOp_inflight,
              none] at member
            cases member
          · obtain ⟨old, notPoked⟩ := poke_inflight working.inv.acc poked member
            have later := delivered id old
            rw [List.flatten_cons, List.mem_append] at later
            exact later.resolve_left notPoked
        · simp only [ioPass, (completeReadOp_state dev last).1, Option.map_some,
            Option.some.injEq] at passed
          subst passed
          rw [poke_nil ((completeReadOp_inflight dev last).trans none), completeReadOp_inflight,
            none] at member
          cases member
      obtain ⟨st'', ran, done⟩ := ih next left
      exact ⟨st'', by simp only [List.cons_append, ioThread, passed, Option.bind_some, ran], done⟩

/-! ## The finished read -/

/-- The bytes of the finished commands are the bytes of the log when every
command succeeds. -/
theorem chunkBytes_sum (good : dev.Good) (st : ReadState) :
    ((List.range st.issued.length).map (st.chunkBytes d dev)).sum = st.directBytes d := by
  have each : (List.range st.issued.length).map (st.chunkBytes d dev) =
      st.issued.map fun c => if c.callback = .chunk then commandBytes d c else 0 := by
    refine List.ext_getElem (by simp) fun i bound bound' => ?_
    simp only [List.length_map] at bound'
    simp [ReadState.chunkBytes, List.getElem?_eq_getElem bound', good.succeeds]
  rw [each, ReadState.directBytes]

/-- The copies move the staged bytes of every slot to its destination. -/
theorem runBounceCopies_stamps (good : dev.Good)
    (slots : List BounceSlot) :
    ∀ (i : Nat) (mem : Memory Space UInt8) (stamped : Int → Prop),
      (∀ s ∈ slots, s.dst.space = .user ∧ s.src.space ≠ .user ∧
        ∀ k, k < s.nbytes → mem.load s.src k = target (s.dst.addr + k)) →
      Stamped .user original mem target stamped →
      (runBounceCopies dev i slots mem).1 = true ∧
        Stamped .user original (runBounceCopies dev i slots mem).2 target
          fun a => stamped a ∨ ∃ s ∈ slots, s.dst.Covers s.nbytes .user a := by
  induction slots with
  | nil =>
      intro i mem stamped _ stamp
      exact ⟨rfl, stamp.congr fun a => by simp⟩
  | cons s rest ih =>
      intro i mem stamped sound stamp
      obtain ⟨user, staged, data⟩ := sound s (List.mem_cons_self ..)
      simp only [runBounceCopies, good.copies, if_true]
      have copied := stamp.blit s.dst s.nbytes (mem.load s.src) user data
      obtain ⟨ok, final⟩ := ih (i + 1) (mem.copy s.nbytes s.dst s.src) _ (fun s' later => by
        obtain ⟨user', staged', data'⟩ := sound s' (List.mem_cons_of_mem _ later)
        refine ⟨user', staged', fun k bound => ?_⟩
        rw [← data' k bound, Memory.load, Memory.copy, Memory.blit_of_space_ne, Memory.load]
        rw [user]
        exact staged') copied
      exact ⟨ok, final.congr fun a => by simp [or_assoc]⟩

/-- The staged bytes are in the bounce buffers once nothing is outstanding. -/
theorem ReadInv.staged (good : dev.Good) {st : ReadState}
    (inv : ReadInv d dev original target st) (none : st.inflight = []) :
    ∀ s ∈ st.op.bounces, s.dst.space = .user ∧ s.src.space ≠ .user ∧
      ∀ k, k < s.nbytes → st.mem.load s.src k = target (s.dst.addr + k) := by
  intro s member
  obtain ⟨user, c, logged, off, bounce, src, within, data⟩ := inv.sound.slots s member
  obtain ⟨id, bound, found⟩ := List.mem_iff_getElem.mp logged
  have finished : st.Finished dev id c :=
    ⟨by rw [List.getElem?_eq_getElem bound, found], by simp [none], good.succeeds id⟩
  refine ⟨user, by rw [src]; exact (inv.sound.staging c logged bounce).1, fun k small => ?_⟩
  rw [← data k small, ← inv.landed.staged id c finished bounce (off + k) (by omega), src,
    Memory.load, Memory.load, Ptr.add_space, Ptr.add_addr]
  congr 1
  omega

/-- What the whole-LBA commands stored, once nothing is outstanding. -/
theorem stored_iff (good : dev.Good) {st : ReadState} (none : st.inflight = []) (a : Int) :
    st.Stored d dev a ↔
      ∃ c ∈ st.issued, c.callback = .chunk ∧ c.dst.Covers (commandBytes d c) .user a := by
  constructor
  · rintro ⟨id, c, ⟨found, -⟩, chunk, covers⟩
    exact ⟨c, List.mem_of_getElem? found, chunk, covers⟩
  · rintro ⟨c, logged, chunk, covers⟩
    obtain ⟨id, bound, found⟩ := List.mem_iff_getElem.mp logged
    exact ⟨id, c, ⟨by rw [List.getElem?_eq_getElem bound, found], by simp [none],
      good.succeeds id⟩, chunk, covers⟩

/-- A read without outstanding commands has counted the bytes it planned. -/
theorem ReadInv.bytesAcc_eq (good : dev.Good) {st : ReadState}
    (inv : ReadInv d dev original target st) (idle : st.inflight = []) :
    st.op.bytesAcc = st.planned d := by
  have accounted := inv.acc.bytes
  rw [idle, chunkBytes_sum good] at accounted
  simp only [List.map_nil, List.sum_nil, Nat.add_zero] at accounted
  rw [accounted, ReadState.planned, Nat.add_comm]

/-- **A read that completes without error** reports the bytes it planned and
leaves the target bytes at exactly the addresses it covered. -/
theorem completeReadOp_async (good : dev.Good) {st : ReadState}
    (inv : ReadInv d dev original target st) (idle : st.inflight = [])
    (async : st.op.mode = .async) (noErr : st.op.err = none) :
    (completeReadOp dev st).op.result = some (ssize (st.planned d)) ∧
      Stamped .user original (completeReadOp dev st).mem target (st.Covered d) := by
  have bytes := inv.bytesAcc_eq good idle
  have direct : Stamped .user original st.mem target _ :=
    inv.landed.direct.congr fun a => (stored_iff good idle a).symm
  obtain ⟨copied, stamp⟩ := runBounceCopies_stamps good st.op.bounces 0 st.mem _
    (inv.staged good idle) direct
  simp only [completeReadOp, async, noErr, Option.isNone_none, if_true, copied, bytes]
  exact ⟨trivial, stamp⟩

/-- A read that completes without error reports the bytes it planned, in either mode. -/
theorem completeReadOp_planned (good : dev.Good) {st : ReadState}
    (inv : ReadInv d dev original target st) (idle : st.inflight = []) (noErr : st.op.err = none) :
    (completeReadOp dev st).op.result = some (ssize (st.planned d)) := by
  cases own : st.op.mode with
  | stream buf => simp only [completeReadOp, own, noErr, inv.bytesAcc_eq good idle]
  | async => exact (completeReadOp_async good inv idle own noErr).1

/-- A read that completes with an error reports it. -/
theorem completeReadOp_failed (dev : Device) {st : ReadState} {e : OpError}
    (err : st.op.err = some e) :
    (completeReadOp dev st).op.result = some (-e.code) := by
  unfold completeReadOp
  cases st.op.mode <;> simp [err]

/-! ## The dispatch -/

/-- Past the checks of the geometry and the range, a read is its extent loop. -/
theorem startReadOp_eq (geo : d.Geometry) (resolved : resolveExtents dev = .ok extents)
    {st : ReadState} (noWrap : u64 st.op.fileOffset + st.op.size < 2 ^ 64) :
    startReadOp d dev (dispatched st) =
      submitExtents d dev st.op.span extents (dispatched st) := by
  have wraps : ¬ 2 ^ 64 - 1 - u64 (dispatched st).op.fileOffset < (dispatched st).op.size := by
    change ¬ 2 ^ 64 - 1 - u64 st.op.fileOffset < st.op.size
    omega
  have lbaPos := geo.lbaSize_pos
  have chunkPos := geo.chunk_pos
  rw [startReadOp, if_neg (by omega), if_neg (by omega), if_neg wraps, resolved]
  rfl

/-- What the extent list and the request determine of a dispatched read, whatever
the device answers. -/
theorem dispatch_reads (geo : d.Geometry) (resolved : resolveExtents dev = .ok extents)
    (lay : Layout d extents) {st : ReadState} (fresh : Submitted st)
    (noWrap : u64 st.op.fileOffset + st.op.size < 2 ^ 64) :
    ∃ st₁, dispatchPending d dev st = some st₁ ∧ st₁.op.state = .inFlight ∧
      Extends d dev extents st.op.span st.mem (dispatched st) st₁ ∧
      (Reads d dev extents st.op.span st.mem extents (dispatched st) st₁ ∨
        Stops d dev extents st.op.span st.mem (dispatched st) st₁) := by
  have inv := dispatched_inv d dev fresh (st.op.span.target d dev extents)
  have ends := submitExtents_reads geo lay rfl extents (dispatched st) (fun _ member => member) lay
    (.inl rfl) inv
  obtain ⟨st₁, final, outcome⟩ := ends.finalState
  refine ⟨st₁, by rw [dispatchPending_eq, startReadOp_eq geo resolved noWrap, final], ?_⟩
  rcases outcome with reads | stops
  · exact ⟨reads.state, reads.toExtends, .inl reads⟩
  · exact ⟨stops.state, stops.toExtends, .inr stops⟩

/-! ## The run as a whole -/

/-- What is known of a read after any number of polls: what its commands are,
that it will complete, and its result with the memory once it has. -/
structure ReadOutcome (d : Driver) (dev : Device) (extents : List Extent) (st st' : ReadState) :
    Prop where
  origin : ∀ c ∈ st'.issued, Origin d extents st.op.span c
  completed : ∀ n, st'.op.result = some n → n = -OpError.invalidValue.code ∨
    (n = ssize (extents.map st.op.span.overlap).sum ∧
      Stamped .user st.mem st'.mem (st.op.span.target d dev extents)
        fun a => ∃ p, st.op.span.InExtents extents p ∧ a = st.op.span.addrOf p)

theorem completeReadOp_mode (st : ReadState) : (completeReadOp dev st).op.mode = st.op.mode := by
  unfold completeReadOp
  cases mode : st.op.mode with
  | stream buf => exact mode
  | async =>
      simp only
      split <;> exact mode

/-- The addresses and bytes a read has planned depend on its log and slots only. -/
theorem SameLog.covered {st st' : ReadState} (log : SameLog st st') (a : Int) :
    st'.Covered d a ↔ st.Covered d a := by
  simp only [ReadState.Covered, log.issued, log.bounces]

theorem SameLog.planned {st st' : ReadState} (log : SameLog st st') :
    st'.planned d = st.planned d := by
  simp only [ReadState.planned, ReadState.directBytes, ReadState.bounceBytes, log.issued,
    log.bounces]

/-- A dispatched read is in its first phase. -/
theorem Extends.working {st st₁ : ReadState} {r : Span} (good : dev.Good)
    (extended : Extends d dev extents r original st st₁) (poked : List Nat) :
    Working d dev original (r.target d dev extents) st₁ (ReadState.poke d dev poked st₁) where
  log := poke_frame d dev poked st₁
  err := poke_err good poked st₁
  inv := extended.inv.poke poked

/-- A fresh read plans exactly what its extent loop walks. -/
theorem Reads.covered_fresh {st st₁ : ReadState} {r : Span} (fresh : Submitted st)
    (reads : Reads d dev extents r original extents (dispatched st) st₁) (a : Int) :
    st₁.Covered d a ↔ ∃ p, r.InExtents extents p ∧ a = r.addrOf p := by
  have issued : (dispatched st).issued = [] := fresh.issued
  have bounces : (dispatched st).op.bounces = [] := rfl
  rw [reads.covered, ReadState.Covered, issued, bounces]
  simp

theorem Reads.planned_fresh {st st₁ : ReadState} {r : Span} (fresh : Submitted st)
    (reads : Reads d dev extents r original extents (dispatched st) st₁) :
    st₁.planned d = (extents.map r.overlap).sum := by
  have issued : (dispatched st).issued = [] := fresh.issued
  have bounces : (dispatched st).op.bounces = [] := rfl
  rw [reads.planned, ReadState.planned, ReadState.directBytes, ReadState.bounceBytes, issued,
    bounces]
  simp

/-- **Every run of an asynchronous read on any extent list.** Whatever the
retries before each command and the order of the completions, the run does not
get stuck, reads only the extents, completes once its commands have, and is
either rejected or delivers exactly the bytes of the request inside the
extents. -/
theorem ioThread_reads (geo : d.Geometry) (good : dev.Good)
    (resolved : resolveExtents dev = .ok extents) (lay : Layout d extents) {st : ReadState}
    (fresh : Submitted st) (async : st.op.mode = .async)
    (noWrap : u64 st.op.fileOffset + st.op.size < 2 ^ 64) (polls : List (List Nat)) :
    ∃ st', ioThread d dev polls st = some st' ∧ ReadOutcome d dev extents st st' ∧
      (polls ≠ [] → ∀ more : List (List Nat), (∀ id ∈ st'.inflight, id ∈ more.flatten) →
        ∃ last, ioThread d dev (polls ++ more ++ [[]]) st = some last ∧
          last.op.result.isSome) := by
  obtain ⟨st₁, dispatch, inFlight, extended, outcome⟩ :=
    dispatch_reads geo resolved lay fresh noWrap
  cases polls with
  | nil =>
      refine ⟨st, rfl, ⟨?_, ?_⟩, fun nonempty => absurd rfl nonempty⟩
      · rw [fresh.issued]
        simp
      · rw [fresh.result]
        simp
  | cons poked rest =>
      have first : ioPass d dev st poked = some (poke d dev poked st₁) := by
        simp only [ioPass, fresh.pending, dispatch, Option.map_some]
      have start : Phase d dev st.mem _ st₁ (poke d dev poked st₁) :=
        .inl (extended.working good poked)
      obtain ⟨st', ran, phase⟩ := ioThread_phase good inFlight rest start
      have whole : ioThread d dev (poked :: rest) st = some st' := by
        simp only [ioThread, first, Option.bind_some, ran]
      have issuedOrigin : ∀ c ∈ st₁.issued, Origin d extents st.op.span c := by
        intro c member
        refine (extended.origin c member).resolve_left ?_
        rw [show (dispatched st).issued = [] from fresh.issued]
        exact List.not_mem_nil
      have noResult : st₁.op.result = none := extended.result.trans fresh.result
      refine ⟨st', whole, ⟨?_, ?_⟩, fun _ more delivered => ?_⟩
      · intro c member
        refine issuedOrigin c ?_
        rcases phase with working | ⟨last, working, -, rfl⟩
        · rwa [working.log.issued] at member
        · rwa [completeReadOp_issued, working.log.issued] at member
      · intro n reported
        rcases phase with working | ⟨last, working, idle, rfl⟩
        · rw [working.log.result, noResult] at reported
          cases reported
        · rcases outcome with reads | stops
          · have noErr : st₁.op.err = none := reads.quiet good
            have mode : last.op.mode = .async :=
              working.log.mode.trans (extended.mode.trans async)
            obtain ⟨result, stamp⟩ :=
              completeReadOp_async good working.inv idle mode (working.err.trans noErr)
            rw [result, working.log.planned, reads.planned_fresh fresh] at reported
            refine .inr ⟨(Option.some.inj reported).symm, stamp.congr fun a => ?_⟩
            rw [working.log.covered, reads.covered_fresh fresh]
          · have result := completeReadOp_failed dev
              (working.err.trans (stops.rejected good))
            rw [result] at reported
            exact .inl (Option.some.inj reported).symm
      · obtain ⟨last, completes, done⟩ := ioThread_completes good inFlight more phase delivered
        refine ⟨last, ?_, done⟩
        rw [List.append_assoc, ioThread_append, whole]
        exact completes

end OpenDS.Aisio
