import OpenDS.Aisio.RestrictedReads
import OpenDS.Engine.Op
import OpenDS.Ref.AsyncSubmit

/-!
# Reads at negative offsets

`start_read_op` takes the offset of a request as a `uint64_t`. A negative one becomes a
position of `2 ^ 63` or more, where no file has bytes. The only check it can meet is the
one for a range that wraps, and that depends on the size: a request that reaches the start
of the file from below wraps and is rejected, and a shorter one is a read past the end,
which reports zero bytes (`negativeOffset_fails_iff`).

The reference backend hands the offset to `pread`, which fails.
-/

set_option autoImplicit false

namespace OpenDS.Aisio

open OpenDS.Library ReadState

variable {d : Driver} {dev : Device}

/-! ## Reads without commands -/

/-- The read is dispatched and has nothing to wait for. -/
structure Idle (st : ReadState) : Prop where
  state : st.op.state = .inFlight
  chunks : st.op.chunksRemaining = 0
  bounces : st.op.bouncesOutstanding = 0
  inflight : st.inflight = []
  result : st.op.result = none

/-- A read past its completion stays as it is. -/
theorem ioThread_free (polls : List (List Nat)) {st : ReadState} (free : st.op.state = .free)
    (none : st.inflight = []) : ioThread d dev polls st = some st := by
  induction polls with
  | nil => rfl
  | cons poked rest ih =>
      simp only [ioThread, ioPass, free, Option.map_some, poke_nil none, Option.bind_some]
      exact ih

/-- **A read that has nothing to wait for is completed by the pass past its dispatch.** -/
theorem ioThread_idle {st st₁ : ReadState} (pending : st.op.state = .pending)
    (dispatch : dispatchPending d dev st = some st₁) (idle : Idle st₁) (first second : List Nat)
    (rest : List (List Nat)) :
    ioThread d dev (first :: second :: rest) st = some (completeReadOp dev st₁) := by
  have none := (completeReadOp_inflight dev st₁).trans idle.inflight
  simp only [ioThread, ioPass, pending, dispatch, Option.map_some, poke_nil idle.inflight,
    Option.bind_some, idle.state, reapInFlight]
  rw [if_pos ⟨idle.chunks, idle.bounces⟩, poke_nil none]
  exact ioThread_free rest (completeReadOp_state dev st₁).1 none

/-- A dispatched read that has set an error has nothing to wait for. -/
theorem dispatched_idle {st : ReadState} (fresh : Submitted st) : Idle (dispatched st) :=
  ⟨rfl, rfl, rfl, fresh.inflight, fresh.result⟩

/-- The read of no bytes reports zero. -/
theorem completeReadOp_empty {st : ReadState} (bytes : st.op.bytesAcc = 0) (none : st.op.err = none)
    (slots : st.op.bounces = []) : (completeReadOp dev st).op.result = some 0 := by
  have zero : ssize 0 = 0 := by decide
  unfold completeReadOp
  cases st.op.mode <;> simp [bytes, none, slots, runBounceCopies, zero]

/-! ## The offset of a request -/

theorem u64_of_negative {x : Int} (negative : x < 0) (offT : -2 ^ 63 ≤ x) :
    (u64 x : Int) = 2 ^ 64 + x := by
  unfold u64
  omega

/-- The extents lie where a file can have bytes. -/
def InFile (extents : List Extent) : Prop := ∀ e ∈ extents, e.fileEnd ≤ 2 ^ 63

/-- A request past the end of every extent submits nothing. -/
theorem submitExtents_past {r : Span} {extents : List Extent}
    (past : ∀ e ∈ extents, e.fileEnd ≤ r.reqStart) (st : ReadState) :
    submitExtents d dev r extents st = .ok st := by
  induction extents with
  | nil => rfl
  | cons e rest ih =>
      have here := past e (List.mem_cons_self ..)
      rw [submitExtents]
      split
      · rfl
      · simp only
        rw [if_pos (by omega)]
        exact ih fun e' later => past e' (List.mem_cons_of_mem _ later)

/-- What `start_read_op` rejects of the reads at negative offsets: those that its geometry
does not allow, those that reach the start of the file, and those of a file whose extents
it cannot get. -/
def RejectsNegative (d : Driver) (dev : Device) (op : FileOp) : Prop :=
  d.lbaSize = 0 ∨ d.mdtsNbytes >>> d.lbaShift = 0 ∨ -op.fileOffset ≤ op.size ∨
    ∃ rc, resolveExtents dev = .error rc

/-- **The dispatch of a read at a negative offset** submits nothing, and sets an error
exactly if the read is rejected. -/
theorem dispatch_negative {st : ReadState} (negative : st.op.fileOffset < 0)
    (offT : -2 ^ 63 ≤ st.op.fileOffset)
    (file : ∀ extents, resolveExtents dev = .ok extents → InFile extents) :
    (RejectsNegative d dev st.op ∧
        ∃ e, dispatchPending d dev st = some ((dispatched st).fail e)) ∨
      (¬ RejectsNegative d dev st.op ∧ dispatchPending d dev st = some (dispatched st)) := by
  have position := u64_of_negative negative offT
  rw [dispatchPending_eq, startReadOp]
  by_cases lba : d.lbaSize = 0
  · rw [if_pos lba]
    exact .inl ⟨.inl lba, _, rfl⟩
  rw [if_neg lba]
  by_cases mdts : d.mdtsNbytes >>> d.lbaShift = 0
  · rw [if_pos mdts]
    exact .inl ⟨.inr (.inl mdts), _, rfl⟩
  rw [if_neg mdts]
  by_cases wraps : -st.op.fileOffset ≤ st.op.size
  · rw [if_pos (by change 2 ^ 64 - 1 - u64 st.op.fileOffset < st.op.size; omega)]
    exact .inl ⟨.inr (.inr (.inl wraps)), _, rfl⟩
  rw [if_neg (by change ¬ 2 ^ 64 - 1 - u64 st.op.fileOffset < st.op.size; omega)]
  cases resolved : resolveExtents dev with
  | error rc => exact .inl ⟨.inr (.inr (.inr ⟨rc, resolved⟩)), _, rfl⟩
  | ok extents =>
      right
      refine ⟨?_, ?_⟩
      · rintro (bad | bad | bad | ⟨rc, bad⟩)
        · exact lba bad
        · exact mdts bad
        · exact wraps bad
        · rw [resolved] at bad
          cases bad
      · simp only
        rw [submitExtents_past]
        · rfl
        · intro e member
          have inside := file extents resolved e member
          change e.fileEnd ≤ u64 st.op.fileOffset
          omega

/-- **A read at a negative offset fails exactly if `start_read_op` rejects it**, in either
mode, whatever the device and the queue answer: it is completed by the pass past its
dispatch, with a negated error if it is rejected and with zero bytes otherwise. -/
theorem negativeOffset_fails_iff {st : ReadState} (fresh : Submitted st)
    (negative : st.op.fileOffset < 0) (offT : -2 ^ 63 ≤ st.op.fileOffset)
    (file : ∀ extents, resolveExtents dev = .ok extents → InFile extents)
    (polls : List (List Nat)) :
    ∃ st', ioThread d dev polls st = some st' ∧ (2 ≤ polls.length → st'.op.result.isSome) ∧
      ∀ n, st'.op.result = some n → (n < 0 ↔ RejectsNegative d dev st.op) := by
  obtain ⟨st₁, dispatch, idle, outcome⟩ : ∃ st₁, dispatchPending d dev st = some st₁ ∧ Idle st₁ ∧
      ∃ n, (completeReadOp dev st₁).op.result = some n ∧ (n < 0 ↔ RejectsNegative d dev st.op) := by
    have idle := dispatched_idle fresh
    rcases @dispatch_negative d dev st negative offT file with
      ⟨rejected, e, dispatch⟩ | ⟨accepted, dispatch⟩
    · refine ⟨_, dispatch, ⟨idle.state, idle.chunks, idle.bounces, idle.inflight, idle.result⟩, _,
        completeReadOp_failed dev rfl, iff_of_true ?_ rejected⟩
      have code := e.code_pos
      omega
    · exact ⟨_, dispatch, idle, 0, completeReadOp_empty rfl rfl rfl,
        iff_of_false (Int.lt_irrefl 0) accepted⟩
  match polls with
  | [] => exact ⟨st, rfl, by simp, fun n has => by rw [fresh.result] at has; cases has⟩
  | [poked] =>
      refine ⟨st₁, ?_, by simp, fun n has => by rw [idle.result] at has; cases has⟩
      simp only [ioThread, ioPass, fresh.pending, dispatch, Option.map_some, poke_nil idle.inflight,
        Option.bind_some]
  | first :: second :: rest =>
      obtain ⟨n, result, sign⟩ := outcome
      refine ⟨_, ioThread_idle fresh.pending dispatch idle first second rest,
        fun _ => (completeReadOp_state dev st₁).2, fun m has => ?_⟩
      rw [result] at has
      cases has
      exact sign

theorem serving_inFile : ∀ extents,
    resolveExtents (.serving sectorDisk [⟨0, 8, 512⟩]) = .ok extents → InFile extents := by
  intro extents resolved e member
  rw [Device.serving_resolved] at resolved
  cases resolved
  rw [List.mem_singleton.mp member]
  decide

/-- A stream read that reaches the start of the file from below. -/
theorem negativeOffset_fails_iff_wrapping :
    ∃ st', ioThread sectorDriver (.serving sectorDisk [⟨0, 8, 512⟩]) [[], [0]]
        (submittedStreamRead (-512) 1024) = some st' ∧
      ∀ n, st'.op.result = some n → n < 0 := by
  obtain ⟨st', ran, -, sign⟩ := negativeOffset_fails_iff (d := sectorDriver)
    (submittedStreamRead_submitted (-512) 1024) (by decide) (by decide) serving_inFile [[], [0]]
  exact ⟨st', ran, fun n has => (sign n has).mpr (.inr (.inr (.inl (by decide))))⟩

/-- A read at a negative offset never reports a byte count. -/
def NegativeOffsetsFail : Prop :=
  ∀ (d : Driver) (dev : Device) (st st' : ReadState) (polls : List (List Nat)) (n : Int),
    Submitted st → 0 < st.op.size → st.op.fileOffset < 0 → -2 ^ 63 ≤ st.op.fileOffset →
    (∀ extents, resolveExtents dev = .ok extents → InFile extents) →
    ioThread d dev polls st = some st' → st'.op.result = some n → n < 0

/-- **A read before the start of the file reports zero bytes.** -/
theorem read_before_start_reports_zero : ¬ NegativeOffsetsFail := by
  intro fails
  have zero : (ioThread sectorDriver (.serving sectorDisk [⟨0, 8, 512⟩]) [[], []]
      (submittedRead (-1024) 512)).bind (fun st => st.op.result) = some 0 := by decide
  obtain ⟨st', ran, result⟩ := Option.bind_eq_some_iff.mp zero
  exact absurd (fails _ _ _ st' _ 0 (submittedRead_submitted _ _) (by decide) (by decide) (by decide)
    serving_inFile ran result) (Int.lt_irrefl 0)

end OpenDS.Aisio

/-! ## The reference backend -/

namespace OpenDS.Ref

open OpenDS.Common OpenDS.Engine

/-- `opends_direct_pread` at an offset of either sign. The first position that it reads is
not past the offset, and the kernel refuses a negative one. -/
def directPreadAt (p size : Nat) (off : Int) (garbage : Nat → UInt8) (answers : List Answer)
    (s : World) : Option (World × Int) :=
  if 0 ≤ off then directPread p size off.toNat garbage answers s
  else if size = 0 then some (s, 0)
  else
    -- `off & ~(off_t)(OPENDS_DIRECT_ALIGN - 1)`
    let start := off - off % directAlign
    let head := (off - start).toNat
    let rounded := (head + size + (directAlign - 1)) % 2 ^ 64
    let span := rounded - (rounded &&& (directAlign - 1))
    match answers with
    | [] => none
    | .ok _ :: _ => some (s, if span = 0 then 0 else -einval)
    | _ :: _ => some (s, -enomem)

/-- The read of `ref_async_submit`, at an offset of either sign. -/
def refReadAt (p size : Nat) (off : Int) (garbage : Nat → UInt8) (answers : List Answer)
    (s : World) : Option (World × Int) :=
  let result :=
    if directAligned p size (u64 off) then
      answers.head?.map fun a => if 0 ≤ off then preadOnce p size off.toNat a s else (s, -1)
    else directPreadAt p size off garbage answers s
  result.map fun out => (out.1, if out.2 < 0 then -OpError.internalError.code else out.2)

/-- **A read of the reference backend at a negative offset fails**, unless its size is that
of the address space. -/
theorem refReadAt_negative {p size : Nat} {off : Int} {garbage : Nat → UInt8}
    {answers : List Answer} {s : World} {out : World × Int} (some' : 0 < size)
    (small : size + 8190 < 2 ^ 64) (negative : off < 0)
    (ran : refReadAt p size off garbage answers s = some out) :
    out = (s, -OpError.internalError.code) := by
  obtain ⟨moved, result, same⟩ := Option.map_eq_some_iff.mp ran
  have below : ¬ 0 ≤ off := by omega
  have failed : moved.1 = s ∧ moved.2 < 0 := by
    split at result
    · obtain ⟨a, -, same⟩ := Option.map_eq_some_iff.mp result
      rw [← same]
      exact ⟨rfl, by omega⟩
    · rw [directPreadAt, if_neg below, if_neg (by omega)] at result
      have blocks : ((off - (off - off % directAlign)).toNat + size + (directAlign - 1)) % 2 ^ 64 -
          (((off - (off - off % directAlign)).toNat + size + (directAlign - 1)) % 2 ^ 64 &&&
            (directAlign - 1)) ≠ 0 := by
        rw [WriteRequest.and_block_mask, directAlign]
        omega
      split at result
      · cases result
      · simp only [if_neg blocks, Option.some.injEq] at result
        rw [← result]
        exact ⟨rfl, show -(22 : Int) < 0 by decide⟩
      · simp only [Option.some.injEq] at result
        rw [← result]
        exact ⟨rfl, show -(12 : Int) < 0 by decide⟩
  rw [← same, failed.1, if_pos failed.2]

end OpenDS.Ref
