import OpenDS.Library.Transition
import OpenDS.Common.DirectWrite

/-!
# What direct writes do to the bytes of a file

A write in flight holds the bytes around its range that it has read from its edge
blocks and not yet written back (`Held`). As long as these are the bytes of the
file, a step of the write changes nothing but its range (`Local.step_byte`). They
stay the bytes of the file as long as no other write changes them, and no
truncation cuts off a byte that is not zero; both are conditions on the state
before a step.
-/

set_option autoImplicit false

namespace OpenDS.Common

open OpenDS.Library

namespace WriteRequest

variable (r : WriteRequest)

/-- How many bytes of its span the write has written. -/
def progress : WritePc → Nat
  | .pwrite done => done
  | .ftruncate => r.span
  | .out _ => r.span
  | _ => 0

/-- The write has written this position of its range. -/
def Written (pc : WritePc) (p : Nat) : Prop := r.Range p ∧ p < r.start + r.progress pc

/-- The write holds a byte of the file that it will write back: one of its blocks
outside its range, already read and not yet written. -/
def Held (pc : WritePc) (p : Nat) : Prop :=
  r.Touches p ∧ ¬ r.Range p ∧
    match pc with
    | .readTail => r.head ≠ 0 ∧ p < r.start + directAlign
    | .copy => True
    | .pwrite done => r.start + done ≤ p
    | _ => False

/-- The buffer of a write agrees with the file where it holds its bytes, and with
the source past the copy. -/
structure Local (f : File) (w : WriteState) : Prop where
  held : ∀ p, r.Held w.pc p → w.bounce (p - r.start) = f.byte p
  copied : ∀ done, w.pc = .pwrite done → ∀ p, r.Range p →
    w.bounce (p - r.start) = r.src (p - r.off)

end WriteRequest

open WriteRequest

variable {r : WriteRequest} {f f' : File} {w w' : WriteState} {a : Answer}

theorem WriteRequest.Local.congr (own : r.Local f w)
    (same : ∀ p, r.Held w.pc p → f'.byte p = f.byte p) : r.Local f' w :=
  ⟨fun p held => (own.held p held).trans (same p held).symm, own.copied⟩

/-! ## The phases of a write -/

/-- A write whose range has no partial edge holds nothing. -/
theorem not_held_of_whole (fits : r.Fits) (head : r.head = 0) (tail : r.tail = 0) (pc : WritePc)
    (p : Nat) : ¬ r.Held pc p := by
  rintro ⟨touches, outside, -⟩
  have bounds := fits.endOff_bounds
  have start := r.start_add_head
  simp only [Touches, Range] at touches outside
  omega

theorem not_held_enterRead (fits : r.Fits) (p : Nat) : ¬ r.Held r.enterRead p := by
  unfold enterRead
  split
  · exact fun held => held.2.2
  · rename_i head
    rw [not_not] at head
    unfold afterHead
    split
    · exact fun held => held.2.2.1 head
    · rename_i noTail
      have tail : r.tail = 0 := by
        by_contra tail
        exact noTail ⟨tail, .inr head⟩
      exact not_held_of_whole fits head tail _ p

/-- Where the fill begins nothing is held yet. -/
theorem not_held_enterFill (fits : r.Fits) (p : Nat) : ¬ r.Held r.enterFill p := by
  unfold enterFill
  split
  · split
    · exact fun held => held.2.2
    · exact not_held_enterRead fits p
  · rename_i whole
    rw [not_or, not_not, not_not] at whole
    exact not_held_of_whole fits whole.1 whole.2 _ p

/-- Past the read of the first block only its bytes are held. -/
theorem held_afterHead (fits : r.Fits) {p : Nat} (held : r.Held r.afterHead p) :
    p < r.start + directAlign := by
  have bounds := fits.endOff_bounds
  have shape := fits.shape
  have start := r.start_add_head
  have headLt := r.head_lt
  obtain ⟨touches, outside, phase⟩ := held
  simp only [Touches, Range, directAlign] at *
  by_cases second : r.tail ≠ 0 ∧ (r.last ≠ 0 ∨ r.head = 0)
  · rw [afterHead, if_pos second] at phase
    exact phase.2
  · have last := shape.last
    by_cases tail : r.tail = 0
    · omega
    · have one : r.last = 0 := by
        by_contra last
        exact second ⟨tail, .inl last⟩
      omega

/-- The write fills its buffer. -/
def Filling : WritePc → Prop
  | .openRead => True
  | .readHead => True
  | .readTail => True
  | .copy => True
  | _ => False

theorem filling_afterHead (r : WriteRequest) : Filling r.afterHead := by
  unfold afterHead
  split <;> trivial

theorem filling_enterRead (r : WriteRequest) : Filling r.enterRead := by
  unfold enterRead
  split
  · trivial
  · exact filling_afterHead r

theorem filling_enterFill (r : WriteRequest) : Filling r.enterFill := by
  unfold enterFill
  split
  · split
    · trivial
    · exact filling_enterRead r
  · trivial

theorem Filling.progress {pc : WritePc} (filling : Filling pc) : r.progress pc = 0 := by
  cases pc <;> first | rfl | exact filling.elim

theorem Filling.ne_pwrite {pc : WritePc} (filling : Filling pc) (done : Nat) :
    pc ≠ .pwrite done := by
  rintro rfl
  exact filling

theorem Filling.ne_out {pc : WritePc} (filling : Filling pc) (ret : Int) : pc ≠ .out ret := by
  rintro rfl
  exact filling

theorem progress_enterLoop (r : WriteRequest) (truncTo : Option Nat) (done : Nat) :
    r.progress (r.enterLoop truncTo done) = if done < r.span then done else r.span := by
  unfold enterLoop
  split
  · rfl
  · cases truncTo <;> rfl

theorem enterLoop_eq_pwrite {truncTo : Option Nat} {done done' : Nat}
    (pc : r.enterLoop truncTo done = .pwrite done') : done' = done ∧ done < r.span := by
  unfold enterLoop at pc
  split at pc
  · rename_i more
    cases pc
    exact ⟨rfl, more⟩
  · cases truncTo <;> cases pc

theorem held_enterLoop {truncTo : Option Nat} {done p : Nat}
    (held : r.Held (r.enterLoop truncTo done) p) :
    r.Touches p ∧ ¬ r.Range p ∧ r.start + done ≤ p := by
  obtain ⟨touches, outside, phase⟩ := held
  refine ⟨touches, outside, ?_⟩
  by_cases more : done < r.span
  · rw [enterLoop, if_pos more] at phase
    exact phase
  · rw [enterLoop, if_neg more] at phase
    cases truncTo <;> cases phase

/-! ## Reads of the edge blocks -/

/-- The kernel answers a read of an edge block with all there is of it. -/
def FullRead (w : WriteState) (a : Answer) : Prop :=
  ∀ n, a = .ok n → w.pc = .readHead ∨ w.pc = .readTail → directAlign ≤ n

theorem readBlock_of_mem {pos base n k : Nat} (bounce : Nat → UInt8) (full : directAlign ≤ n)
    (low : base ≤ k) (high : k < base + directAlign) :
    readBlock f pos base n bounce k = f.byte (pos + (k - base)) := by
  rw [readBlock, if_pos ⟨low, high⟩]
  by_cases there : k - base < f.available pos (min n directAlign)
  · rw [if_pos there]
  · rw [if_neg there]
    rw [ByteFile.available] at there
    exact (f.pastEnd _ (by omega)).symm

theorem readBlock_of_not_mem {pos base n k : Nat} (bounce : Nat → UInt8)
    (outside : ¬ (base ≤ k ∧ k < base + directAlign)) :
    readBlock f pos base n bounce k = bounce k :=
  if_neg outside

/-! ## Steps -/

/-- A truncation cuts off zeros only. -/
def CutsZeros (f : File) (w : WriteState) (a : Answer) : Prop :=
  w.pc = .ftruncate → (∃ n, a = .ok n) → ∀ length, w.truncTo = some length →
    ∀ p, length ≤ p → f.byte p = 0

/-- The position belongs to the slice of its range that a `pwrite` moves. -/
def WriteRequest.Moves (r : WriteRequest) (w : WriteState) (a : Answer) (p : Nat) : Prop :=
  ∃ done n, w.pc = .pwrite done ∧ a = .ok n ∧ r.Range p ∧ r.start + done ≤ p ∧
    p < r.start + done + min n (r.span - done)

/-- What a step writes is what it moves. -/
theorem Effect.written_iff (fits : r.Fits) (effect : Effect r f w a f' w') (alive : ¬ w'.Failed)
    (p : Nat) : r.Written w'.pc p ↔ r.Written w.pc p ∨ r.Moves w a p := by
  -- Outside the write loop a step moves nothing and keeps the progress.
  have still : ∀ pc', (∀ done n, ¬ (w.pc = .pwrite done ∧ a = .ok n)) →
      r.progress pc' = r.progress w.pc →
      (r.Written pc' p ↔ r.Written w.pc p ∨ r.Moves w a p) := by
    intro pc' notMoving same
    simp only [Written, same]
    refine ⟨.inl, fun either => either.elim id ?_⟩
    rintro ⟨done, n, writing, answer, -⟩
    exact absurd ⟨writing, answer⟩ (notMoving done n)
  have span : 0 < r.span := by
    have last := fits.shape.last
    omega
  cases effect with
  | idle a stays =>
      refine still _ (fun done n moving => ?_) rfl
      rcases stays with rfl | ⟨ret, out⟩
      · cases moving.2
      · rw [out] at moving
        cases moving.1
  | fails a ret negative _ _ => exact absurd ⟨ret, rfl, negative⟩ alive
  | memalign n pc =>
      refine still _ (by simp [pc]) ?_
      rw [pc]
      split
      · rfl
      · exact (filling_enterFill r).progress
  | fstat n pc =>
      refine still _ (by simp [pc]) ?_
      rw [pc]
      exact (filling_enterFill r).progress
  | openRead n pc =>
      refine still _ (by simp [pc]) ?_
      rw [pc]
      exact (filling_enterRead r).progress
  | readHead n pc =>
      refine still _ (by simp [pc]) ?_
      rw [pc]
      exact (filling_afterHead r).progress
  | readTail n pc =>
      refine still _ (by simp [pc]) ?_
      rw [pc]
      rfl
  | copy n pc =>
      refine still _ (by simp [pc]) ?_
      rw [pc, progress_enterLoop, if_pos span]
      rfl
  | pwrite done n pc moved =>
      have progress : r.progress (r.enterLoop w.truncTo (done + min n (r.span - done))) =
          done + min n (r.span - done) := by
        rw [progress_enterLoop]
        split <;> omega
      simp only [Written, progress, Moves, pc]
      constructor
      · rintro ⟨range, below⟩
        by_cases old : p < r.start + done
        · exact .inl ⟨range, old⟩
        · exact .inr ⟨done, n, rfl, rfl, range, by omega, by omega⟩
      · rintro (⟨range, below⟩ | ⟨done', n', same, answer, range, low, high⟩)
        · change p < r.start + done at below
          exact ⟨range, by omega⟩
        · cases same
          cases answer
          exact ⟨range, by omega⟩
  | ftruncate n file pc =>
      refine still _ (by simp [pc]) ?_
      rw [pc]
      rfl

/-- **A step changes the file only where it moves bytes of the source.** -/
theorem WriteRequest.Local.step_byte (own : r.Local f w) (cuts : CutsZeros f w a)
    (effect : Effect r f w a f' w') (alive : ¬ w'.Failed) (p : Nat) :
    (r.Moves w a p → f'.byte p = r.src (p - r.off)) ∧
      (¬ r.Moves w a p → f'.byte p = f.byte p) := by
  have still : (∀ done n, ¬ (w.pc = .pwrite done ∧ a = .ok n)) → f'.byte p = f.byte p →
      (r.Moves w a p → f'.byte p = r.src (p - r.off)) ∧
        (¬ r.Moves w a p → f'.byte p = f.byte p) := by
    refine fun notMoving same => ⟨?_, fun _ => same⟩
    rintro ⟨done, n, writing, answer, -⟩
    exact absurd ⟨writing, answer⟩ (notMoving done n)
  cases effect with
  | idle a stays =>
      refine still (fun done n moving => ?_) rfl
      rcases stays with rfl | ⟨ret, out⟩
      · cases moving.2
      · rw [out] at moving
        cases moving.1
  | fails a ret negative _ _ => exact absurd ⟨ret, rfl, negative⟩ alive
  | memalign n pc => exact still (by simp [pc]) rfl
  | fstat n pc => exact still (by simp [pc]) rfl
  | openRead n pc => exact still (by simp [pc]) rfl
  | readHead n pc => exact still (by simp [pc]) rfl
  | readTail n pc => exact still (by simp [pc]) rfl
  | copy n pc => exact still (by simp [pc]) rfl
  | pwrite done n pc moved =>
      by_cases slice : r.start + done ≤ p ∧ p < r.start + done + min n (r.span - done)
      · have stored := f.pwrite_byte_of_mem (fun k => w.bounce (done + k)) slice.1 slice.2
        have position : done + (p - (r.start + done)) = p - r.start := by omega
        rw [stored, position]
        constructor
        · rintro ⟨done', n', -, -, range, -⟩
          exact own.copied done pc p range
        · intro notMoved
          -- A byte of the slice outside the range is written back as it was read.
          refine own.held p ⟨⟨by omega, by omega⟩, fun range => notMoved ?_, ?_⟩
          · exact ⟨done, n, pc, rfl, range, slice⟩
          · rw [pc]
            exact slice.1
      · have kept := f.pwrite_byte_of_not_mem (fun k => w.bounce (done + k)) slice
        refine ⟨?_, fun _ => kept⟩
        rintro ⟨done', n', same, answer, -, low, high⟩
        rw [pc] at same
        cases same
        cases answer
        exact absurd ⟨low, high⟩ slice
  | ftruncate n file pc planned unplanned =>
      refine still (by simp [pc]) ?_
      cases length : w.truncTo with
      | none => rw [unplanned length]
      | some length' =>
          rw [planned length' length]
          exact f.ftruncate_byte_of_zero (cuts pc ⟨n, rfl⟩ length' length p)

/-- **A step keeps the buffer of its write in order.** -/
theorem WriteRequest.Local.step (fits : r.Fits) (own : r.Local f w) (full : FullRead w a)
    (effect : Effect r f w a f' w') : r.Local f' w' := by
  have start := r.start_add_head
  have bounds := fits.endOff_bounds
  have shape := fits.shape
  cases effect with
  | idle a stays => exact own
  | fails a ret negative _ _ => exact ⟨fun p held => held.2.2.elim, fun done pc => by cases pc⟩
  | memalign n pc =>
      split
      · exact ⟨fun p held => held.2.2.elim, fun done pc => by cases pc⟩
      · exact ⟨fun p held => absurd held (not_held_enterFill fits p),
          fun done pc => absurd pc ((filling_enterFill r).ne_pwrite done)⟩
  | fstat n pc =>
      exact ⟨fun p held => absurd held (not_held_enterFill fits p),
        fun done pc => absurd pc ((filling_enterFill r).ne_pwrite done)⟩
  | openRead n pc =>
      exact ⟨fun p held => absurd held (not_held_enterRead fits p),
        fun done pc => absurd pc ((filling_enterRead r).ne_pwrite done)⟩
  | readHead n pc =>
      refine ⟨fun p held => ?_, fun done pc => absurd pc ((filling_afterHead r).ne_pwrite done)⟩
      have first := held_afterHead fits held
      have low := held.1.1
      simp only
      have position : r.start + (p - r.start - 0) = p := by omega
      rw [readBlock_of_mem w.bounce (full n rfl (.inl pc)) (Nat.zero_le _) (by omega), position]
  | readTail n pc =>
      refine ⟨fun p held => ?_, fun done pc => by cases pc⟩
      obtain ⟨touches, outside, -⟩ := held
      have last := shape.last
      simp only [Touches, Range] at touches outside
      by_cases second : r.last ≤ p - r.start
      · simp only
        have position : r.start + r.last + (p - r.start - r.last) = p := by omega
        rw [readBlock_of_mem w.bounce (full n rfl (.inr pc)) second
          (by simp only [directAlign]; omega), position]
      · simp only
        rw [readBlock_of_not_mem w.bounce fun inside => second inside.1]
        -- What is not in the last block lies before the range, in the first one.
        refine own.held p ⟨touches, outside, ?_⟩
        rw [pc]
        have headLt := r.head_lt
        have tailLt := shape.tailLt
        have tail := shape.tail
        exact ⟨by omega, by simp only [directAlign]; omega⟩
  | copy n pc =>
      refine ⟨fun p held => ?_, fun done loop p range => ?_⟩
      · obtain ⟨touches, outside, low⟩ := held_enterLoop held
        simp only [Touches, Range, endOff] at touches outside
        simp only
        rw [if_neg (by omega)]
        exact own.held p ⟨touches, outside, by rw [pc]; trivial⟩
      · simp only [Range, endOff] at range
        simp only
        rw [if_pos (by omega)]
        congr 1
        omega
  | pwrite done n pc moved =>
      refine ⟨fun p held => ?_, fun done' _ p range => own.copied done pc p range⟩
      obtain ⟨touches, outside, low⟩ := held_enterLoop held
      rw [f.pwrite_byte_of_not_mem _ (by omega)]
      refine own.held p ⟨touches, outside, ?_⟩
      rw [pc]
      change r.start + done ≤ p
      omega
  | ftruncate n file pc planned unplanned =>
      exact ⟨fun p held => held.2.2.elim, fun done pc => by cases pc⟩

/-- A write that has given up stays that way. -/
theorem Effect.failed (effect : Effect r f w a f' w') (failed : w.Failed) : w'.Failed := by
  obtain ⟨ret, out, negative⟩ := failed
  cases effect with
  | idle a stays => exact ⟨ret, out, negative⟩
  | fails a ret' negative' _ _ => exact ⟨ret', rfl, negative'⟩
  | memalign n pc | fstat n pc | openRead n pc | readHead n pc | readTail n pc | copy n pc
  | pwrite done n pc moved | ftruncate n file pc planned unplanned =>
      rw [out] at pc
      cases pc

/-! ## Writes in flight on one file -/

/-- A file and the writes in flight on it. -/
structure WriteSystem (ι : Type) where
  file : File
  writes : ι → WriteState

section System

variable {ι : Type} [DecidableEq ι]

/-- In each step one write makes its next call, which is atomic. -/
def writers (req : ι → WriteRequest) : Machine (WriteSystem ι) (ι × Answer) where
  step s l :=
    let out := (req l.1).step l.2 s.file (s.writes l.1)
    some ⟨out.1, Function.update s.writes l.1 out.2⟩

/-- All writes are called on a file. -/
def inFlight (req : ι → WriteRequest) (file : File) (garbage : ι → Nat → UInt8) : WriteSystem ι :=
  ⟨file, fun i => (req i).call (garbage i)⟩

/-- No write has given up. -/
def Alive (s : WriteSystem ι) : Prop := ∀ i, ¬ (s.writes i).Failed

variable {req : ι → WriteRequest} {f₀ : File} {s s' : WriteSystem ι} {i : ι}

theorem writers_step (step : (writers req).step s (i, a) = some s') :
    Effect (req i) s.file (s.writes i) a s'.file (s'.writes i) ∧
      ∀ j, j ≠ i → s'.writes j = s.writes j := by
  cases step
  refine ⟨?_, fun j other => Function.update_of_ne other _ _⟩
  simp only [Function.update_self]
  exact (req i).step_effect a s.file (s.writes i)

theorem Alive.of_step (alive : Alive s') (step : (writers req).step s (i, a) = some s') :
    Alive s := by
  obtain ⟨effect, others⟩ := writers_step step
  intro j failed
  by_cases here : j = i
  · subst here
    exact alive j (effect.failed failed)
  · rw [← others j here] at failed
    exact alive j failed

/-- The bytes of the file while writes are in flight: what was written of a range
is there, everything else is as it was, and every buffer is in order. -/
structure Content (req : ι → WriteRequest) (f₀ : File) (s : WriteSystem ι) : Prop where
  locals : ∀ i, (req i).Local s.file (s.writes i)
  written : ∀ i p, (req i).Written (s.writes i).pc p →
    s.file.byte p = (req i).src (p - (req i).off)
  kept : ∀ p, (∀ i, ¬ (req i).Written (s.writes i).pc p) → s.file.byte p = f₀.byte p

/-- No byte that this step moves is held by another write. -/
def Undisturbed (req : ι → WriteRequest) (s : WriteSystem ι) (l : ι × Answer) : Prop :=
  ∀ j, j ≠ l.1 → ∀ p, (req l.1).Moves (s.writes l.1) l.2 p → ¬ (req j).Held (s.writes j).pc p

theorem call_pc (fits : r.Fits) (garbage : Nat → UInt8) : (r.call garbage).pc = .memalign := by
  have size := fits.size
  rw [call]
  simp only
  rw [if_neg (by omega)]

omit [DecidableEq ι] in
theorem Content.start (fits : ∀ i, (req i).Fits) (f₀ : File) (garbage : ι → Nat → UInt8) :
    Content req f₀ (inFlight req f₀ garbage) := by
  have pc : ∀ i, ((inFlight req f₀ garbage).writes i).pc = .memalign :=
    fun i => call_pc (fits i) (garbage i)
  refine ⟨fun i => ⟨fun p held => ?_, fun done loop => ?_⟩, fun i p written => ?_, fun p _ => rfl⟩
  · rw [pc] at held
    exact held.2.2.elim
  · rw [pc] at loop
    cases loop
  · rw [pc] at written
    have start := (req i).start_add_head
    have low := written.1.1
    have high : p < (req i).start + 0 := written.2
    omega

/-- **A step keeps the bytes of the file in order**, if it does not disturb another
write and cuts off zeros only. -/
theorem Content.step (fits : ∀ i, (req i).Fits)
    (apart : ∀ i j, i ≠ j → ∀ p, (req i).Range p → ¬ (req j).Range p)
    (content : Content req f₀ s) (full : FullRead (s.writes i) a)
    (undisturbed : Undisturbed req s (i, a)) (cuts : CutsZeros s.file (s.writes i) a)
    (step : (writers req).step s (i, a) = some s') (alive : Alive s') : Content req f₀ s' := by
  obtain ⟨effect, others⟩ := writers_step step
  have own := content.locals i
  have byte := own.step_byte cuts effect (alive i)
  have writtenIff := effect.written_iff (fits i) (alive i)
  have moves : ∀ p, (req i).Moves (s.writes i) a p → (req i).Range p := by
    rintro p ⟨done, n, -, -, range, -⟩
    exact range
  refine ⟨fun j => ?_, fun j p written => ?_, fun p unwritten => ?_⟩
  · by_cases here : j = i
    · subst here
      exact own.step (fits j) full effect
    · rw [others j here]
      exact (content.locals j).congr fun p held =>
        (byte p).2 fun moved => undisturbed j here p moved held
  · by_cases here : j = i
    · subst here
      by_cases moved : (req j).Moves (s.writes j) a p
      · exact (byte p).1 moved
      · rw [(byte p).2 moved]
        exact content.written j p (((writtenIff p).mp written).resolve_right moved)
    · rw [others j here] at written
      rw [(byte p).2 fun moved => apart i j (Ne.symm here) p (moves p moved) written.1]
      exact content.written j p written
  · have notMoved : ¬ (req i).Moves (s.writes i) a p := fun moved =>
      unwritten i ((writtenIff p).mpr (.inr moved))
    rw [(byte p).2 notMoved]
    refine content.kept p fun j written => unwritten j ?_
    by_cases here : j = i
    · subst here
      exact (writtenIff p).mpr (.inl written)
    · rwa [others j here]

end System

end OpenDS.Common
