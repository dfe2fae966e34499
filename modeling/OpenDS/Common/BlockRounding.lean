import OpenDS.Common.DirectRead

/-!
# Rounding to blocks

The direct calls and the allocation of the reference backend round a size up to whole
blocks in `size_t`. Where the rounded size fits, the range of a request lies in the bounce
buffer, and so does everything the calls touch. Where it wraps, the buffer is smaller than
the range, and nothing checks for it (`blockRounding_iff`).
-/

set_option autoImplicit false

namespace OpenDS.Common

open OpenDS.Library

/-! ## What the calls touch -/

/-- A range of a buffer. -/
structure BufferRange where
  pos : Nat
  length : Nat
  deriving DecidableEq, Repr

/-- The range lies in a buffer of that many bytes. -/
def BufferRange.Inside (x : BufferRange) (bytes : Nat) : Prop := x.pos + x.length ≤ bytes

/-- The range of the bounce buffer that the next call of a write is given. -/
def WriteRequest.touches (r : WriteRequest) (w : WriteState) : List BufferRange :=
  match w.pc with
  | .readHead => [⟨0, directAlign⟩]
  | .readTail => [⟨r.last, directAlign⟩]
  | .copy => [⟨r.head, r.size⟩]
  | .pwrite done => [⟨done, r.span - done⟩]
  | _ => []

/-- The range that a read copies out of its bounce buffer. -/
def ReadRequest.copied (r : ReadRequest) (got : Nat) : List BufferRange :=
  if r.head < got then [⟨r.head, min (got - r.head) r.size⟩] else []

/-- The range of the bounce buffer that the next call of a read is given, and the one
that is copied out past it. -/
def ReadRequest.touches (r : ReadRequest) (a : Answer) (f : File) (w : ReadState) :
    List BufferRange :=
  match w.pc, a with
  | .memalign, .ok _ => if 0 < r.span then [] else r.copied 0
  | .pread got, .ok n =>
    let moved := f.available (r.start + got) (min n (r.span - got))
    ⟨got, r.span - got⟩ ::
      (if moved = 0 then r.copied got else if got + moved < r.span then [] else r.copied (got + moved))
  | .pread got, _ => [⟨got, r.span - got⟩]
  | _, _ => []

/-- A call with what it has touched of its bounce buffer. -/
structure Touching (σ : Type) where
  locals : σ
  touched : List BufferRange

/-- A write, one call of the kernel after the other, on whatever file the call finds. -/
def touchingWrite (r : WriteRequest) : Machine (Touching WriteState) (Answer × File) where
  step s l := some ⟨(r.step l.1 l.2 s.locals).2, s.touched ++ r.touches s.locals⟩

/-- A read in the same way. -/
def touchingRead (r : ReadRequest) : Machine (Touching ReadState) (Answer × File) where
  step s l := some ⟨r.step l.1 l.2 s.locals, s.touched ++ r.touches l.1 l.2 s.locals⟩

/-- **The rounding of a write does not wrap**: in every run the write fails and touches
nothing, or its range lies in the bounce buffer and all it touches does. -/
def WriteRequest.Rounds (r : WriteRequest) : Prop :=
  ∀ garbage labels s, (touchingWrite r).run labels ⟨r.call garbage, []⟩ = some s →
    (s.touched = [] ∧ ∀ ret, s.locals.pc = .out ret → ret < 0) ∨
      (r.head + r.size ≤ r.span ∧ ∀ x ∈ s.touched, x.Inside r.span)

/-- **The rounding of a read does not wrap**, and the read gives no more than was asked
for. -/
def ReadRequest.Rounds (r : ReadRequest) : Prop :=
  ∀ garbage mem labels s, (touchingRead r).run labels ⟨r.call garbage mem, []⟩ = some s →
    (s.touched = [] ∧ ∀ ret, s.locals.pc = .out ret → ret < 0) ∨
      (r.head + r.size ≤ r.span ∧ (∀ x ∈ s.touched, x.Inside r.span) ∧
        ∀ ret, s.locals.pc = .out ret → ret ≤ r.size)

/-! ## The allocation of the reference backend -/

/-- A block of memory. -/
structure Block where
  addr : Nat
  length : Nat
  deriving DecidableEq, Repr

/-- `ALIGN_UP(x, 4096)` of a `size_t`. -/
def alignUp (x : Nat) : Nat :=
  let rounded := (x + directAlign - 1) % 2 ^ 64
  rounded - (rounded &&& (directAlign - 1))

/-- `opends_alloc`, with the `aligned_alloc` of the library. -/
def opendsAlloc (alignedAlloc : Nat → Nat → Option Block) (size : Nat) : Option Block :=
  alignedAlloc 4096 (alignUp size)

/-- What `aligned_alloc` promises. -/
def GivesRoom (alignedAlloc : Nat → Nat → Option Block) : Prop :=
  ∀ alignment size b, alignedAlloc alignment size = some b → size ≤ b.length

/-- **The rounding of an allocation does not wrap**: what it returns has room. -/
def AllocRounds (size : Nat) : Prop :=
  ∀ alignedAlloc, GivesRoom alignedAlloc → ∀ b, opendsAlloc alignedAlloc size = some b →
    size ≤ b.length

/-! ## Spans -/

variable {r : WriteRequest} {q : ReadRequest}

/-- The span of a range whose rounded size fits, and of one whose rounded size does not. -/
theorem WriteRequest.span_cases (r : WriteRequest) (size : r.size < 2 ^ 64) :
    (r.head + r.size + 4095 < 2 ^ 64 ∧ r.head + r.size ≤ r.span ∧
        r.span < r.head + r.size + 4096) ∨
      (2 ^ 64 ≤ r.head + r.size + 4095 ∧ r.span ≤ 4096) := by
  have head := r.head_lt
  have span : r.span = (r.head + r.size + 4095) % 2 ^ 64 -
      (r.head + r.size + 4095) % 2 ^ 64 % 4096 := by
    simp only [WriteRequest.span, and_block_mask]
    simp only [directAlign]
  by_cases fits : r.head + r.size + 4095 < 2 ^ 64
  · refine .inl ⟨fits, ?_, ?_⟩
    · omega
    · omega
  · refine .inr ⟨by omega, ?_⟩
    omega

theorem alignUp_eq (x : Nat) : alignUp x = (x + 4095) % 2 ^ 64 - (x + 4095) % 2 ^ 64 % 4096 := by
  simp only [alignUp, WriteRequest.and_block_mask]
  simp only [directAlign]
  rfl

/-- A span is a whole number of blocks. -/
theorem WriteRequest.span_mod (r : WriteRequest) : r.span % 4096 = 0 := by
  simp only [WriteRequest.span, and_block_mask]
  omega

/-! ## Writes -/

/-- A write whose range lies in its buffer touches nothing else. -/
theorem WriteRequest.touches_inside (size : 0 < r.size) (room : r.head + r.size ≤ r.span)
    {w : WriteState} (formed : Formed r w) : ∀ x ∈ r.touches w, x.Inside r.span := by
  have whole := r.span_mod
  have last : r.last + 4096 = r.span ∨ 2 ^ 64 ≤ r.span := by
    simp only [WriteRequest.last, directAlign]
    omega
  have bound : r.span < 2 ^ 64 :=
    Nat.lt_of_le_of_lt (Nat.sub_le _ _) (Nat.mod_lt _ (by decide))
  intro x member
  unfold touches at member
  split at member
  · obtain rfl := List.mem_singleton.mp member
    change 0 + directAlign ≤ r.span
    simp only [directAlign]
    omega
  · obtain rfl := List.mem_singleton.mp member
    change r.last + directAlign ≤ r.span
    simp only [directAlign]
    omega
  · obtain rfl := List.mem_singleton.mp member
    exact room
  · rename_i done pc
    obtain rfl := List.mem_singleton.mp member
    have more := formed.loop done pc
    change done + (r.span - done) ≤ r.span
    omega
  · cases member

theorem WriteRequest.rounds_of_room (room : r.head + r.size ≤ r.span) : r.Rounds := by
  intro garbage labels s ran
  refine .inr ⟨room, ?_⟩
  by_cases none : r.size = 0
  · -- A write of nothing returns at once.
    have keeps : ∀ (s : Touching WriteState) l s',
        ((∃ ret, s.locals.pc = .out ret) ∧ s.touched = []) → (touchingWrite r).step s l = some s' →
        (∃ ret, s'.locals.pc = .out ret) ∧ s'.touched = [] := by
      rintro s l s' ⟨⟨ret, out⟩, nothing⟩ step
      cases step
      simp [step, WriteRequest.step, out, nothing, touches]
    have start : (∃ ret, (r.call garbage).pc = .out ret) ∧ ([] : List BufferRange) = [] :=
      ⟨⟨0, by simp [call, none]⟩, rfl⟩
    obtain ⟨-, nothing⟩ := Machine.run_invariant_of_step keeps start ran
    rw [nothing]
    exact List.forall_mem_nil _
  · have keeps : ∀ (s : Touching WriteState) l s',
        (Formed r s.locals ∧ ∀ x ∈ s.touched, x.Inside r.span) →
        (touchingWrite r).step s l = some s' →
        Formed r s'.locals ∧ ∀ x ∈ s'.touched, x.Inside r.span := by
      rintro s l s' ⟨formed, inside⟩ step
      cases step
      refine ⟨formed.step (r.step_effect l.1 l.2 s.locals), fun x member => ?_⟩
      rcases List.mem_append.mp member with old | new
      · exact inside x old
      · exact r.touches_inside (Nat.pos_of_ne_zero none) room formed x new
    have start : Formed r (r.call garbage) ∧ ∀ x ∈ ([] : List BufferRange), x.Inside r.span :=
      ⟨Formed.call r garbage, List.forall_mem_nil _⟩
    exact (Machine.run_invariant_of_step keeps start ran).2

/-- The write can go on to touch its bounce buffer. -/
def WriteRequest.CanTouch (r : WriteRequest) (w : WriteState) : Prop :=
  ∃ labels s, (touchingWrite r).run labels ⟨w, []⟩ = some s ∧ s.touched ≠ []

theorem WriteRequest.CanTouch.now {w : WriteState} (touches : r.touches w ≠ []) :
    r.CanTouch w :=
  ⟨[(.ok 0, emptyFile)], _, rfl, by simpa using touches⟩

theorem WriteRequest.CanTouch.later {w : WriteState} (none : r.touches w = [])
    (next : r.CanTouch (r.step (.ok 0) emptyFile w).2) : r.CanTouch w := by
  obtain ⟨labels, s, ran, touched⟩ := next
  refine ⟨(.ok 0, emptyFile) :: labels, s, ?_, touched⟩
  simpa only [Machine.run_cons, touchingWrite, Option.bind_some, List.nil_append, none] using ran

theorem WriteRequest.canTouch_enterRead {w : WriteState} (pc : w.pc = r.enterRead) :
    r.CanTouch w := by
  refine .now ?_
  unfold enterRead afterHead at pc
  split at pc
  · simp [touches, pc]
  · split at pc <;> simp [touches, pc]

theorem WriteRequest.canTouch_enterFill {w : WriteState} (pc : w.pc = r.enterFill) :
    r.CanTouch w := by
  unfold enterFill at pc
  split at pc
  · split at pc
    · exact .later (by simp [touches, pc]) (canTouch_enterRead (by simp [step, pc]))
    · exact canTouch_enterRead pc
  · exact .now (by simp [touches, pc])

/-- A write that is given its buffer can go on to touch it. -/
theorem WriteRequest.canTouch_call (size : r.size ≠ 0) (garbage : Nat → UInt8) :
    r.CanTouch (r.call garbage) := by
  have called : (r.call garbage).pc = .memalign := by simp [call, size]
  generalize r.call garbage = w at called
  refine .later (by simp [touches, called]) ?_
  by_cases tail : r.tail = 0
  · exact canTouch_enterFill (by simp [step, called, tail])
  · have stat : (r.step (.ok 0) emptyFile w).2.pc = .fstat := by simp [step, called, tail]
    generalize (r.step (.ok 0) emptyFile w).2 = w' at stat
    exact .later (by simp [touches, stat]) (canTouch_enterFill (by simp [step, stat]))

/-- The rounding of a write goes right exactly if the rounded size fits. -/
theorem WriteRequest.rounds_iff (size : r.size < 2 ^ 64) :
    r.Rounds ↔ r.head + r.size + 4095 < 2 ^ 64 := by
  rcases r.span_cases size with ⟨fits, room, -⟩ | ⟨wraps, small⟩
  · exact ⟨fun _ => fits, fun _ => rounds_of_room room⟩
  · refine ⟨fun rounds => ?_, fun fits => absurd fits (by omega)⟩
    have head := r.head_lt
    obtain ⟨labels, s, ran, touched⟩ := r.canTouch_call (by omega) fun _ => 0
    rcases rounds _ labels s ran with ⟨none, -⟩ | ⟨room, -⟩
    · exact absurd none touched
    · omega

/-! ## Reads -/

theorem ssize_le (n : Nat) : ssize n ≤ n := by
  unfold ssize
  rw [Int.bmod_def]
  omega

/-- What holds of a read whose range lies in its buffer. -/
structure ReadsInside (q : ReadRequest) (s : Touching ReadState) : Prop where
  loop : ∀ got, s.locals.pc = .pread got → got < q.span
  result : ∀ ret, s.locals.pc = .out ret → ret ≤ q.size
  inside : ∀ x ∈ s.touched, x.Inside q.span

theorem ReadRequest.copied_inside {got : Nat} (upTo : got ≤ q.span) :
    ∀ x ∈ q.copied got, x.Inside q.span := by
  intro x member
  unfold copied at member
  split at member
  · obtain rfl := List.mem_singleton.mp member
    change q.head + min (got - q.head) q.size ≤ q.span
    omega
  · cases member

/-- Past the loop a read has copied no more than was asked for. -/
theorem ReadRequest.finish_result (w : ReadState) (got : Nat) :
    ∃ ret, (q.finish w got).pc = .out ret ∧ ret ≤ q.size := by
  unfold finish
  split
  · refine ⟨_, rfl, (ssize_le _).trans ?_⟩
    exact_mod_cast Nat.min_le_right _ _
  · exact ⟨0, rfl, Int.natCast_nonneg _⟩

/-- The head of the loop keeps a read inside its buffer. -/
theorem ReadRequest.enterLoop_inside (w : ReadState) (got : Nat) :
    (∀ got', (q.enterLoop w got).pc = .pread got' → got' < q.span) ∧
      ∀ ret, (q.enterLoop w got).pc = .out ret → ret ≤ q.size := by
  unfold enterLoop
  split
  · rename_i more
    exact ⟨fun got' pc => by cases pc; exact more, nofun⟩
  · obtain ⟨ret, out, bound⟩ := q.finish_result w got
    rw [out]
    exact ⟨nofun, fun ret' same => by cases same; exact bound⟩

theorem ReadsInside.step {s : Touching ReadState} (inside : ReadsInside q s) (a : Answer) (f : File) :
    ReadsInside q ⟨q.step a f s.locals, s.touched ++ q.touches a f s.locals⟩ := by
  have touched : (∀ x ∈ q.touches a f s.locals, x.Inside q.span) →
      ∀ x ∈ s.touched ++ q.touches a f s.locals, x.Inside q.span := by
    intro new x member
    rcases List.mem_append.mp member with old | here
    · exact inside.inside x old
    · exact new x here
  cases pc : s.locals.pc with
  | memalign =>
      cases a with
      | ok n =>
          have loop := q.enterLoop_inside s.locals 0
          refine ⟨by simpa only [ReadRequest.step, pc] using loop.1,
            by simpa only [ReadRequest.step, pc] using loop.2, touched ?_⟩
          simp only [ReadRequest.touches, pc]
          split
          · exact List.forall_mem_nil _
          · exact q.copied_inside (Nat.zero_le _)
      | interrupted | fails =>
          refine ⟨by simp [ReadRequest.step, pc], fun ret out => ?_,
            touched (by simp [ReadRequest.touches, pc])⟩
          simp only [ReadRequest.step, pc, ReadPc.out.injEq] at out
          simp only [enomem] at out
          omega
  | pread got =>
      have more := inside.loop got pc
      have call : BufferRange.Inside ⟨got, q.span - got⟩ q.span := by
        change got + (q.span - got) ≤ q.span
        omega
      cases a with
      | ok n =>
          have moved : f.available (q.start + got) (min n (q.span - got)) ≤ q.span - got :=
            (Nat.min_le_left _ _).trans (Nat.min_le_right _ _)
          refine ⟨?_, ?_, touched fun x member => ?_⟩
          · simp only [ReadRequest.step, pc]
            split
            · obtain ⟨ret, out, -⟩ := q.finish_result s.locals got
              rw [out]
              exact fun got' same => by cases same
            · exact (q.enterLoop_inside _ _).1
          · simp only [ReadRequest.step, pc]
            split
            · obtain ⟨ret, out, bound⟩ := q.finish_result s.locals got
              rw [out]
              exact fun ret' same => by cases same; exact bound
            · exact (q.enterLoop_inside _ _).2
          · simp only [ReadRequest.touches, pc, List.mem_cons] at member
            rcases member with rfl | copied
            · exact call
            · split at copied
              · exact q.copied_inside more.le x copied
              · split at copied
                · cases copied
                · exact q.copied_inside (by omega) x copied
      | interrupted =>
          refine ⟨?_, ?_, touched (by simpa [ReadRequest.touches, pc] using call)⟩
          · simp [ReadRequest.step, pc, more]
          · simp [ReadRequest.step, pc]
      | fails errno set =>
          refine ⟨by simp [ReadRequest.step, pc], fun ret out => ?_,
            touched (by simpa [ReadRequest.touches, pc] using call)⟩
          simp only [ReadRequest.step, pc, ReadPc.out.injEq] at out
          omega
  | out ret =>
      refine ⟨by simp [ReadRequest.step, pc], ?_, touched (by simp [ReadRequest.touches, pc])⟩
      simpa [ReadRequest.step, pc] using inside.result ret pc

theorem ReadRequest.rounds_of_room (room : q.head + q.size ≤ q.span) : q.Rounds := by
  intro garbage mem labels s ran
  have start : ReadsInside q ⟨q.call garbage mem, []⟩ := by
    unfold call
    split
    · refine ⟨nofun, fun ret out => ?_, nofun⟩
      cases out
      exact Int.natCast_nonneg _
    · exact ⟨nofun, nofun, nofun⟩
  have keeps : ∀ (s : Touching ReadState) l s', ReadsInside q s →
      (touchingRead q).step s l = some s' → ReadsInside q s' := by
    intro s l s' inside step
    cases step
    exact inside.step l.1 l.2
  have inside := Machine.run_invariant_of_step keeps start ran
  exact .inr ⟨room, inside.inside, inside.result⟩

/-- The rounding of a read goes right exactly if the rounded size fits. -/
theorem ReadRequest.rounds_iff (size : q.size < 2 ^ 64) :
    q.Rounds ↔ q.head + q.size + 4095 < 2 ^ 64 := by
  have head : q.head < 4096 := q.asWrite.head_lt
  rcases q.asWrite.span_cases size with ⟨fits, room, -⟩ | ⟨wraps, small⟩
  · exact ⟨fun _ => fits, fun _ => rounds_of_room room⟩
  · change 2 ^ 64 ≤ q.head + q.size + 4095 at wraps
    change q.span ≤ 4096 at small
    refine ⟨fun rounds => ?_, fun fits => absurd fits (by omega)⟩
    -- The read is given its buffer and goes on: it touches the buffer, or reports that it
    -- has read nothing.
    have called : (q.call (fun _ => 0) fun _ => 0).pc = .memalign := by
      simp only [call]
      rw [if_neg (by omega)]
    rcases rounds (fun _ => 0) (fun _ => 0) [(.ok 0, emptyFile), (.ok 0, emptyFile)] _ rfl with
      ⟨none, failed⟩ | ⟨room, -⟩
    · by_cases some : 0 < q.span
      · simp [ReadRequest.touches, ReadRequest.step, called, some, enterLoop] at none
      · have zero : q.span = 0 := by omega
        have out := failed 0 (by
          simp [ReadRequest.step, called, zero, enterLoop, finish])
        omega
    · omega

/-! ## The three places -/

theorem allocRounds_iff {size : Nat} (small : size < 2 ^ 64) :
    AllocRounds size ↔ size + 4095 < 2 ^ 64 := by
  have rounded := alignUp_eq size
  constructor
  · intro rounds
    have exact' : GivesRoom fun _ n => some ⟨4096, n⟩ := by
      intro _ n b given
      cases given
      exact Nat.le_refl _
    have room : size ≤ alignUp size := rounds _ exact' ⟨4096, alignUp size⟩ rfl
    omega
  · intro fits alignedAlloc gives b given
    have room := gives _ _ b given
    omega

/-- A write of the size -1 that Python hands on. -/
def wrappedWrite : WriteRequest := ⟨false, fun _ => 0, 2 ^ 64 - 1, 0⟩

end OpenDS.Common
