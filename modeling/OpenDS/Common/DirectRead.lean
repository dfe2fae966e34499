import OpenDS.Common.SingleWrite

/-!
# The direct read of `opends_common.c`

`opends_direct_pread` reads the whole blocks around a range into a bounce buffer, going
on until it has them all or the file ends, and copies the range out of the buffer. Its
system calls are the steps of a machine, as those of the direct write are.

On every file and every schedule of transfers the read is the plain read of its range
(`directPread_correct`).
-/

set_option autoImplicit false

namespace OpenDS.Common

open OpenDS.Library

/-- The arguments of `opends_direct_pread`: the address of the destination, the size and
the offset, which is not negative. -/
structure ReadRequest where
  dst : Nat
  size : Nat
  off : Nat

/-- Where `opends_direct_pread` stands: the next call it makes, or its result. -/
inductive ReadPc where
  | memalign
  | pread (got : Nat)
  | out (ret : Int)
  deriving DecidableEq, Repr

/-- The locals of `opends_direct_pread`, and the memory of its caller. -/
structure ReadState where
  pc : ReadPc
  bounce : Nat → UInt8
  mem : Nat → UInt8

namespace ReadRequest

variable (r : ReadRequest)

/-- `off & ~(OPENDS_DIRECT_ALIGN - 1)`. -/
def start : Nat := r.off - (r.off &&& (directAlign - 1))

/-- `off - start`. -/
def head : Nat := r.off - r.start

/-- `(head + size + OPENDS_DIRECT_ALIGN - 1) & ~(OPENDS_DIRECT_ALIGN - 1)`. -/
def span : Nat :=
  let rounded := (r.head + r.size + (directAlign - 1)) % 2 ^ 64
  rounded - (rounded &&& (directAlign - 1))

/-- A call of the function. What `posix_memalign` will leave in the buffer is
arbitrary. -/
def call (garbage mem : Nat → UInt8) : ReadState :=
  ⟨if r.size = 0 then .out 0 else .memalign, garbage, mem⟩

/-- The memory with `n` bytes of the buffer from `head` on copied to the destination. -/
def deliver (n : Nat) (bounce mem : Nat → UInt8) : Nat → UInt8 := fun k =>
  if r.dst ≤ k ∧ k < r.dst + n then bounce (r.head + (k - r.dst)) else mem k

/-- The code past the read loop. -/
def finish (w : ReadState) (got : Nat) : ReadState :=
  if r.head < got then
    let n := min (got - r.head) r.size
    { w with mem := r.deliver n w.bounce w.mem, pc := .out (ssize n) }
  else { w with pc := .out 0 }

/-- The head of the read loop. -/
def enterLoop (w : ReadState) (got : Nat) : ReadState :=
  if got < r.span then { w with pc := .pread got } else r.finish w got

/-- One step of `opends_direct_pread`: its next call, with the kernel's answer. -/
def step (a : Answer) (f : File) (w : ReadState) : ReadState :=
  match w.pc, a with
  | .memalign, .ok _ => r.enterLoop w 0
  | .memalign, _ => { w with pc := .out (-enomem) }
  | .pread got, .ok n =>
    let moved := f.available (r.start + got) (min n (r.span - got))
    if moved = 0 then r.finish w got
    else
      r.enterLoop
        { w with bounce := fun k =>
            if got ≤ k ∧ k < got + moved then f.byte (r.start + k) else w.bounce k }
        (got + moved)
  | .pread _, .interrupted => w
  | .pread _, .fails errno _ => { w with pc := .out (-errno) }
  | .out _, _ => w

/-! ## The geometry of a request -/

/-- The write of the same range, which has the same blocks. -/
def asWrite : WriteRequest := ⟨false, fun _ => 0, r.size, r.off⟩

variable {r : ReadRequest}

theorem start_add_head (r : ReadRequest) : r.start + r.head = r.off := r.asWrite.start_add_head

theorem span_bounds (size : 0 < r.size) (representable : r.off + r.size + 4095 < 2 ^ 63) :
    r.head + r.size ≤ r.span := by
  have fits : r.asWrite.Fits := ⟨size, representable⟩
  have tail := fits.shape.tail
  change r.head + r.size + r.asWrite.tail = r.span at tail
  omega

end ReadRequest

open ReadRequest

variable {r : ReadRequest} {f : File} {w : ReadState} {mem garbage : Nat → UInt8}

/-! ## What has been read -/

/-- How many bytes of the range the file has. -/
def ReadRequest.available (r : ReadRequest) (f : File) : Nat := f.available r.off r.size

/-- The memory of the caller holds the bytes of the range that the file has, and is
otherwise as it was. -/
structure Delivered (r : ReadRequest) (f : File) (mem mem' : Nat → UInt8) : Prop where
  range : ∀ k, k < r.available f → mem' (r.dst + k) = f.byte (r.off + k)
  outside : ∀ p, ¬ (r.dst ≤ p ∧ p < r.dst + r.available f) → mem' p = mem p

/-- What holds of a read whose calls go through: the buffer has the bytes of the file,
the memory is untouched, and in the end the range is delivered. -/
inductive Reads (r : ReadRequest) (f : File) (mem : Nat → UInt8) : ReadState → Prop where
  | memalign (bounce : Nat → UInt8) : 0 < r.size → Reads r f mem ⟨.memalign, bounce, mem⟩
  | pread (bounce : Nat → UInt8) (got : Nat) : 0 < r.size → got < r.span →
      (got = 0 ∨ r.start + got ≤ f.length) →
      (∀ k, k < got → bounce k = f.byte (r.start + k)) → Reads r f mem ⟨.pread got, bounce, mem⟩
  | out (bounce mem' : Nat → UInt8) : Delivered r f mem mem' →
      Reads r f mem ⟨.out (r.available f), bounce, mem'⟩

/-- The call goes through: a read before the end of the file moves at least one byte, and
only reads are interrupted. -/
def ReadsThrough (r : ReadRequest) (f : File) (w : ReadState) : Answer → Prop
  | .ok n => ∀ got, w.pc = .pread got → r.start + got < f.length → 0 < n
  | .interrupted => w.pc ≠ .memalign
  | .fails _ _ => False

theorem Delivered.of_none (none : r.available f = 0) : Delivered r f mem mem :=
  ⟨fun k low => by omega, fun _ _ => rfl⟩

/-- **The end of the loop.** When the buffer has what the file has of the blocks, the
range is delivered. -/
theorem Reads.finish (representable : r.off + r.size + 4095 < 2 ^ 63) {bounce : Nat → UInt8}
    {got : Nat} {pc : ReadPc} (size : 0 < r.size)
    (read : ∀ k, k < got → bounce k = f.byte (r.start + k))
    (within : got = 0 ∨ r.start + got ≤ f.length)
    (all : got = r.span ∨ f.length ≤ r.start + got) :
    Reads r f mem (r.finish ⟨pc, bounce, mem⟩ got) := by
  have start := r.start_add_head
  have span := span_bounds size representable
  by_cases reached : r.head < got
  · have count : min (got - r.head) r.size = r.available f := by
      simp only [ReadRequest.available, ByteFile.available]
      omega
    have small : r.available f ≤ r.size := by omega
    rw [ReadRequest.finish, if_pos reached]
    simp only [count]
    rw [ssize_of_lt (by omega)]
    refine .out bounce _ ⟨fun k low => ?_, fun p outside => if_neg outside⟩
    have inRange : r.dst ≤ r.dst + k ∧ r.dst + k < r.dst + r.available f := by omega
    rw [deliver, if_pos inRange, Nat.add_sub_cancel_left, read _ (by omega)]
    congr 1
    omega
  · have none : r.available f = 0 := by
      simp only [ReadRequest.available, ByteFile.available]
      omega
    rw [ReadRequest.finish, if_neg reached]
    have unchanged : Delivered r f mem mem := Delivered.of_none none
    have result := Reads.out bounce mem unchanged
    rw [none] at result
    exact result

theorem Reads.enterLoop (representable : r.off + r.size + 4095 < 2 ^ 63) {bounce : Nat → UInt8}
    {got : Nat} {pc : ReadPc} (size : 0 < r.size)
    (read : ∀ k, k < got → bounce k = f.byte (r.start + k))
    (within : got = 0 ∨ r.start + got ≤ f.length) (inSpan : got ≤ r.span) :
    Reads r f mem (r.enterLoop ⟨pc, bounce, mem⟩ got) := by
  unfold ReadRequest.enterLoop
  split
  · rename_i more
    exact .pread bounce got size more within read
  · exact .finish representable size read within (.inl (by omega))

/-- **A step of a read whose calls go through.** -/
theorem Reads.step (representable : r.off + r.size + 4095 < 2 ^ 63) (reads : Reads r f mem w)
    {a : Answer} (goes : ReadsThrough r f w a) : Reads r f mem (r.step a f w) := by
  cases reads with
  | memalign bounce size =>
      cases a with
      | ok n => exact .enterLoop representable size nofun (.inl rfl) (Nat.zero_le _)
      | interrupted => exact absurd rfl goes
      | fails errno set => exact goes.elim
  | pread bounce got size more within read =>
      cases a with
      | ok n =>
          have moving := goes got rfl
          have moved : f.available (r.start + got) (min n (r.span - got)) =
              min (min n (r.span - got)) (f.length - (r.start + got)) := rfl
          simp only [ReadRequest.step]
          split
          · exact .finish representable size read within (.inr (by omega))
          · refine .enterLoop representable size (fun k low => ?_) (.inr (by omega)) (by omega)
            by_cases here : got ≤ k ∧ k < got + f.available (r.start + got) (min n (r.span - got))
            · exact if_pos here
            · simp only [if_neg here]
              exact read k (by omega)
      | interrupted => exact .pread bounce got size more within read
      | fails errno set => exact goes.elim
  | out bounce mem' delivered => exact .out bounce mem' delivered

/-! ## The function returns -/

/-- How many calls that go through the read can still make. -/
def ReadRequest.rank (r : ReadRequest) : ReadPc → Nat
  | .memalign => r.span + 2
  | .pread got => r.span - got + 1
  | .out _ => 0

theorem rank_finish (r : ReadRequest) (w : ReadState) (got : Nat) :
    r.rank (r.finish w got).pc = 0 := by
  unfold finish
  split <;> rfl

theorem rank_readLoop (r : ReadRequest) (w : ReadState) (got : Nat) :
    r.rank (r.enterLoop w got).pc ≤ r.span - got + 1 := by
  unfold ReadRequest.enterLoop
  split
  · exact Nat.le_refl _
  · rw [rank_finish]
    exact Nat.zero_le _

/-- **Every call that goes through brings the read closer to its end**, and an
interrupted one leaves it where it is. -/
theorem Reads.rank (reads : Reads r f mem w) {a : Answer} (goes : ReadsThrough r f w a) :
    r.rank (r.step a f w).pc ≤ r.rank w.pc ∧
      (a.isOk = true → r.rank (r.step a f w).pc ≤ r.rank w.pc - 1) := by
  have closer : r.rank (r.step a f w).pc ≤ r.rank w.pc - 1 →
      r.rank (r.step a f w).pc ≤ r.rank w.pc ∧
        (a.isOk = true → r.rank (r.step a f w).pc ≤ r.rank w.pc - 1) :=
    fun less => ⟨Nat.le_trans less (Nat.sub_le _ _), fun _ => less⟩
  cases reads with
  | memalign bounce size =>
      cases a with
      | ok n =>
          refine closer ?_
          have loop := rank_readLoop r ⟨.memalign, bounce, mem⟩ 0
          change r.rank (r.enterLoop ⟨.memalign, bounce, mem⟩ 0).pc ≤ r.span + 2 - 1
          omega
      | interrupted => exact absurd rfl goes
      | fails errno set => exact goes.elim
  | pread bounce got size more within read =>
      cases a with
      | ok n =>
          refine closer ?_
          simp only [ReadRequest.step]
          split
          · rw [rank_finish]
            exact Nat.zero_le _
          · refine Nat.le_trans (rank_readLoop r _ _) ?_
            change _ ≤ r.span - got + 1 - 1
            omega
      | interrupted => exact ⟨Nat.le_refl _, fun ok => by cases ok⟩
      | fails errno set => exact goes.elim
  | out bounce mem' delivered => exact closer (Nat.zero_le _)

/-- A read of a file: its steps, with the answers of the kernel. -/
def reader (r : ReadRequest) (f : File) : Machine ReadState Answer where
  step w a := some (r.step a f w)

/-- The calls of a run that go through count down the rank. -/
theorem Reads.run (representable : r.off + r.size + 4095 < 2 ^ 63) (labels : List Answer)
    (reads : Reads r f mem w) (goes : (reader r f).Meets (ReadsThrough r f) labels w) :
    ∃ w', (reader r f).run labels w = some w' ∧ Reads r f mem w' ∧
      r.rank w'.pc ≤ r.rank w.pc - labels.countP (fun a => a.isOk) := by
  induction labels generalizing w with
  | nil => exact ⟨w, rfl, reads, Nat.le_refl _⟩
  | cons a rest ih =>
      have rank := reads.rank goes.1
      obtain ⟨w', ran, final, below⟩ := ih (reads.step representable goes.1) (goes.2 _ rfl)
      refine ⟨w', ran, final, ?_⟩
      cases a with
      | ok n =>
          have less := rank.2 rfl
          rw [List.countP_cons_of_pos rfl]
          omega
      | interrupted | fails =>
          have kept := rank.1
          rw [List.countP_cons_of_neg Bool.false_ne_true]
          omega

theorem Reads.rank_eq_zero (reads : Reads r f mem w) (none : r.rank w.pc = 0) :
    w.pc = .out (r.available f) := by
  cases reads with
  | memalign | pread => simp [ReadRequest.rank] at none
  | out => rfl

theorem Reads.of_out (reads : Reads r f mem w) {ret : Int} (out : w.pc = .out ret) :
    ret = r.available f ∧ Delivered r f mem w.mem := by
  cases reads with
  | memalign | pread => cases out
  | out bounce mem' delivered =>
      cases out
      exact ⟨rfl, delivered⟩

theorem Reads.untouched (reads : Reads r f mem w) {p : Nat}
    (outside : ¬ (r.dst ≤ p ∧ p < r.dst + r.available f)) : w.mem p = mem p := by
  cases reads with
  | memalign | pread => rfl
  | out bounce mem' delivered => exact delivered.outside p outside

/-- The call of a read. -/
theorem Reads.call (f : File) (garbage mem : Nat → UInt8) : Reads r f mem (r.call garbage mem) := by
  by_cases none : r.size = 0
  · have empty : r.available f = 0 := by
      simp only [ReadRequest.available, ByteFile.available, none, Nat.zero_min]
    have unchanged : Delivered r f mem mem := Delivered.of_none empty
    have result := Reads.out garbage mem unchanged
    rw [empty] at result
    rw [ReadRequest.call, if_pos none]
    exact result
  · rw [ReadRequest.call, if_neg none]
    exact .memalign garbage (Nat.pos_of_ne_zero none)

/-! ## Outside the range -/

theorem finish_outside (w : ReadState) (got : Nat) {p : Nat}
    (outside : ¬ (r.dst ≤ p ∧ p < r.dst + r.size)) : (r.finish w got).mem p = w.mem p := by
  unfold ReadRequest.finish
  split
  · exact if_neg fun inside => outside (by omega)
  · rfl

theorem enterLoop_outside (w : ReadState) (got : Nat) {p : Nat}
    (outside : ¬ (r.dst ≤ p ∧ p < r.dst + r.size)) : (r.enterLoop w got).mem p = w.mem p := by
  unfold ReadRequest.enterLoop
  split
  · rfl
  · exact finish_outside w got outside

/-- **A read writes inside its range**, whatever the kernel answers. -/
theorem reader_outside {labels : List Answer} {w' : ReadState} {p : Nat}
    (outside : ¬ (r.dst ≤ p ∧ p < r.dst + r.size))
    (ran : (reader r f).run labels w = some w') : w'.mem p = w.mem p := by
  have keeps : ∀ (u : ReadState) (a : Answer) (u' : ReadState), u.mem p = w.mem p →
      (reader r f).step u a = some u' → u'.mem p = w.mem p := by
    intro u a u' same step
    cases step
    refine Eq.trans ?_ same
    unfold ReadRequest.step
    split
    · exact enterLoop_outside u 0 outside
    · rfl
    · rename_i got n pc
      dsimp only
      split
      · exact finish_outside u got outside
      · exact enterLoop_outside _ _ outside
    · rfl
    · rfl
    · rfl
  exact (reader r f).run_invariant_of_step keeps rfl ran

/-- **A direct read is the plain read of its range.** On every file, for every request
and every schedule of short transfers and interrupted calls, the function returns after
at most `span + 2` calls that go through; it returns the number of bytes that the file
has of the range, it has written these bytes to the destination, and at no point has it
touched any other byte of the memory. -/
theorem directPread_correct (r : ReadRequest) (representable : r.off + r.size + 4095 < 2 ^ 63)
    (f : File) (garbage mem : Nat → UInt8) (labels : List Answer)
    (goes : (reader r f).Meets (ReadsThrough r f) labels (r.call garbage mem)) :
    ∃ w, (reader r f).run labels (r.call garbage mem) = some w ∧
      (∀ ret, w.pc = .out ret → ret = min r.size (f.length - r.off) ∧
        ∀ k, k < min r.size (f.length - r.off) → w.mem (r.dst + k) = f.byte (r.off + k)) ∧
      (∀ p, ¬ (r.dst ≤ p ∧ p < r.dst + min r.size (f.length - r.off)) → w.mem p = mem p) ∧
      (r.span + 2 ≤ labels.countP (fun a => a.isOk) → ∃ ret, w.pc = .out ret) := by
  obtain ⟨w, ran, reads, rank⟩ := (Reads.call f garbage mem).run representable labels goes
  refine ⟨w, ran, fun ret out => ?_, fun p outside => reads.untouched outside, fun enough => ?_⟩
  · obtain ⟨result, delivered⟩ := reads.of_out out
    exact ⟨result, delivered.range⟩
  · have first : r.rank (r.call garbage mem).pc ≤ r.span + 2 := by
      unfold ReadRequest.call
      split
      · exact Nat.zero_le _
      · exact Nat.le_refl _
    exact ⟨_, reads.rank_eq_zero (by omega)⟩

/-- A read of a range that begins inside the first block and ends past the file. -/
def edgeRead : ReadRequest := ⟨1000, 5000, 100⟩

/-- Two hundred bytes, each its position. -/
def countingFile : File :=
  ⟨200, fun p => if p < 200 then UInt8.ofNat p else 0, fun _ past => if_neg (Nat.not_lt.mpr past)⟩

/-- Its calls: the first read is interrupted, the next ones stop inside the file and at
its end. -/
def edgeReads : List Answer := [.ok 1, .interrupted, .ok 150, .ok 8192, .ok 8192]

/-- Each call moves a byte, but for an interrupted read. -/
def movesOn (w : ReadState) : Answer → Bool
  | .ok n => decide (0 < n)
  | .interrupted => decide (w.pc ≠ .memalign)
  | .fails _ _ => false

theorem readsThrough_of_movesOn {r : ReadRequest} {f : File} (w : ReadState) (a : Answer)
    (moves : movesOn w a = true) : ReadsThrough r f w a := by
  cases a with
  | ok n => exact fun _ _ _ => of_decide_eq_true moves
  | interrupted =>
      have past : w.pc ≠ .memalign := of_decide_eq_true moves
      exact past
  | fails errno set => cases moves

/-- The read of 5000 bytes from the hundredth on gives the last hundred of two hundred. -/
theorem directPread_correct_edgeRead :
    ∃ w, (reader edgeRead countingFile).run edgeReads (edgeRead.call (fun _ => 0) fun _ => 9) =
        some w ∧ w.pc = .out 100 ∧ (∀ k, k < 100 → w.mem (1000 + k) = countingFile.byte (100 + k)) ∧
      ∀ p, 1100 ≤ p → w.mem p = 9 := by
  have goes : (reader edgeRead countingFile).Meets (ReadsThrough edgeRead countingFile) edgeReads
      (edgeRead.call (fun _ => 0) fun _ => 9) :=
    Machine.meets_of_check readsThrough_of_movesOn (by decide +kernel)
  obtain ⟨w, ran, result, outside, -⟩ := directPread_correct edgeRead (by decide) countingFile
    (fun _ => 0) (fun _ => 9) edgeReads goes
  have returned : ((reader edgeRead countingFile).run edgeReads
      (edgeRead.call (fun _ => 0) fun _ => 9)).map ReadState.pc = some (.out 100) := by
    decide +kernel
  rw [ran] at returned
  have out : w.pc = .out 100 := Option.some.inj returned
  refine ⟨w, ran, out, (result 100 out).2, fun p past => outside p fun inside => ?_⟩
  have high := inside.2
  change p < 1000 + 100 at high
  omega

end OpenDS.Common
