import OpenDS.Common.FailingWrite

/-!
# Short reads of the edge blocks

`read_block` makes one `pread` and takes what it does not get for bytes past the end of
the file. A kernel may transfer less than that: `opends_direct_pread` goes on until it
gets nothing, `read_block` puts zeros in place of the rest of its block, and a write
that succeeds writes them back.

A position of a block outside the range of the write is followed through the run: the
write holds the byte that it will put back there, and after that the file has it
(`Carries`). Of every run that returns its size, the old bytes are all there exactly if
each read gave all of its block outside the range but zeros (`shortReads_iff`).
-/

set_option autoImplicit false

namespace OpenDS.Common

open OpenDS.Library WriteRequest

variable {r : WriteRequest} {f f' f₀ : File} {w w' : WriteState} {a : Answer} {p : Nat} {v : UInt8}

/-- The call is the read of an edge block, and leaves out this position of it, which the
write does not replace. -/
def LeavesOut (r : WriteRequest) (w : WriteState) (a : Answer) (p : Nat) : Prop :=
  ¬ r.Range p ∧ ∃ n, a = .ok n ∧
    ((w.pc = .readHead ∧ r.start + n ≤ p ∧ p < r.start + directAlign) ∨
      (w.pc = .readTail ∧ r.start + r.last + n ≤ p ∧ p < r.start + r.last + directAlign))

/-- A read of an edge block leaves out nothing but zeros. -/
def LeavesOutZeros (r : WriteRequest) (f₀ : File) (w : WriteState) (a : Answer) : Prop :=
  ∀ p, LeavesOut r w a p → f₀.byte p = 0

/-- The write reads an edge block only where it replaces a part of it, and its last block
only once. -/
structure ReadsEdges (r : WriteRequest) (pc : WritePc) : Prop where
  head : pc = .readHead → r.head ≠ 0
  tail : pc = .readTail → r.tail ≠ 0 ∧ (r.last ≠ 0 ∨ r.head = 0)

/-- The write will put the byte `v` at a position: it holds it, or the file has it. -/
structure Carries (r : WriteRequest) (f : File) (w : WriteState) (p : Nat) (v : UInt8) : Prop where
  held : r.Held w.pc p → w.bounce (p - r.start) = v
  stored : ¬ r.Held w.pc p → f.byte p = v

/-! ## Which blocks are read -/

theorem readsEdges_afterHead (r : WriteRequest) : ReadsEdges r r.afterHead := by
  unfold afterHead
  split
  · rename_i tail
    exact ⟨nofun, fun _ => tail⟩
  · exact ⟨nofun, nofun⟩

theorem readsEdges_enterRead (r : WriteRequest) : ReadsEdges r r.enterRead := by
  unfold enterRead
  split
  · rename_i head
    exact ⟨fun _ => head, nofun⟩
  · exact readsEdges_afterHead r

theorem readsEdges_enterFill (r : WriteRequest) : ReadsEdges r r.enterFill := by
  unfold enterFill
  split
  · split
    · exact ⟨nofun, nofun⟩
    · exact readsEdges_enterRead r
  · exact ⟨nofun, nofun⟩

theorem readsEdges_enterLoop (r : WriteRequest) (truncTo : Option Nat) (done : Nat) :
    ReadsEdges r (r.enterLoop truncTo done) := by
  unfold enterLoop
  split
  · exact ⟨nofun, nofun⟩
  · cases truncTo <;> exact ⟨nofun, nofun⟩

theorem ReadsEdges.step (edges : ReadsEdges r w.pc) (effect : Effect r f w a f' w') :
    ReadsEdges r w'.pc := by
  cases effect with
  | idle a stays => exact edges
  | fails a ret negative retried moved => exact ⟨nofun, nofun⟩
  | memalign n pc =>
      simp only
      split
      · exact ⟨nofun, nofun⟩
      · exact readsEdges_enterFill r
  | fstat n pc => exact readsEdges_enterFill r
  | openRead n pc => exact readsEdges_enterRead r
  | readHead n pc => exact readsEdges_afterHead r
  | readTail n pc => exact ⟨nofun, nofun⟩
  | copy n pc => exact readsEdges_enterLoop r _ _
  | pwrite done n pc moved => exact readsEdges_enterLoop r _ _
  | ftruncate n file pc planned unplanned => exact ⟨nofun, nofun⟩

/-! ## What is put back -/

/-- What `read_block` puts at a position of its block: the byte of the file, or zero if
the read ended before it. -/
theorem readBlock_eq {pos base n : Nat} (bounce : Nat → UInt8) (low : pos ≤ p)
    (high : p < pos + directAlign) :
    readBlock f pos base n bounce (base + (p - pos)) = if pos + n ≤ p then 0 else f.byte p := by
  have inBlock : base ≤ base + (p - pos) ∧ base + (p - pos) < base + directAlign := by omega
  have position : pos + (p - pos) = p := by omega
  rw [readBlock, if_pos inBlock, Nat.add_sub_cancel_left, position, ByteFile.available]
  by_cases out : pos + n ≤ p
  · rw [if_pos out, if_neg (by omega)]
  · rw [if_neg out]
    by_cases inside : p < f.length
    · rw [if_pos (by omega)]
    · rw [if_neg (by omega), f.pastEnd p (Nat.le_of_not_lt inside)]

/-- A write in its fill has the byte at its position in the file or in its buffer. -/
theorem Carries.of_stored {pc : WritePc} {bounce : Nat → UInt8} {truncTo : Option Nat}
    (stored : f.byte p = v) (notHeld : ¬ r.Held pc p) : Carries r f ⟨pc, bounce, truncTo⟩ p v :=
  ⟨fun held => absurd held notHeld, fun _ => stored⟩

/-- Only the calls that read an edge block leave something out. -/
theorem not_leavesOut (head : w.pc ≠ .readHead) (tail : w.pc ≠ .readTail) :
    ¬ LeavesOut r w a p := by
  rintro ⟨-, n, -, ⟨pc, -⟩ | ⟨pc, -⟩⟩
  · exact head pc
  · exact tail pc

/-- Past the read of the first block what it read outside the range is held. -/
theorem held_afterHead_of_first (fits : r.Fits) (outside : ¬ r.Range p) (head : r.head ≠ 0)
    (low : r.start ≤ p) (high : p < r.start + directAlign) : r.Held r.afterHead p := by
  have last := fits.shape.last
  have touches : r.Touches p := ⟨low, by simp only [directAlign] at high; omega⟩
  by_cases second : r.tail ≠ 0 ∧ (r.last ≠ 0 ∨ r.head = 0)
  · rw [afterHead, if_pos second]
    exact ⟨touches, outside, head, high⟩
  · rw [afterHead, if_neg second]
    exact ⟨touches, outside, trivial⟩

/-- The read of the first block. -/
theorem Carries.readHead (fits : r.Fits) (outside : ¬ r.Range p) (edges : ReadsEdges r w.pc)
    (carries : Carries r f w p v) {n : Nat} (pc : w.pc = .readHead) {v' : UInt8}
    (left : LeavesOut r w (.ok n) p → v' = 0) (kept : ¬ LeavesOut r w (.ok n) p → v' = v) :
    Carries r f { w with bounce := readBlock f r.start 0 n w.bounce, pc := r.afterHead } p v' := by
  have stored : f.byte p = v := carries.stored fun held => by
    rw [pc] at held
    exact held.2.2
  by_cases out : LeavesOut r w (.ok n) p
  · obtain ⟨-, n', same, ⟨-, low, high⟩ | ⟨pc', -⟩⟩ := out
    · cases same
      have held := held_afterHead_of_first fits outside (edges.head pc) (by omega) high
      refine ⟨fun _ => ?_, fun notHeld => absurd held notHeld⟩
      have read : readBlock f r.start 0 n w.bounce (0 + (p - r.start)) = _ :=
        readBlock_eq w.bounce (by omega) high
      rw [Nat.zero_add, if_pos low] at read
      rw [left ⟨outside, n, rfl, .inl ⟨pc, low, high⟩⟩]
      exact read
    · rw [pc] at pc'
      cases pc'
  · obtain rfl := kept out
    refine ⟨fun held => ?_, fun _ => stored⟩
    have high := held_afterHead fits held
    have low : r.start ≤ p := held.1.1
    have read : readBlock f r.start 0 n w.bounce (0 + (p - r.start)) = _ :=
      readBlock_eq w.bounce low high
    rw [Nat.zero_add, if_neg fun short => out ⟨outside, n, rfl, .inl ⟨pc, short, high⟩⟩] at read
    exact read.trans stored

/-- The read of the last block. -/
theorem Carries.readTail (fits : r.Fits) (outside : ¬ r.Range p) (edges : ReadsEdges r w.pc)
    (carries : Carries r f w p v) {n : Nat} (pc : w.pc = .readTail) {v' : UInt8}
    (left : LeavesOut r w (.ok n) p → v' = 0) (kept : ¬ LeavesOut r w (.ok n) p → v' = v) :
    Carries r f
      { w with bounce := readBlock f (r.start + r.last) r.last n w.bounce, pc := .copy } p v' := by
  have shape := fits.shape
  have last := shape.last
  have lastMod := shape.spanMod
  have tailLt := shape.tailLt
  have bounds := fits.endOff_bounds
  have headLt := r.head_lt
  have start := r.start_add_head
  by_cases inLast : r.start + r.last ≤ p ∧ p < r.start + r.span
  · -- A position of the last block is read here for the first time.
    have notHeld : ¬ r.Held w.pc p := by
      rw [pc]
      rintro ⟨-, -, head, first⟩
      simp only [directAlign] at first
      rcases (edges.tail pc).2 with second | noHead
      · omega
      · exact head noHead
    have stored : f.byte p = v := carries.stored notHeld
    have high : p < r.start + r.last + directAlign := by
      simp only [directAlign]
      omega
    have position : r.last + (p - (r.start + r.last)) = p - r.start := by omega
    have read : readBlock f (r.start + r.last) r.last n w.bounce
        (r.last + (p - (r.start + r.last))) = _ := readBlock_eq w.bounce inLast.1 high
    rw [position] at read
    have low : r.start ≤ p := by omega
    have held : r.Held .copy p := ⟨⟨low, inLast.2⟩, outside, trivial⟩
    refine ⟨fun _ => ?_, fun notHeld => absurd held notHeld⟩
    simp only [read]
    by_cases short : r.start + r.last + n ≤ p
    · rw [if_pos short, left ⟨outside, n, rfl, .inr ⟨pc, short, high⟩⟩]
    · rw [if_neg short, kept, stored]
      rintro ⟨-, n', same, ⟨pc', -⟩ | ⟨-, short', -⟩⟩
      · rw [pc] at pc'
        cases pc'
      · cases same
        exact short short'
  · have inOrder : ¬ LeavesOut r w (.ok n) p := by
      rintro ⟨-, n', same, ⟨pc', -⟩ | ⟨-, low, high⟩⟩
      · rw [pc] at pc'
        cases pc'
      · simp only [directAlign] at high
        exact inLast ⟨by omega, by omega⟩
    obtain rfl := kept inOrder
    refine ⟨fun held => ?_, fun notHeld => carries.stored fun held => notHeld ?_⟩
    · obtain ⟨touches, -, -⟩ := held
      simp only [Touches, Range] at touches outside
      simp only
      rw [readBlock_of_not_mem w.bounce (by omega)]
      refine carries.held ⟨touches, outside, ?_⟩
      rw [pc]
      exact ⟨by omega, by simp only [directAlign]; omega⟩
    · exact ⟨held.1, held.2.1, trivial⟩

/-- **A step puts the byte where it was going to**, unless it reads the block of the
position and leaves it out: then the byte is zero. -/
theorem Carries.step (fits : r.Fits) (outside : ¬ r.Range p) (edges : ReadsEdges r w.pc)
    (carries : Carries r f w p v) (effect : Effect r f w a f' w') (alive : ¬ w'.Failed)
    (cut : ∀ t, w.truncTo = some t → t ≤ p → v = 0) {v' : UInt8}
    (left : LeavesOut r w a p → v' = 0) (kept : ¬ LeavesOut r w a p → v' = v) :
    Carries r f' w' p v' := by
  have same : w.pc ≠ .readHead → w.pc ≠ .readTail → v' = v :=
    fun head tail => kept (not_leavesOut head tail)
  -- Before the write holds anything the byte is in the file.
  have stored : (∀ p, ¬ r.Held w.pc p) → f.byte p = v := fun none => carries.stored (none p)
  cases effect with
  | idle a stays =>
      obtain rfl : v' = v := by
        refine kept ?_
        rintro ⟨-, n, answer, reading⟩
        rcases stays with interrupted | ⟨ret, out⟩
        · rw [answer] at interrupted
          cases interrupted
        · simp [out] at reading
      exact carries
  | fails a ret negative retried moved => exact absurd ⟨ret, rfl, negative⟩ alive
  | memalign n pc =>
      obtain rfl := same (by simp [pc]) (by simp [pc])
      refine .of_stored (stored fun p held => by rw [pc] at held; exact held.2.2) ?_
      split
      · exact fun held => held.2.2
      · exact not_held_enterFill fits p
  | fstat n pc =>
      obtain rfl := same (by simp [pc]) (by simp [pc])
      exact .of_stored (stored fun p held => by rw [pc] at held; exact held.2.2)
        (not_held_enterFill fits p)
  | openRead n pc =>
      obtain rfl := same (by simp [pc]) (by simp [pc])
      exact .of_stored (stored fun p held => by rw [pc] at held; exact held.2.2)
        (not_held_enterRead fits p)
  | readHead n pc => exact carries.readHead fits outside edges pc left kept
  | readTail n pc => exact carries.readTail fits outside edges pc left kept
  | copy n pc =>
      obtain rfl := same (by simp [pc]) (by simp [pc])
      have bounds := fits.endOff_bounds
      have last := fits.shape.last
      have start := r.start_add_head
      have loop : r.enterLoop w.truncTo 0 = .pwrite 0 := if_pos (by omega)
      rw [loop]
      refine ⟨fun held => ?_, fun notHeld => carries.stored fun held => notHeld ?_⟩
      · obtain ⟨touches, -, -⟩ := held
        simp only [Touches, Range, endOff] at touches outside
        simp only
        rw [if_neg (by omega)]
        exact carries.held ⟨touches, outside, by rw [pc]; trivial⟩
      · exact ⟨held.1, held.2.1, held.1.1⟩
  | pwrite done n pc moved =>
      obtain rfl := same (by simp [pc]) (by simp [pc])
      refine ⟨fun held => ?_, fun notHeld => ?_⟩
      · obtain ⟨touches, -, low⟩ := held_enterLoop held
        refine carries.held ⟨touches, outside, ?_⟩
        rw [pc]
        change r.start + done ≤ p
        omega
      · by_cases slice : r.start + done ≤ p ∧ p < r.start + done + min n (r.span - done)
        · rw [f.pwrite_byte_of_mem _ slice.1 slice.2]
          have position : done + (p - (r.start + done)) = p - r.start := by omega
          simp only [position]
          refine carries.held ⟨⟨by omega, by omega⟩, outside, ?_⟩
          rw [pc]
          exact slice.1
        · rw [f.pwrite_byte_of_not_mem _ slice]
          refine carries.stored fun held => notHeld ?_
          obtain ⟨touches, -, low⟩ := held
          rw [pc] at low
          change r.start + done ≤ p at low
          have high := touches.2
          have loop : r.enterLoop w.truncTo (done + min n (r.span - done)) =
              .pwrite (done + min n (r.span - done)) := if_pos (by omega)
          simp only [loop]
          exact ⟨touches, outside, by change r.start + (done + _) ≤ p; omega⟩
  | ftruncate n file pc planned unplanned =>
      obtain rfl := same (by simp [pc]) (by simp [pc])
      refine ⟨fun held => held.2.2.elim, fun _ => ?_⟩
      have before := stored fun p held => by rw [pc] at held; exact held.2.2
      cases length : w.truncTo with
      | none => rw [unplanned length, before]
      | some t =>
          rw [planned t length, f.ftruncate_byte_of_zero, before]
          intro past
          rw [before]
          exact cut t length past

/-! ## Runs -/

section Alone

variable {s s' : WriteSystem Unit}

/-- What holds of a write alone that has not given up, about one position. -/
structure EdgeInv (r : WriteRequest) (f₀ : File) (s : WriteSystem Unit) (p : Nat) (v : UInt8) :
    Prop where
  lengths : Lengths (fun _ => r) f₀ s
  edges : ReadsEdges r (s.writes ()).pc
  carries : Carries r s.file (s.writes ()) p v
  past : f₀.length ≤ p → v = 0

theorem EdgeInv.start (fits : r.Fits) (f₀ : File) (garbage : Nat → UInt8) (p : Nat) :
    EdgeInv r f₀ (inFlight (fun _ => r) f₀ fun _ => garbage) p (f₀.byte p) := by
  have pc : ((inFlight (fun _ : Unit => r) f₀ fun _ => garbage).writes ()).pc = .memalign :=
    call_pc fits garbage
  refine ⟨.start (fun _ => fits) f₀ _, ?_, ⟨fun held => ?_, fun _ => rfl⟩, f₀.pastEnd p⟩
  · rw [pc]
    exact ⟨nofun, nofun⟩
  · rw [pc] at held
    exact held.2.2.elim

theorem EdgeInv.step (fits : r.Fits) (outside : ¬ r.Range p) (inv : EdgeInv r f₀ s p v)
    (step : (writers fun _ => r).step s ((), a) = some s') (alive : Alive s') {v' : UInt8}
    (left : LeavesOut r (s.writes ()) a p → v' = 0)
    (kept : ¬ LeavesOut r (s.writes ()) a p → v' = v) : EdgeInv r f₀ s' p v' := by
  obtain ⟨effect, -⟩ := writers_step step
  refine ⟨inv.lengths.step_alone fits step alive, inv.edges.step effect, ?_, fun past => ?_⟩
  · refine inv.carries.step fits outside inv.edges effect (alive ()) (fun t cut below => ?_) left kept
    have planned := (inv.lengths.cut () t cut).1
    exact inv.past (by omega)
  · by_cases out : LeavesOut r (s.writes ()) a p
    · exact left out
    · rw [kept out]
      exact inv.past past

/-- Once the write has returned, the byte is in the file. -/
theorem EdgeInv.returned (inv : EdgeInv r f₀ s p v) {ret : Int} (out : (s.writes ()).pc = .out ret) :
    s.file.byte p = v := by
  refine inv.carries.stored fun held => ?_
  rw [out] at held
  exact held.2.2

theorem alive_of_run {labels : List (Unit × Answer)}
    (ran : (writers fun _ => r).run labels s = some s') (alive : Alive s') : Alive s := by
  induction labels generalizing s with
  | nil =>
      cases ran
      exact alive
  | cons l rest ih =>
      obtain ⟨mid, step, later⟩ := Option.bind_eq_some_iff.mp ran
      exact (ih later).of_step step

/-- A byte that will be put back as zero is zero in the end. -/
theorem EdgeInv.zero_of_run (fits : r.Fits) (outside : ¬ r.Range p)
    {labels : List (Unit × Answer)} (inv : EdgeInv r f₀ s p 0)
    (ran : (writers fun _ => r).run labels s = some s') (alive : Alive s') {ret : Int}
    (out : (s'.writes ()).pc = .out ret) : s'.file.byte p = 0 := by
  induction labels generalizing s with
  | nil =>
      cases ran
      exact inv.returned out
  | cons l rest ih =>
      obtain ⟨⟨⟩, a⟩ := l
      obtain ⟨mid, step, later⟩ := Option.bind_eq_some_iff.mp ran
      exact ih (inv.step fits outside step (alive_of_run later alive) (fun _ => rfl) fun _ => rfl)
        later

/-- **An old byte is there in the end** exactly if no read of its block left it out, or
it is zero. -/
theorem EdgeInv.byte_iff_of_run (fits : r.Fits) (outside : ¬ r.Range p)
    {labels : List (Unit × Answer)} (inv : EdgeInv r f₀ s p (f₀.byte p))
    (ran : (writers fun _ => r).run labels s = some s') (alive : Alive s') {ret : Int}
    (out : (s'.writes ()).pc = .out ret) :
    s'.file.byte p = f₀.byte p ↔
      (writers fun _ => r).Meets
        (fun s l => LeavesOut r (s.writes l.1) l.2 p → f₀.byte p = 0) labels s := by
  induction labels generalizing s with
  | nil =>
      cases ran
      exact ⟨fun _ => trivial, fun _ => inv.returned out⟩
  | cons l rest ih =>
      obtain ⟨⟨⟩, a⟩ := l
      obtain ⟨mid, step, later⟩ := Option.bind_eq_some_iff.mp ran
      have alive' := alive_of_run later alive
      rw [Machine.meets_cons_iff step]
      by_cases lost : LeavesOut r (s.writes ()) a p ∧ f₀.byte p ≠ 0
      · have zero := (inv.step fits outside step alive' (fun _ => rfl)
          fun kept => absurd lost.1 kept).zero_of_run fits outside later alive out
        rw [zero]
        exact ⟨fun same => absurd same.symm lost.2, fun meets => absurd (meets.1 lost.1) lost.2⟩
      · have zero : LeavesOut r (s.writes ()) a p → f₀.byte p = 0 :=
          fun out => by_contra fun some => lost ⟨out, some⟩
        have inv' : EdgeInv r f₀ mid p (f₀.byte p) :=
          inv.step fits outside step alive' zero fun _ => rfl
        rw [ih inv' later]
        exact ⟨fun meets => ⟨zero, meets⟩, fun meets => meets.2⟩

end Alone

/-- **What short reads of the edge blocks destroy.** Of every run in which the write
returns its size, every old byte outside its range is there in the end exactly if each
read of an edge block left out nothing outside the range but zeros. -/
theorem shortReads_iff (r : WriteRequest) (fits : r.Fits) (f₀ : File) (garbage : Nat → UInt8)
    (labels : List (Unit × Answer)) (s : WriteSystem Unit)
    (ran : (writers fun _ => r).run labels (inFlight (fun _ => r) f₀ fun _ => garbage) = some s)
    (returned : (s.writes ()).pc = .out r.size) :
    (∀ p, p < f₀.length → ¬ r.Range p → s.file.byte p = f₀.byte p) ↔
      (writers fun _ => r).Meets (fun s l => LeavesOutZeros r f₀ (s.writes l.1) l.2) labels
        (inFlight (fun _ => r) f₀ fun _ => garbage) := by
  have alive : Alive s := alive_of_not_failed (not_failed_of_returned returned)
  have each : ∀ p, ¬ r.Range p → (s.file.byte p = f₀.byte p ↔
      (writers fun _ => r).Meets (fun s l => LeavesOut r (s.writes l.1) l.2 p → f₀.byte p = 0)
        labels (inFlight (fun _ => r) f₀ fun _ => garbage)) :=
    fun p outside => (EdgeInv.start fits f₀ garbage p).byte_iff_of_run fits outside ran alive returned
  simp only [LeavesOutZeros, Machine.meets_forall]
  constructor
  · intro kept p
    by_cases zero : f₀.byte p = 0
    · refine Machine.meets_of_labels (fun _ _ s _ => ?_) _
      exact zero
    · by_cases outside : r.Range p
      · refine Machine.meets_of_labels (fun _ _ s out => ?_) _
        exact absurd outside out.1
      · have inside : p < f₀.length := by
          by_contra past
          exact zero (f₀.pastEnd p (Nat.le_of_not_lt past))
        exact (each p outside).mp (kept p inside outside)
  · intro meets p _ outside
    exact (each p outside).mpr (meets p)

/-- The hundred bytes of the write and the hundred behind them are in one block, which
is read at once. -/
theorem shortReads_iff_twoWrites :
    ∃ s, (writers fun _ => twoWrites 0).run (List.replicate 6 ((), .ok 4096))
        (inFlight (fun _ => twoWrites 0) sevens fun _ _ => 0) = some s ∧
      ∀ p, p < 200 → ¬ (twoWrites 0).Range p → s.file.byte p = sevens.byte p := by
  have left : leavesAlone (twoWrites 0) sevens (List.replicate 6 ((), .ok 4096)) =
      some (200, .out 100) := by
    decide +kernel
  obtain ⟨s, ran, facts⟩ := Option.map_eq_some_iff.mp left
  simp only [Prod.mk.injEq] at facts
  refine ⟨s, ran, (shortReads_iff (twoWrites 0) (twoWrites_fits 0) sevens (fun _ => 0) _ s ran
    facts.2).mpr ?_⟩
  refine Machine.meets_of_labels (fun l member s p out => ?_) _
  obtain rfl := List.eq_of_mem_replicate member
  obtain ⟨-, n, same, ⟨-, low, high⟩ | ⟨-, low, high⟩⟩ := out
  · cases same
    simp only [directAlign] at high
    omega
  · cases same
    simp only [directAlign] at high
    omega

/-- Each read of an edge block transfers at least a byte, or is interrupted. -/
def SomeRead (w : WriteState) (a : Answer) : Prop :=
  w.pc = .readHead ∨ w.pc = .readTail → a = .interrupted ∨ ∃ n, a = .ok n ∧ 0 < n

/-- A write that returns its size keeps the old bytes outside its range, however short
the reads of its edge blocks are. -/
def ShortReadsKept : Prop :=
  ∀ (r : WriteRequest) (f₀ : File) (garbage : Nat → UInt8) (labels : List (Unit × Answer))
    (s : WriteSystem Unit), r.Fits →
    (writers fun _ => r).Meets (fun s l => SomeRead (s.writes l.1) l.2) labels
      (inFlight (fun _ => r) f₀ fun _ => garbage) →
    (writers fun _ => r).run labels (inFlight (fun _ => r) f₀ fun _ => garbage) = some s →
    (s.writes ()).pc = .out r.size →
    ∀ p, p < f₀.length → ¬ r.Range p → s.file.byte p = f₀.byte p

/-- **A short read destroys the neighbours of a write**: the read of the block gives its
first byte only, and the write of the first hundred bytes puts zeros in place of the
hundred behind them. -/
theorem short_read_destroys_neighbours : ¬ ShortReadsKept := by
  intro kept
  have left : ((writers fun _ => twoWrites 0).run
      (List.replicate 2 ((), .ok 4096) ++ [((), .ok 1)] ++ List.replicate 3 ((), .ok 4096))
      (inFlight (fun _ => twoWrites 0) sevens fun _ _ => 0)).map
        (fun s => (s.file.byte 150, (s.writes ()).pc)) = some (0, .out 100) := by
    decide +kernel
  obtain ⟨s, ran, facts⟩ := Option.map_eq_some_iff.mp left
  simp only [Prod.mk.injEq] at facts
  have same := kept (twoWrites 0) sevens _ _ s (twoWrites_fits 0) ?_ ran facts.2 150 (by decide)
    (by simp [Range, endOff, twoWrites])
  · rw [facts.1] at same
    exact absurd same (by decide)
  · refine Machine.meets_of_labels (fun l member s _ => .inr ?_) _
    simp only [List.mem_append, List.mem_replicate, List.mem_singleton] at member
    rcases member with (⟨-, rfl⟩ | rfl) | ⟨-, rfl⟩
    · exact ⟨4096, rfl, by decide⟩
    · exact ⟨1, rfl, by decide⟩
    · exact ⟨4096, rfl, by decide⟩

end OpenDS.Common
