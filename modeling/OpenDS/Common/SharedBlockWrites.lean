import OpenDS.Common.DisjointWrites

/-!
# Writes of disjoint ranges in shared blocks

Two writes inside the file may have disjoint ranges and still touch one block. Each
reads the block, patches its range and writes the block back, so a write that another
one has read around is lost when that one writes (`shared_block_loses_write`). The
length has a race of its own: a write that looks at the file while another one has
extended it to the end of its last block sees no need to cut it back.

Where no step moves bytes that another write holds, and a `pwrite` extends the file
only while some write is going to cut it back, all writes survive
(`sharedBlockWrites_applied`).
-/

set_option autoImplicit false

namespace OpenDS.Common

open OpenDS.Library WriteRequest

section System

variable {ι : Type} {req : ι → WriteRequest} {f₀ : File} {s s' : WriteSystem ι} {i : ι} {a : Answer}

/-- The write is going to cut the file back. -/
def WillCut (w : WriteState) : Prop := w.truncTo.isSome ∧ ∀ ret, w.pc ≠ .out ret

/-- A `pwrite` stays inside the file or some write is going to cut it back. -/
def ExtendsToCut (req : ι → WriteRequest) (s : WriteSystem ι) (l : ι × Answer) : Prop :=
  ∀ done n, (s.writes l.1).pc = .pwrite done → l.2 = .ok n →
    (req l.1).start + (req l.1).span ≤ s.file.length ∨ ∃ j, WillCut (s.writes j)

/-- The locals of a write inside the file, whose transfers are full: it is at the
start of its only `pwrite`, and cuts the file back to its old length or not at all. -/
structure InsideWrite (r : WriteRequest) (f₀ : File) (w : WriteState) : Prop where
  formed : Formed r w
  first : ∀ done, w.pc = .pwrite done → done = 0
  unsettled : ¬ Settled w.pc → w.truncTo = none
  cut : ∀ length, w.truncTo = some length → length = f₀.length

/-- The length of the file while writes inside it are in flight: it is the old one,
or the end of a block while some write is going to cut it back to the old one. -/
structure InsideLength (req : ι → WriteRequest) (f₀ : File) (s : WriteSystem ι) : Prop where
  writes : ∀ i, InsideWrite (req i) f₀ (s.writes i)
  old : f₀.length ≤ s.file.length
  whole : s.file.length = f₀.length ∨ s.file.length % 4096 = 0
  pending : s.file.length = f₀.length ∨ ∃ j, WillCut (s.writes j)

theorem InsideLength.start (fits : ∀ i, (req i).Fits) (f₀ : File) (garbage : ι → Nat → UInt8) :
    InsideLength req f₀ (inFlight req f₀ garbage) := by
  refine ⟨fun i => ?_, Nat.le_refl _, .inl rfl, .inl rfl⟩
  have pc : ((inFlight req f₀ garbage).writes i).pc = .memalign := call_pc (fits i) (garbage i)
  refine ⟨⟨by simp [pc], by simp [pc], by simp [pc]⟩, by simp [pc], fun _ => rfl, ?_⟩
  intro length cut
  cases cut

theorem InsideLength.writes_step (inside : InsideLength req f₀ s)
    (others : ∀ j, j ≠ i → s'.writes j = s.writes j)
    (here : InsideWrite (req i) f₀ (s'.writes i)) (j : ι) :
    InsideWrite (req j) f₀ (s'.writes j) := by
  by_cases same : j = i
  · rw [same]
    exact here
  · rw [others j same]
    exact inside.writes j

theorem willCut_step (others : ∀ j, j ≠ i → s'.writes j = s.writes j)
    (here : WillCut (s.writes i) → WillCut (s'.writes i)) (will : ∃ j, WillCut (s.writes j)) :
    ∃ j, WillCut (s'.writes j) := by
  obtain ⟨j, will⟩ := will
  refine ⟨j, ?_⟩
  by_cases same : j = i
  · subst same
    exact here will
  · rwa [others j same]

/-- A step of one write that leaves the file alone. -/
theorem InsideLength.still (inside : InsideLength req f₀ s) (file : s'.file = s.file)
    (others : ∀ j, j ≠ i → s'.writes j = s.writes j)
    (here : InsideWrite (req i) f₀ (s'.writes i))
    (willCut : WillCut (s.writes i) → WillCut (s'.writes i)) : InsideLength req f₀ s' := by
  refine ⟨inside.writes_step others here, by rw [file]; exact inside.old,
    by rw [file]; exact inside.whole, ?_⟩
  rw [file]
  exact inside.pending.imp_right (willCut_step others willCut)

theorem InsideWrite.filling {r : WriteRequest} {w : WriteState} (write : InsideWrite r f₀ w)
    {pc : WritePc} (filling : Filling pc) (bounce : Nat → UInt8) :
    InsideWrite r f₀ ⟨pc, bounce, w.truncTo⟩ :=
  ⟨.of_filling filling _ _, fun done loop => absurd loop (filling.ne_pwrite done),
    fun unsettled => absurd filling.settled unsettled, write.cut⟩

/-- A write inside the file that has looked at it is going to cut it back to its old
length, if at all. -/
theorem InsideLength.fstat (fits : ∀ i, (req i).Fits) (inRange : (req i).endOff ≤ f₀.length)
    (inside : InsideLength req f₀ s) {length : Nat}
    (planned : (if max s.file.length (req i).endOff < (req i).start + (req i).span
      then some (max s.file.length (req i).endOff) else none) = some length) :
    length = f₀.length := by
  have bounds := (fits i).endOff_bounds
  have shape := (fits i).shape
  have start := (req i).start_mod
  have old := inside.old
  split at planned
  · rename_i short
    obtain rfl := Option.some.inj planned
    rcases inside.whole with same | whole
    · omega
    · -- No block ends between the old length and the end of the blocks of the write.
      have spanMod := shape.spanMod
      have tailLt := shape.tailLt
      omega
  · cases planned

/-- The `pwrite` of a write that moves all of its blocks. -/
theorem InsideLength.pwrite (fits : ∀ i, (req i).Fits) (inside : InsideLength req f₀ s)
    (others : ∀ j, j ≠ i → s'.writes j = s.writes j)
    (length : s'.file.length = max s.file.length ((req i).start + (req i).span))
    (pc : (s'.writes i).pc = (req i).afterLoop (s.writes i).truncTo)
    (truncTo : (s'.writes i).truncTo = (s.writes i).truncTo)
    (extendsToCut : (req i).start + (req i).span ≤ s.file.length ∨ ∃ j, WillCut (s.writes j)) :
    InsideLength req f₀ s' := by
  have write := inside.writes i
  have start := (req i).start_mod
  have spanMod := (fits i).shape.spanMod
  have old := inside.old
  -- A write past its loop is at its truncation exactly if it has planned one.
  have loop : ∀ done, (s'.writes i).pc ≠ .pwrite done ∧ (s'.writes i).pc ≠ .fstat := by
    intro done
    rw [pc]
    cases (s.writes i).truncTo <;> exact ⟨by simp [afterLoop], by simp [afterLoop]⟩
  have here : InsideWrite (req i) f₀ (s'.writes i) := by
    refine ⟨⟨fun done at' => absurd at' (loop done).1, fun cut => ?_,
      fun stat => absurd stat (loop 0).2⟩, fun done at' => absurd at' (loop done).1,
      fun unsettled => ?_, fun length cut => write.cut length (truncTo ▸ cut)⟩
    · rw [truncTo]
      rw [pc] at cut
      cases planned : (s.writes i).truncTo with
      | some length => rfl
      | none =>
          rw [planned] at cut
          cases cut
    · refine absurd ?_ unsettled
      rw [pc]
      cases (s.writes i).truncTo <;> trivial
  have kept : WillCut (s.writes i) → WillCut (s'.writes i) := by
    intro will
    refine ⟨truncTo ▸ will.1, fun ret out => ?_⟩
    obtain ⟨length, planned⟩ := Option.isSome_iff_exists.mp will.1
    rw [pc, planned] at out
    cases out
  refine ⟨inside.writes_step others here, by omega, ?_, ?_⟩
  · rcases inside.whole with same | whole
    · by_cases past : s.file.length ≤ (req i).start + (req i).span
      · exact .inr (by omega)
      · exact .inl (by omega)
    · exact .inr (by omega)
  · rcases extendsToCut with short | will
    · have same : s'.file.length = s.file.length := by omega
      rw [same]
      exact inside.pending.imp_right (willCut_step others kept)
    · exact .inr (willCut_step others kept will)

variable [DecidableEq ι]

/-- **One step of writes inside the file.** -/
theorem InsideLength.step (fits : ∀ i, (req i).Fits) (inRange : ∀ i, (req i).endOff ≤ f₀.length)
    (inside : InsideLength req f₀ s) (full : FullTransfer (req i) (s.writes i) a)
    (extends' : ExtendsToCut req s (i, a)) (step : (writers req).step s (i, a) = some s')
    (alive : Alive s') : InsideLength req f₀ s' := by
  obtain ⟨effect, others⟩ := writers_step step
  have write := inside.writes i
  have living := alive i
  have last := (fits i).shape.last
  generalize file : s'.file = f' at effect
  generalize state : s'.writes i = w' at effect living
  -- The write fills its buffer and keeps what it knows.
  have fill : ∀ {pc : WritePc} {bounce : Nat → UInt8}, Filling pc →
      s'.file = s.file → s'.writes i = ⟨pc, bounce, (s.writes i).truncTo⟩ →
      InsideLength req f₀ s' := by
    intro pc bounce filling file state
    refine inside.still file others (state ▸ write.filling filling bounce) fun will => ?_
    rw [state]
    exact ⟨will.1, filling.ne_out⟩
  cases effect with
  | idle a stays => exact inside.still file others (state ▸ write) (state ▸ id)
  | fails a ret negative _ _ => exact absurd ⟨ret, rfl, negative⟩ living
  | memalign n pc =>
      have unplanned := write.unsettled (by rw [pc]; exact id)
      refine inside.still file others ?_ fun will => absurd will.1 (by simp [unplanned])
      rw [state]
      split
      · rename_i tail
        exact ⟨⟨by simp, by simp, fun _ => tail⟩, by simp, fun _ => unplanned, write.cut⟩
      · exact write.filling (filling_enterFill _) _
  | fstat n pc =>
      have unplanned := write.unsettled (by rw [pc]; exact id)
      have filling := filling_enterFill (req i)
      refine inside.still file others ?_ fun will => absurd will.1 (by simp [unplanned])
      rw [state]
      exact ⟨.of_filling filling _ _, fun done loop => absurd loop (filling.ne_pwrite done),
        fun unsettled => absurd filling.settled unsettled,
        fun length planned => inside.fstat fits (inRange i) planned⟩
  | openRead n pc => exact fill (filling_enterRead _) file state
  | readHead n pc => exact fill (filling_afterHead _) file state
  | readTail n pc => exact fill (show Filling .copy from trivial) file state
  | copy n pc =>
      have loop : (req i).enterLoop (s.writes i).truncTo 0 = .pwrite 0 := if_pos (by omega)
      rw [loop] at state
      refine inside.still file others ?_ fun will => ?_
      · rw [state]
        refine ⟨⟨fun done loop => ?_, by simp, by simp⟩, fun done loop => ?_, fun unsettled => ?_,
          write.cut⟩
        · cases loop
          omega
        · cases loop
          rfl
        · exact absurd trivial unsettled
      · rw [state]
        exact ⟨will.1, by simp⟩
  | pwrite done n pc moved =>
      obtain rfl := write.first done pc
      have all : min n ((req i).span - 0) = (req i).span := by
        have some := full.2 0 n pc rfl
        omega
      rw [all, Nat.zero_add, enterLoop, if_neg (Nat.lt_irrefl _)] at state
      rw [all, Nat.add_zero] at file
      refine inside.pwrite fits others (by rw [file, ByteFile.pwrite_length_pos _ (by omega)])
        (by rw [state]) (by rw [state]) ?_
      exact extends' 0 n pc rfl
  | ftruncate n file' pc planned unplanned =>
      obtain ⟨length, cut⟩ := Option.isSome_iff_exists.mp (write.formed.planned pc)
      have back : s'.file.length = f₀.length := by
        rw [file, planned length cut, ByteFile.ftruncate_length, write.cut length cut]
      refine ⟨inside.writes_step others ?_, Nat.le_of_eq back.symm, .inl back, .inl back⟩
      rw [state]
      exact ⟨⟨by simp, by simp, by simp⟩, by simp, fun unsettled => absurd trivial unsettled,
        write.cut⟩

/-- What holds of writes inside the file: their bytes and its length. -/
structure SharedInv (req : ι → WriteRequest) (f₀ : File) (s : WriteSystem ι) : Prop where
  content : Content req f₀ s
  inside : InsideLength req f₀ s

omit [DecidableEq ι] in
/-- A truncation to the old length cuts off zeros only. -/
theorem SharedInv.cutsZeros (inRange : ∀ i, (req i).endOff ≤ f₀.length) (inv : SharedInv req f₀ s) :
    CutsZeros s.file (s.writes i) a := by
  intro pc answered length planned p past
  have old := (inv.inside.writes i).cut length planned
  rw [inv.content.kept p fun j written => ?_, f₀.pastEnd p (by omega)]
  have below := written.1.2
  have end' := inRange j
  omega

/-- **One step of writes inside the file.** -/
theorem SharedInv.step (fits : ∀ i, (req i).Fits)
    (apart : ∀ i j, i ≠ j → ∀ p, (req i).Range p → ¬ (req j).Range p)
    (inRange : ∀ i, (req i).endOff ≤ f₀.length) (inv : SharedInv req f₀ s) {l : ι × Answer}
    (full : FullTransfer (req l.1) (s.writes l.1) l.2) (undisturbed : Undisturbed req s l)
    (extendsToCut : ExtendsToCut req s l) (step : (writers req).step s l = some s')
    (alive : Alive s') : SharedInv req f₀ s' :=
  ⟨inv.content.step fits apart full.1 undisturbed (inv.cutsZeros inRange) step alive,
    inv.inside.step fits inRange full extendsToCut step alive⟩

omit [DecidableEq ι] in
/-- Once all writes inside the file have returned, the file has its old length. -/
theorem InsideLength.returned (inRange : ∀ i, (req i).endOff ≤ f₀.length)
    (inside : InsideLength req f₀ s) (returned : ∀ i, (s.writes i).pc = .out (req i).size) :
    IsGreatest (insert f₀.length (Set.range fun i => (req i).endOff)) s.file.length := by
  have same : s.file.length = f₀.length := by
    rcases inside.pending with same | ⟨j, will⟩
    · exact same
    · exact absurd (returned j) (will.2 _)
  rw [same]
  refine ⟨.inl rfl, ?_⟩
  rintro n (rfl | ⟨i, rfl⟩)
  · exact Nat.le_refl _
  · exact inRange i

/-- **Writes of disjoint ranges inside the file all survive**, also in shared blocks,
in every run in which no step moves bytes that another write has read and will write
back, and none extends the file past its length with no write left to cut it back. -/
theorem sharedBlockWrites_applied (fits : ∀ i, (req i).Fits)
    (apart : ∀ i j, i ≠ j → ∀ p, (req i).Range p → ¬ (req j).Range p) (f₀ : File)
    (inRange : ∀ i, (req i).endOff ≤ f₀.length) (garbage : ι → Nat → UInt8)
    {labels : List (ι × Answer)}
    (meets : (writers req).Meets
      (fun s l => FullTransfer (req l.1) (s.writes l.1) l.2 ∧ Undisturbed req s l ∧
        ExtendsToCut req s l) labels (inFlight req f₀ garbage))
    (ran : (writers req).run labels (inFlight req f₀ garbage) = some s)
    (returned : ∀ i, (s.writes i).pc = .out (req i).size) : Applied req f₀ s.file := by
  have alive : Alive s := fun i => not_failed_of_returned (returned i)
  have inv : Alive s → SharedInv req f₀ s :=
    Machine.run_invariant
      (fun s l s' (holds : Alive s → SharedInv req f₀ s) ok step alive =>
        (holds (alive.of_step step)).step fits apart inRange ok.1 ok.2.1 ok.2.2 step alive)
      (fun _ => ⟨.start fits f₀ garbage, .start fits f₀ garbage⟩) meets ran
  obtain ⟨stored, outside⟩ := (inv alive).content.returned fits returned
  exact ⟨stored, outside, (inv alive).inside.returned inRange returned⟩

end System

/-! ## Two writes in one block -/

/-- The write of the first hundred bytes of a file, and that of the next hundred. -/
def twoHalves : Fin 2 → WriteRequest :=
  ![⟨false, fun _ => 1, 100, 0⟩, ⟨false, fun _ => 2, 100, 100⟩]

theorem twoHalves_fits : ∀ i, (twoHalves i).Fits := by
  intro i
  fin_cases i <;> exact ⟨by decide, by decide⟩

theorem twoHalves_apart :
    ∀ i j, i ≠ j → ∀ p, (twoHalves i).Range p → ¬ (twoHalves j).Range p := by
  intro i j ne p inI inJ
  fin_cases i <;> fin_cases j <;> first
    | exact ne rfl
    | simp [twoHalves, Range, endOff] at inI inJ
      omega

/-- Two hundred zeros. -/
def zeroFile : File := ⟨200, fun _ => 0, fun _ _ => rfl⟩

theorem twoHalves_inRange : ∀ i, (twoHalves i).endOff ≤ zeroFile.length := by decide

theorem twoHalves_short : ∀ i, (twoHalves i).span ≤ 8192 := by decide +kernel

/-- The first write runs to its end, then the second one. -/
def halfAfterHalf : List (Fin 2 × Answer) :=
  List.replicate 6 (through 0) ++ List.replicate 6 (through 1)

/-- Both writes read the block before one of them writes it. -/
def bothRead : List (Fin 2 × Answer) :=
  List.replicate 3 (through 0) ++ List.replicate 3 (through 1) ++ List.replicate 3 (through 0) ++
    List.replicate 3 (through 1)

/-- The second write looks at the length of the file while the first one has it
extended. -/
def looksAtExtended : List (Fin 2 × Answer) :=
  List.replicate 5 (through 0) ++ List.replicate 2 (through 1) ++ [through 0] ++
    List.replicate 3 (through 1)

/-- A write is not disturbed while the other one has not begun or has returned. -/
theorem undisturbed_of_still {s : WriteSystem (Fin 2)} {l : Fin 2 × Answer}
    (still : ∀ j, j ≠ l.1 → (s.writes j).pc = .memalign ∨ (s.writes j).pc = .out 100) :
    Undisturbed twoHalves s l := by
  intro j other p _ held
  rcases still j other with pc | pc
  · rw [pc] at held
    exact held.2.2
  · rw [pc] at held
    exact held.2.2

/-- The two writes both survive when one runs after the other. -/
theorem sharedBlockWrites_applied_twoHalves :
    ∃ s, (writers twoHalves).run halfAfterHalf (inFlight twoHalves zeroFile fun _ _ => 0) =
      some s ∧ Applied twoHalves zeroFile s.file := by
  have left : leaves twoHalves zeroFile halfAfterHalf =
      some (200, 1, .out (twoHalves 0).size, .out (twoHalves 1).size) := by decide +kernel
  obtain ⟨s, ran, -, -, returned⟩ := returned_of_leaves left
  refine ⟨s, ran, sharedBlockWrites_applied twoHalves_fits twoHalves_apart _ twoHalves_inRange _
    ?_ ran returned⟩
  have undisturbed : (writers twoHalves).Meets (Undisturbed twoHalves) halfAfterHalf
      (inFlight twoHalves zeroFile fun _ _ => 0) := by
    have passes : (writers twoHalves).check (fun s l => decide (∀ j, j ≠ l.1 →
        (s.writes j).pc = .memalign ∨ (s.writes j).pc = .out 100)) halfAfterHalf
        (inFlight twoHalves zeroFile fun _ _ => 0) = true := by decide +kernel
    exact Machine.meets_of_check (fun s l passed => undisturbed_of_still (of_decide_eq_true passed))
      passes
  have extendsToCut : (writers twoHalves).Meets (ExtendsToCut twoHalves) halfAfterHalf
      (inFlight twoHalves zeroFile fun _ _ => 0) := by
    have passes : (writers twoHalves).check (fun s l => (s.writes l.1).truncTo.isSome ||
        decide ((s.writes l.1).pc = .memalign ∨ (s.writes l.1).pc = .fstat)) halfAfterHalf
        (inFlight twoHalves zeroFile fun _ _ => 0) = true := by decide +kernel
    refine Machine.meets_of_check (fun s l passed done n pc _ => .inr ⟨l.1, ?_, ?_⟩) passes
    · simpa [pc] using passed
    · simp [pc]
  exact (fullTransfer_through twoHalves_short (by decide) _).and (undisturbed.and extendsToCut)

/-- Writes of disjoint ranges inside a file survive in every run with full transfers
in which they return. -/
def SharedWritesSurvive : Prop :=
  ∀ (req : Fin 2 → WriteRequest) (f₀ : File) (garbage : Fin 2 → Nat → UInt8)
    (labels : List (Fin 2 × Answer)) (s : WriteSystem (Fin 2)), (∀ i, (req i).Fits) →
    (∀ i j, i ≠ j → ∀ p, (req i).Range p → ¬ (req j).Range p) →
    (∀ i, (req i).endOff ≤ f₀.length) →
    (writers req).Meets (fun s l => FullTransfer (req l.1) (s.writes l.1) l.2) labels
      (inFlight req f₀ garbage) →
    (writers req).run labels (inFlight req f₀ garbage) = some s →
    (∀ i, (s.writes i).pc = .out (req i).size) → Applied req f₀ s.file

/-- **A write is lost in a shared block**: the second write has read the block before
the first one writes it, and puts the old bytes back. -/
theorem shared_block_loses_write : ¬ SharedWritesSurvive := by
  intro survive
  have left : leaves twoHalves zeroFile bothRead =
      some (200, 0, .out (twoHalves 0).size, .out (twoHalves 1).size) := by decide +kernel
  obtain ⟨s, ran, -, first, returned⟩ := returned_of_leaves left
  have applied := survive twoHalves zeroFile _ bothRead s twoHalves_fits twoHalves_apart
    twoHalves_inRange (fullTransfer_through twoHalves_short (by decide) _) ran returned
  have stored := applied.inRange 0 0 ⟨by decide, by decide⟩
  rw [first] at stored
  exact absurd stored (by decide)

/-- The length has a race of its own: the second write has seen the file while the first
one had it extended, and leaves it extended. -/
theorem shared_block_extends_file : ¬ SharedWritesSurvive := by
  intro survive
  have left : leaves twoHalves zeroFile looksAtExtended =
      some (4096, 1, .out (twoHalves 0).size, .out (twoHalves 1).size) := by decide +kernel
  obtain ⟨s, ran, length, -, returned⟩ := returned_of_leaves left
  have applied := survive twoHalves zeroFile _ looksAtExtended s twoHalves_fits twoHalves_apart
    twoHalves_inRange (fullTransfer_through twoHalves_short (by decide) _) ran returned
  have reached := applied.length.1
  rw [length] at reached
  rcases reached with old | ⟨i, end'⟩
  · exact absurd old (by decide)
  · fin_cases i <;> exact absurd end' (by decide)

end OpenDS.Common
