import OpenDS.Common.WriteLength

/-!
# Writes in disjoint blocks

Writes that touch disjoint blocks do not disturb each other's bytes. They can still
destroy each other: a write that has to cut the file back decides from an old length,
and cuts off whatever was written behind its blocks in the meantime
(`truncation_destroys_write`). Where no truncation does that, all writes survive
(`disjointWrites_applied`). A write with no other one in flight never does it, and is
the plain write of its range (`directPwrite_correct`).
-/

set_option autoImplicit false

namespace OpenDS.Common

open OpenDS.Library WriteRequest

section System

variable {ι : Type} {req : ι → WriteRequest} {f₀ : File} {s s' : WriteSystem ι} {i : ι}

/-- The file `f` is the file `f₀` with every write applied: each range holds its
source, every other byte is as it was, and the length is the greatest of the old
length and the ends of the ranges. -/
structure Applied (req : ι → WriteRequest) (f₀ f : File) : Prop where
  inRange : ∀ i p, (req i).Range p → f.byte p = (req i).src (p - (req i).off)
  outside : ∀ p, (∀ i, ¬ (req i).Range p) → f.byte p = f₀.byte p
  length : IsGreatest (insert f₀.length (Set.range fun i => (req i).endOff)) f.length

/-- A write that returns its size has not failed. -/
theorem not_failed_of_returned {w : WriteState} {n : Nat} (returned : w.pc = .out n) :
    ¬ w.Failed := by
  rintro ⟨ret, out, negative⟩
  rw [returned] at out
  cases out
  omega

/-- Once all writes have returned their sizes, what was written is every range. -/
theorem Content.returned (fits : ∀ i, (req i).Fits) (content : Content req f₀ s)
    (returned : ∀ i, (s.writes i).pc = .out (req i).size) :
    (∀ i p, (req i).Range p → s.file.byte p = (req i).src (p - (req i).off)) ∧
      ∀ p, (∀ i, ¬ (req i).Range p) → s.file.byte p = f₀.byte p := by
  refine ⟨fun i p range => content.written i p ⟨range, ?_⟩, fun p outside =>
    content.kept p fun i written => outside i written.1⟩
  rw [returned i]
  exact ((fits i).touches range).2

/-- Once all writes have returned, the length is what they need. -/
theorem Lengths.returned (lengths : Lengths req f₀ s)
    (returned : ∀ i, (s.writes i).pc = .out (req i).size) :
    IsGreatest (insert f₀.length (Set.range fun i => (req i).endOff)) s.file.length := by
  have extent : ∀ i, (req i).extent (s.writes i).pc = (req i).endOff := by
    intro i
    rw [returned i]
    rfl
  have upper : ∀ i, (req i).endOff ≤ s.file.length := fun i => extent i ▸ lengths.floor i
  constructor
  · rcases lengths.ceiling with old | ⟨i, below⟩
    · exact .inl (Nat.le_antisymm old lengths.old)
    · rw [extent] at below
      exact .inr ⟨i, Nat.le_antisymm (upper i) below⟩
  · rintro n (rfl | ⟨i, rfl⟩)
    · exact lengths.old
    · exact upper i

/-- What holds of writes in disjoint blocks: their bytes and their lengths. -/
structure DisjointInv (req : ι → WriteRequest) (f₀ : File) (s : WriteSystem ι) : Prop where
  content : Content req f₀ s
  lengths : Lengths req f₀ s

theorem BlocksApart.range (fits : ∀ i, (req i).Fits) (apart : BlocksApart req) :
    ∀ i j, i ≠ j → ∀ p, (req i).Range p → ¬ (req j).Range p := by
  intro i j ne p inI inJ
  have touchI := (fits i).touches inI
  have touchJ := (fits j).touches inJ
  simp only [Touches] at touchI touchJ
  rcases apart i j ne with before | behind <;> omega

theorem BlocksApart.undisturbed (fits : ∀ i, (req i).Fits) (apart : BlocksApart req)
    (l : ι × Answer) : Undisturbed req s l := by
  intro j ne p moved held
  obtain ⟨done, n, -, -, range, -⟩ := moved
  have touchI := (fits l.1).touches range
  have touchJ := held.1
  simp only [Touches] at touchI touchJ
  rcases apart j l.1 ne with before | behind <;> omega

variable [DecidableEq ι]

/-- **One step of writes in disjoint blocks.** -/
theorem DisjointInv.step (fits : ∀ i, (req i).Fits) (apart : BlocksApart req)
    (inv : DisjointInv req f₀ s) {l : ι × Answer} (full : FullRead (s.writes l.1) l.2)
    (inside : CutsInside req s l) (step : (writers req).step s l = some s') (alive : Alive s') :
    DisjointInv req f₀ s' := by
  have cuts := inv.lengths.cutsZeros fits apart inv.content inside
  exact ⟨inv.content.step fits (apart.range fits) full (apart.undisturbed fits l) cuts step alive,
    inv.lengths.step fits apart inside step alive⟩

/-- **Writes in disjoint blocks all survive** in every run in which no write cuts
the file back inside or before the blocks of another one, whatever the sizes of
their transfers. -/
theorem disjointWrites_applied (fits : ∀ i, (req i).Fits) (apart : BlocksApart req) (f₀ : File)
    (garbage : ι → Nat → UInt8) {labels : List (ι × Answer)}
    (meets : (writers req).Meets
      (fun s l => FullRead (s.writes l.1) l.2 ∧ CutsInside req s l) labels
      (inFlight req f₀ garbage))
    (ran : (writers req).run labels (inFlight req f₀ garbage) = some s)
    (returned : ∀ i, (s.writes i).pc = .out (req i).size) : Applied req f₀ s.file := by
  have alive : Alive s := fun i => not_failed_of_returned (returned i)
  -- A run that ends with every write alive had them alive all the time.
  have inv : Alive s → DisjointInv req f₀ s :=
    Machine.run_invariant
      (fun s l s' (holds : Alive s → DisjointInv req f₀ s) ok step alive =>
        (holds (alive.of_step step)).step fits apart ok.1 ok.2 step alive)
      (fun _ => ⟨.start fits f₀ garbage, .start fits f₀ garbage⟩) meets ran
  obtain ⟨inRange, outside⟩ := (inv alive).content.returned fits returned
  exact ⟨inRange, outside, (inv alive).lengths.returned returned⟩

end System

/-! ## Two writes -/

/-- A system call moves all that it is asked to move. -/
def FullTransfer (r : WriteRequest) (w : WriteState) (a : Answer) : Prop :=
  FullRead w a ∧ ∀ done n, w.pc = .pwrite done → a = .ok n → r.span ≤ n

/-- The write of the first hundred bytes of the file, and that of its second block. -/
def twoWrites : Fin 2 → WriteRequest :=
  ![⟨false, fun _ => 1, 100, 0⟩, ⟨false, fun _ => 2, 4096, 4096⟩]

theorem twoWrites_fits : ∀ i, (twoWrites i).Fits := by
  intro i
  fin_cases i <;> exact ⟨by decide, by decide⟩

theorem twoWrites_apart : BlocksApart twoWrites := by
  unfold BlocksApart
  decide +kernel

/-- The file without bytes. -/
def emptyFile : File := ⟨0, fun _ => 0, fun _ _ => rfl⟩

/-- A call of a write that goes through and moves up to two blocks. -/
def through (i : Fin 2) : Fin 2 × Answer := (i, .ok 8192)

theorem fullTransfer_through {req : Fin 2 → WriteRequest} (short : ∀ i, (req i).span ≤ 8192)
    {labels : List (Fin 2 × Answer)} (all : ∀ l ∈ labels, ∃ i, l = through i)
    (s : WriteSystem (Fin 2)) :
    (writers req).Meets (fun s l => FullTransfer (req l.1) (s.writes l.1) l.2) labels s := by
  refine Machine.meets_of_labels (fun l member s => ?_) s
  obtain ⟨i, rfl⟩ := all l member
  refine ⟨fun n answer _ => ?_, fun done n _ answer => ?_⟩
  · cases answer
    decide
  · cases answer
    exact short i

/-- The first write runs to its end, then the second one. -/
def oneAfterTheOther : List (Fin 2 × Answer) :=
  (List.replicate 6 (through 0)) ++ (List.replicate 3 (through 1))

/-- The second write runs between the `fstat` and the `pwrite` of the first one. -/
def oneInsideTheOther : List (Fin 2 × Answer) :=
  (List.replicate 4 (through 0)) ++ (List.replicate 3 (through 1)) ++
    (List.replicate 2 (through 0))

/-- What two writes leave on a file in a run: the length, the first byte and their
results. -/
def leaves (req : Fin 2 → WriteRequest) (f₀ : File) (labels : List (Fin 2 × Answer)) :
    Option (Nat × UInt8 × WritePc × WritePc) :=
  ((writers req).run labels (inFlight req f₀ fun _ _ => 0)).map
    fun s => (s.file.length, s.file.byte 0, (s.writes 0).pc, (s.writes 1).pc)

theorem returned_of_leaves {req : Fin 2 → WriteRequest} {f₀ : File}
    {labels : List (Fin 2 × Answer)} {n : Nat} {byte : UInt8}
    (left : leaves req f₀ labels = some (n, byte, .out (req 0).size, .out (req 1).size)) :
    ∃ s, (writers req).run labels (inFlight req f₀ fun _ _ => 0) = some s ∧
      s.file.length = n ∧ s.file.byte 0 = byte ∧ ∀ i, (s.writes i).pc = .out (req i).size := by
  obtain ⟨s, ran, facts⟩ := Option.map_eq_some_iff.mp left
  simp only [Prod.mk.injEq] at facts
  refine ⟨s, ran, facts.1, facts.2.1, fun i => ?_⟩
  fin_cases i
  · exact facts.2.2.1
  · exact facts.2.2.2

theorem twoWrites_short : ∀ i, (twoWrites i).span ≤ 8192 := by decide +kernel

/-- The two writes both survive when one runs after the other. -/
theorem disjointWrites_applied_twoWrites :
    ∃ s, (writers twoWrites).run oneAfterTheOther (inFlight twoWrites emptyFile fun _ _ => 0) =
      some s ∧ Applied twoWrites emptyFile s.file := by
  have left : leaves twoWrites emptyFile oneAfterTheOther =
      some (8192, 1, .out (twoWrites 0).size, .out (twoWrites 1).size) := by decide +kernel
  obtain ⟨s, ran, -, -, returned⟩ := returned_of_leaves left
  refine ⟨s, ran, disjointWrites_applied twoWrites_fits twoWrites_apart _ _ ?_ ran returned⟩
  have inside : (writers twoWrites).Meets (CutsInside twoWrites) oneAfterTheOther
      (inFlight twoWrites emptyFile fun _ _ => 0) := by
    have passes : (writers twoWrites).check (fun s l => (s.writes l.1).pc != .ftruncate ||
        decide (s.file.length ≤ (twoWrites l.1).start + (twoWrites l.1).span)) oneAfterTheOther
        (inFlight twoWrites emptyFile fun _ _ => 0) = true := by decide +kernel
    refine Machine.meets_of_check (fun s l passed pc _ => ?_) passes
    simpa [pc] using passed
  refine .and ?_ inside
  exact (fullTransfer_through twoWrites_short (by decide) _).mono fun s l full => full.1

/-- **A truncation destroys a write** that has extended the file in the meantime:
the first write cuts the file back to its own end. -/
theorem truncation_destroys_write :
    ¬ ∀ (req : Fin 2 → WriteRequest) (f₀ : File) (garbage : Fin 2 → Nat → UInt8)
        (labels : List (Fin 2 × Answer)) (s : WriteSystem (Fin 2)), (∀ i, (req i).Fits) →
        BlocksApart req →
        (writers req).Meets (fun s l => FullTransfer (req l.1) (s.writes l.1) l.2) labels
          (inFlight req f₀ garbage) →
        (writers req).run labels (inFlight req f₀ garbage) = some s →
        (∀ i, (s.writes i).pc = .out (req i).size) → Applied req f₀ s.file := by
  intro survive
  have left : leaves twoWrites emptyFile oneInsideTheOther =
      some (100, 1, .out (twoWrites 0).size, .out (twoWrites 1).size) := by decide +kernel
  obtain ⟨s, ran, length, -, returned⟩ := returned_of_leaves left
  have applied := survive twoWrites emptyFile _ oneInsideTheOther s twoWrites_fits twoWrites_apart
    (fullTransfer_through twoWrites_short (by decide) _) ran returned
  have long := applied.length.2 (.inr ⟨1, rfl⟩)
  rw [length] at long
  exact absurd long (by decide +kernel)

end OpenDS.Common
