import OpenDS.Common.SingleWrite

/-!
# A write that gives up

`opends_direct_pwrite` rewrites whole blocks, so a write that gives up half way has
written parts of blocks that it was not asked to write. What it wrote there is what it
had read there: on every run, at every point, the bytes outside its range are those of
the old file, and the file is not shorter (`failingWrite_spares`).

The length is another matter. A write that gives up returns before its truncation, so
whatever it has written past the end of its range stays as content of the file
(`failing_length_iff`).
-/

set_option autoImplicit false

namespace OpenDS.Common

open OpenDS.Library WriteRequest

variable {r : WriteRequest} {f f' f₀ : File} {w w' : WriteState} {a : Answer}

/-! ## The step that gives up -/

theorem not_failed_of_ssize (fits : r.Fits) (out : w.pc = .out (ssize r.size)) : ¬ w.Failed := by
  rw [fits.ssize_size] at out
  exact not_failed_of_returned out

/-- The step in which a write gives up leaves the file as it is. -/
theorem Effect.file_of_failed (fits : r.Fits) (effect : Effect r f w a f' w')
    (failed : w'.Failed) : f' = f := by
  cases effect with
  | pwrite done n pc moved =>
      obtain ⟨ret, out, negative⟩ := failed
      have returned := enterLoop_out out
      rw [fits.ssize_size] at returned
      omega
  | ftruncate n file pc planned unplanned => exact absurd failed (not_failed_of_ssize fits rfl)
  | idle | fails | memalign | fstat | openRead | readHead | readTail | copy => rfl

section Alone

variable {s s' : WriteSystem Unit}

/-- A write alone that has not given up. -/
theorem alive_of_not_failed (lives : ¬ (s.writes ()).Failed) : Alive s := fun _ => lives

/-- Nothing is disturbed by a write alone. -/
theorem blocksApart_alone (r : WriteRequest) : BlocksApart fun _ : Unit => r :=
  fun _ _ other => absurd rfl other

theorem Lengths.step_alone (fits : r.Fits) (lengths : Lengths (fun _ => r) f₀ s)
    {l : Unit × Answer} (step : (writers fun _ => r).step s l = some s') (alive : Alive s') :
    Lengths (fun _ => r) f₀ s' :=
  lengths.step (fun _ => fits) (blocksApart_alone r) (lengths.cutsInside l) step alive

/-! ## The neighbours -/

/-- The file `f` has every byte of `f₀` outside the range of the write, zeros between
the old end and the range, and is not shorter. -/
structure Spares (r : WriteRequest) (f₀ f : File) : Prop where
  old : ∀ p, p < f₀.length → ¬ r.Range p → f.byte p = f₀.byte p
  gap : ∀ p, f₀.length ≤ p → p < r.off → f.byte p = 0
  length : f₀.length ≤ f.length

/-- A write alone, which may have given up: until then its buffer, its bytes and its
length are in order, and the file outside its range is always the old one. -/
structure SparesInv (r : WriteRequest) (f₀ : File) (s : WriteSystem Unit) : Prop where
  alive : Alive s → DisjointInv (fun _ => r) f₀ s
  kept : ∀ p, ¬ r.Range p → s.file.byte p = f₀.byte p
  length : f₀.length ≤ s.file.length

theorem SparesInv.of_alive (inv : DisjointInv (fun _ => r) f₀ s) : SparesInv r f₀ s :=
  ⟨fun _ => inv, fun p outside => inv.content.kept p fun _ written => outside written.1,
    inv.lengths.old⟩

theorem SparesInv.start (fits : r.Fits) (f₀ : File) (garbage : Unit → Nat → UInt8) :
    SparesInv r f₀ (inFlight (fun _ => r) f₀ garbage) :=
  .of_alive ⟨.start (fun _ => fits) f₀ garbage, .start (fun _ => fits) f₀ garbage⟩

theorem SparesInv.step (fits : r.Fits) (inv : SparesInv r f₀ s) {l : Unit × Answer}
    (full : FullRead (s.writes l.1) l.2) (step : (writers fun _ => r).step s l = some s') :
    SparesInv r f₀ s' := by
  obtain ⟨⟨⟩, a⟩ := l
  obtain ⟨effect, -⟩ := writers_step step
  by_cases failed : (s'.writes ()).Failed
  · have file : s'.file = s.file := effect.file_of_failed fits failed
    refine ⟨fun alive => absurd failed (alive ()), fun p outside => ?_, ?_⟩
    · rw [file]
      exact inv.kept p outside
    · rw [file]
      exact inv.length
  · have alive' := alive_of_not_failed failed
    have before := inv.alive (alive'.of_step step)
    exact .of_alive (before.step (fun _ => fits) (blocksApart_alone r) full
      (before.lengths.cutsInside _) step alive')

theorem SparesInv.spares (inv : SparesInv r f₀ s) : Spares r f₀ s.file := by
  refine ⟨fun p _ outside => inv.kept p outside, fun p past before => ?_, inv.length⟩
  rw [inv.kept p fun range => absurd range.1 (Nat.not_le.mpr before)]
  exact f₀.pastEnd p past

end Alone

/-- **A write touches no neighbouring byte, however it ends.** At every point of every
run whose edge reads give all there is of their blocks, and so wherever the write gives
up, the bytes outside its range are the old ones, what lies between the old end and the
range reads as zero, and the file is not shorter. -/
theorem failingWrite_spares (r : WriteRequest) (fits : r.Fits) (f₀ : File) (garbage : Nat → UInt8)
    (labels : List (Unit × Answer)) (s : WriteSystem Unit)
    (full : (writers fun _ => r).Meets (fun s l => FullRead (s.writes l.1) l.2) labels
      (inFlight (fun _ => r) f₀ fun _ => garbage))
    (ran : (writers fun _ => r).run labels (inFlight (fun _ => r) f₀ fun _ => garbage) = some s) :
    Spares r f₀ s.file := by
  have start : SparesInv r f₀ _ := .start fits f₀ fun _ => garbage
  have inv : SparesInv r f₀ s :=
    Machine.run_invariant (fun s l s' inv full step => SparesInv.step fits inv full step) start
      full ran
  exact inv.spares

/-- A write alone leaves this length and this result. -/
def leavesAlone (r : WriteRequest) (f₀ : File) (labels : List (Unit × Answer)) :
    Option (Nat × WritePc) :=
  ((writers fun _ => r).run labels (inFlight (fun _ => r) f₀ fun _ _ => 0)).map
    fun s => (s.file.length, (s.writes ()).pc)

theorem failed_of_leavesAlone {labels : List (Unit × Answer)} {n : Nat} {ret : Int}
    (left : leavesAlone r f₀ labels = some (n, .out ret)) (negative : ret < 0) :
    ∃ s, (writers fun _ => r).run labels (inFlight (fun _ => r) f₀ fun _ _ => 0) = some s ∧
      s.file.length = n ∧ (s.writes ()).Failed := by
  obtain ⟨s, ran, facts⟩ := Option.map_eq_some_iff.mp left
  simp only [Prod.mk.injEq] at facts
  exact ⟨s, ran, facts.1, ret, facts.2, negative⟩

/-- Calls that move a block, and then one that fails. -/
theorem fullRead_of_blocks {ι : Type} [DecidableEq ι] {req : ι → WriteRequest} (i : ι) (n : Nat)
    (errno : Nat) (set : 0 < errno) (s : WriteSystem ι) :
    (writers req).Meets (fun s l => FullRead (s.writes l.1) l.2)
      (List.replicate n (i, .ok 4096) ++ [(i, .fails errno set)]) s := by
  refine Machine.meets_of_labels (fun l member s n answer _ => ?_) s
  simp only [List.mem_append, List.mem_replicate, List.mem_singleton] at member
  rcases member with ⟨-, rfl⟩ | rfl
  · cases answer
    exact Nat.le_refl _
  · cases answer

/-- Two hundred sevens. -/
def sevens : File :=
  ⟨200, fun p => if p < 200 then 7 else 0, fun _ past => if_neg (Nat.not_lt.mpr past)⟩

/-- A write with two partial edge blocks has moved its first block when the disk is
full. -/
def diskFull : List (Unit × Answer) :=
  List.replicate 7 ((), .ok 4096) ++ [((), .fails 28 (by decide))]

/-- The write that gives up in its second block spares the two hundred bytes. -/
theorem failingWrite_spares_edgeWrite :
    ∃ s, (writers fun _ => edgeWrite).run diskFull
        (inFlight (fun _ => edgeWrite) sevens fun _ _ => 0) = some s ∧
      (s.writes ()).Failed ∧ s.file.length = 4096 ∧ Spares edgeWrite sevens s.file := by
  have left : leavesAlone edgeWrite sevens diskFull = some (4096, .out (-28)) := by decide +kernel
  obtain ⟨s, ran, length, failed⟩ := failed_of_leavesAlone left (by decide)
  exact ⟨s, ran, failed, length, failingWrite_spares edgeWrite ⟨by decide, by decide⟩ sevens
    (fun _ => 0) diskFull s (fullRead_of_blocks _ _ _ _ _) ran⟩

/-! ## The length -/

/-- Where the write gives up, what it has written ends inside the old file or its range:
no truncation fails, and no `pwrite` fails past both ends. -/
def FailsShort (r : WriteRequest) (old : Nat) (w : WriteState) (a : Answer) : Prop :=
  match w.pc, a with
  | .pwrite done, .fails _ _ => r.start + done ≤ max old r.endOff
  | .pwrite done, .ok 0 => r.start + done ≤ max old r.endOff
  | .ftruncate, .fails _ _ => False
  | .ftruncate, .interrupted => False
  | _, _ => True

theorem Filling.not_failed {pc : WritePc} (filling : Filling pc) (bounce : Nat → UInt8)
    (truncTo : Option Nat) : ¬ (WriteState.mk pc bounce truncTo).Failed := by
  rintro ⟨ret, out, -⟩
  exact filling.ne_out ret out

/-- The write gives up on an error, on an interrupted call that it does not make again,
and on a `pwrite` that moves nothing. -/
theorem Effect.answer_of_failed (fits : r.Fits) (effect : Effect r f w a f' w')
    (lives : ¬ w.Failed) (failed : w'.Failed) :
    (a = .interrupted → ¬ Retried w.pc) ∧
      ∀ n, a = .ok n → ∃ done, w.pc = .pwrite done ∧ min n (r.span - done) = 0 := by
  cases effect with
  | idle a stays => exact absurd failed lives
  | fails a ret negative retried moved => exact ⟨retried, moved⟩
  | memalign n pc =>
      obtain ⟨ret, out, -⟩ := failed
      simp only at out
      split at out
      · cases out
      · exact absurd out ((filling_enterFill r).ne_out ret)
  | fstat n pc => exact absurd failed ((filling_enterFill r).not_failed _ _)
  | openRead n pc => exact absurd failed ((filling_enterRead r).not_failed _ _)
  | readHead n pc => exact absurd failed ((filling_afterHead r).not_failed _ _)
  | readTail n pc =>
      have filling : Filling .copy := trivial
      exact absurd failed (filling.not_failed _ _)
  | copy n pc | pwrite done n pc moved =>
      obtain ⟨ret, out, negative⟩ := failed
      have returned := enterLoop_out out
      rw [fits.ssize_size] at returned
      omega
  | ftruncate n file pc planned unplanned => exact absurd failed (not_failed_of_ssize fits rfl)

section Alone

variable {s s' : WriteSystem Unit}

/-- **In the step that gives up**, the file is at most as long as it may be exactly if
the write has not reached past the old end and the end of its range. -/
theorem Lengths.failing_iff (fits : r.Fits) (lengths : Lengths (fun _ => r) f₀ s) (alive : Alive s)
    (effect : Effect r s.file (s.writes ()) a f' w') (failed : w'.Failed) :
    s.file.length ≤ max f₀.length r.endOff ↔ FailsShort r f₀.length (s.writes ()) a := by
  have bounds := fits.endOff_bounds
  have floor : r.extent (s.writes ()).pc ≤ s.file.length := lengths.floor ()
  have ceiling : s.file.length ≤ f₀.length ∨ s.file.length ≤ r.extent (s.writes ()).pc :=
    lengths.ceiling.imp_right fun ⟨_, below⟩ => below
  obtain ⟨interrupted, answered⟩ := effect.answer_of_failed fits (alive ()) failed
  cases pc : (s.writes ()).pc with
  | pwrite done =>
      rw [pc] at floor ceiling interrupted answered
      have more := (lengths.formed ()).loop done pc
      have written : s.file.length ≤ max f₀.length r.endOff ↔
          r.start + done ≤ max f₀.length r.endOff := by
        simp only [extent] at floor ceiling
        by_cases first : done = 0
        · rw [if_pos first] at floor ceiling
          omega
        · rw [if_neg first] at floor ceiling
          omega
      cases a with
      | interrupted => exact absurd trivial (interrupted rfl)
      | fails errno set => simpa only [FailsShort, pc] using written
      | ok n =>
          obtain ⟨done', same, none⟩ := answered n rfl
          cases same
          obtain rfl : n = 0 := by omega
          simpa only [FailsShort, pc] using written
  | ftruncate =>
      rw [pc] at floor answered
      obtain ⟨t, cut⟩ := Option.isSome_iff_exists.mp ((lengths.formed ()).planned pc)
      obtain ⟨planned, short⟩ := lengths.cut () t cut
      -- The file reaches to the end of the last block, which lies past both ends.
      have long : ¬ s.file.length ≤ max f₀.length r.endOff := by
        simp only [extent] at floor
        omega
      cases a with
      | ok n =>
          obtain ⟨done, same, -⟩ := answered n rfl
          cases same
      | interrupted | fails => simpa only [FailsShort, pc, iff_false] using long
  | out ret =>
      rw [pc] at ceiling
      simp only [FailsShort, pc, iff_true]
      simp only [extent] at ceiling
      omega
  | memalign | fstat | openRead | readHead | readTail | copy =>
      rw [pc] at ceiling
      simp only [FailsShort, pc, iff_true]
      simp only [extent] at ceiling
      omega

theorem meets_failsShort_of_out {old : Nat} {ret : Int} (out : (s.writes ()).pc = .out ret)
    (labels : List (Unit × Answer)) :
    (writers fun _ => r).Meets (fun s l => FailsShort r old (s.writes l.1) l.2) labels s := by
  induction labels with
  | nil => trivial
  | cons l rest ih =>
      refine ⟨by simp only [FailsShort, out], fun s' step => ?_⟩
      rw [writers_step_of_out out l] at step
      cases step
      exact ih

/-- A step that does not give up meets the condition. -/
theorem failsShort_of_lives (old : Nat) (lives : ¬ (r.step a f w).2.Failed) :
    FailsShort r old w a := by
  unfold FailsShort
  split
  · rename_i done errno set pc
    refine absurd ⟨-errno, ?_, by omega⟩ lives
    simp only [WriteRequest.step, pc]
  · rename_i done pc
    refine absurd ⟨-eio, ?_, by decide⟩ lives
    simp only [WriteRequest.step, pc, Nat.zero_min, if_true]
  · rename_i errno set pc
    refine lives ⟨-errno, ?_, by omega⟩
    simp only [WriteRequest.step, pc]
  · rename_i pc
    refine lives ⟨-eintr, ?_, by decide⟩
    simp only [WriteRequest.step, pc]
  · trivial

/-- From a write in flight to the point where it has given up. -/
theorem length_iff_of_run (fits : r.Fits) (labels : List (Unit × Answer))
    (lengths : Lengths (fun _ => r) f₀ s) (alive : Alive s)
    (ran : (writers fun _ => r).run labels s = some s') (failed : (s'.writes ()).Failed) :
    s'.file.length ≤ max f₀.length r.endOff ↔
      (writers fun _ => r).Meets (fun s l => FailsShort r f₀.length (s.writes l.1) l.2)
        labels s := by
  induction labels generalizing s with
  | nil =>
      cases ran
      exact absurd failed (alive ())
  | cons l rest ih =>
      obtain ⟨⟨⟩, a⟩ := l
      obtain ⟨mid, step, later⟩ := Option.bind_eq_some_iff.mp ran
      obtain ⟨effect, -⟩ := writers_step step
      rw [Machine.meets_cons_iff step]
      by_cases gaveUp : (mid.writes ()).Failed
      · obtain ⟨ret, out, -⟩ := gaveUp
        rw [run_of_out out rest] at later
        cases later
        rw [effect.file_of_failed fits failed, lengths.failing_iff fits alive effect failed]
        exact ⟨fun short => ⟨short, meets_failsShort_of_out out rest⟩, fun meets => meets.1⟩
      · have alive' := alive_of_not_failed gaveUp
        have short : FailsShort r f₀.length (s.writes ()) a := by
          refine failsShort_of_lives _ (f := s.file) fun failed' => gaveUp ?_
          cases step
          simpa only [Function.update_self] using failed'
        rw [ih (lengths.step_alone fits step alive') alive' later]
        exact ⟨fun meets => ⟨short, meets⟩, fun meets => meets.2⟩

end Alone

/-- **The length that a failing write leaves.** Of every run in which the write gives up,
the file is then no longer than the old one and the end of the range exactly if no
truncation failed and no `pwrite` failed with bytes written past both ends. -/
theorem failing_length_iff (r : WriteRequest) (fits : r.Fits) (f₀ : File) (garbage : Nat → UInt8)
    (labels : List (Unit × Answer)) (s : WriteSystem Unit)
    (ran : (writers fun _ => r).run labels (inFlight (fun _ => r) f₀ fun _ => garbage) = some s)
    (failed : (s.writes ()).Failed) :
    s.file.length ≤ max f₀.length r.endOff ↔
      (writers fun _ => r).Meets (fun s l => FailsShort r f₀.length (s.writes l.1) l.2) labels
        (inFlight (fun _ => r) f₀ fun _ => garbage) := by
  have first : ((inFlight (fun _ : Unit => r) f₀ fun _ => garbage).writes ()).pc = .memalign :=
    call_pc fits garbage
  have alive : Alive (inFlight (fun _ : Unit => r) f₀ fun _ => garbage) := by
    refine alive_of_not_failed ?_
    rintro ⟨ret, out, -⟩
    rw [first] at out
    cases out
  exact length_iff_of_run fits labels (.start (fun _ => fits) f₀ _) alive ran failed

/-- The full disk stops the write inside its range. -/
theorem failing_length_iff_edgeWrite :
    (writers fun _ => edgeWrite).Meets
      (fun s l => FailsShort edgeWrite sevens.length (s.writes l.1) l.2) diskFull
      (inFlight (fun _ => edgeWrite) sevens fun _ _ => 0) := by
  have left : leavesAlone edgeWrite sevens diskFull = some (4096, .out (-28)) := by decide +kernel
  obtain ⟨s, ran, length, failed⟩ := failed_of_leavesAlone left (by decide)
  have iff := failing_length_iff edgeWrite ⟨by decide, by decide⟩ sevens (fun _ => 0) diskFull s ran
    failed
  exact iff.mp (by rw [length]; decide)

/-- A failing write leaves the file at most as long as the old one or its range. -/
def FailingLengthKept : Prop :=
  ∀ (r : WriteRequest) (f₀ : File) (garbage : Nat → UInt8) (labels : List (Unit × Answer))
    (s : WriteSystem Unit), r.Fits →
    (writers fun _ => r).Meets (fun s l => FullRead (s.writes l.1) l.2) labels
      (inFlight (fun _ => r) f₀ fun _ => garbage) →
    (writers fun _ => r).run labels (inFlight (fun _ => r) f₀ fun _ => garbage) = some s →
    (s.writes ()).Failed → s.file.length ≤ max f₀.length r.endOff

/-- **Padding stays behind**: a hundred bytes are written as a block, and the truncation
that would cut the block back fails. -/
theorem failing_write_leaves_padding : ¬ FailingLengthKept := by
  intro kept
  have left : leavesAlone (twoWrites 0) emptyFile
      (List.replicate 5 ((), .ok 4096) ++ [((), .fails 5 (by decide))]) =
        some (4096, .out (-5)) := by
    decide +kernel
  obtain ⟨s, ran, length, failed⟩ := failed_of_leavesAlone left (by decide)
  have short := kept _ _ _ _ s (twoWrites_fits 0) (fullRead_of_blocks _ _ _ _ _) ran failed
  rw [length] at short
  exact absurd short (by decide)

end OpenDS.Common
