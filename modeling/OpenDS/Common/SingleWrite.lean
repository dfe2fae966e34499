import OpenDS.Common.DisjointWrites

/-!
# A write with no other one in flight

With no other write on the file the truncation finds the file as the write left it,
so the conditions under which writes survive hold in every run. What is left to show
is that the function returns: each call that goes through brings it closer to its
end, and an interrupted one leaves it where it is.
-/

set_option autoImplicit false

namespace OpenDS.Common

open OpenDS.Library WriteRequest

variable {r : WriteRequest} {f f' f₀ : File} {w w' : WriteState} {a : Answer}

/-- The call goes through: a read gives all there is, a `pwrite` moves at least one
byte, and only calls that are retried are interrupted. -/
def GoesThrough (w : WriteState) : Answer → Prop
  | .ok n => (w.pc = .readHead ∨ w.pc = .readTail → directAlign ≤ n) ∧
      ∀ done, w.pc = .pwrite done → 0 < n
  | .interrupted => Retried w.pc
  | .fails _ _ => False

/-- The call went through. -/
def Answer.isOk : Answer → Bool
  | .ok _ => true
  | _ => false

/-- The call does not end the write: a `pwrite` moves at least one byte, and only calls that
are retried are interrupted. -/
def Proceeds (w : WriteState) : Answer → Prop
  | .ok n => ∀ done, w.pc = .pwrite done → 0 < n
  | .interrupted => Retried w.pc
  | .fails _ _ => False

theorem GoesThrough.proceeds (goes : GoesThrough w a) : Proceeds w a := by
  cases a with
  | ok n => exact goes.2
  | interrupted => exact goes
  | fails errno set => exact goes

theorem GoesThrough.fullRead (goes : GoesThrough w a) : FullRead w a := by
  rintro n rfl reading
  exact goes.1 reading

theorem enterLoop_out {truncTo : Option Nat} {done : Nat} {ret : Int}
    (out : r.enterLoop truncTo done = .out ret) : ret = ssize r.size := by
  unfold enterLoop at out
  split at out
  · cases out
  · cases truncTo with
    | some length => cases out
    | none => exact (WritePc.out.inj out).symm

/-- The write has not returned anything but its size. -/
def ReturnsSize (r : WriteRequest) (w : WriteState) : Prop :=
  ∀ ret, w.pc = .out ret → ret = ssize r.size

theorem ReturnsSize.step (formed : Formed r w) (proceeds : Proceeds w a)
    (effect : Effect r f w a f' w') (returns : ReturnsSize r w) : ReturnsSize r w' := by
  intro ret out
  cases effect with
  | idle a stays => exact returns ret out
  | fails a ret' negative retried moved =>
      -- A write that proceeds does not give up.
      cases a with
      | ok n =>
          obtain ⟨done, pc, none⟩ := moved n rfl
          have some := proceeds done pc
          have more := formed.loop done pc
          omega
      | interrupted => exact absurd proceeds (retried rfl)
      | fails errno set => exact proceeds.elim
  | memalign n pc =>
      simp only at out
      split at out
      · cases out
      · exact absurd out ((filling_enterFill r).ne_out ret)
  | fstat n pc => exact absurd out ((filling_enterFill r).ne_out ret)
  | openRead n pc => exact absurd out ((filling_enterRead r).ne_out ret)
  | readHead n pc => exact absurd out ((filling_afterHead r).ne_out ret)
  | readTail n pc => cases out
  | copy n pc => exact enterLoop_out out
  | pwrite done n pc moved => exact enterLoop_out out
  | ftruncate n file pc planned unplanned => exact (WritePc.out.inj out).symm

theorem WriteRequest.Fits.ssize_size (fits : r.Fits) : ssize r.size = r.size :=
  ssize_of_lt (by have := fits.representable; omega)

/-! ## The function returns -/

/-- How many calls that go through the write can still make. -/
def WriteRequest.rank (r : WriteRequest) : WritePc → Nat
  | .memalign => r.span + 7
  | .fstat => r.span + 6
  | .openRead => r.span + 5
  | .readHead => r.span + 4
  | .readTail => r.span + 3
  | .copy => r.span + 2
  | .pwrite done => r.span - done + 1
  | .ftruncate => 1
  | .out _ => 0

theorem rank_eq_zero {pc : WritePc} (none : r.rank pc = 0) : ∃ ret, pc = .out ret := by
  cases pc with
  | out ret => exact ⟨ret, rfl⟩
  | memalign | fstat | openRead | readHead | readTail | copy | pwrite | ftruncate =>
      simp [rank] at none

theorem rank_afterHead (r : WriteRequest) : r.rank r.afterHead ≤ r.span + 3 := by
  unfold afterHead
  split <;> simp only [rank] <;> omega

theorem rank_enterRead (r : WriteRequest) : r.rank r.enterRead ≤ r.span + 4 := by
  unfold enterRead
  split
  · exact Nat.le_refl _
  · exact Nat.le_succ_of_le (rank_afterHead r)

theorem rank_enterFill (r : WriteRequest) : r.rank r.enterFill ≤ r.span + 5 := by
  unfold enterFill
  split
  · split
    · exact Nat.le_refl _
    · exact Nat.le_succ_of_le (rank_enterRead r)
  · simp only [rank]
    omega

theorem rank_enterLoop (r : WriteRequest) (truncTo : Option Nat) (done : Nat) :
    r.rank (r.enterLoop truncTo done) ≤ r.span - done + 1 := by
  unfold enterLoop
  split
  · exact Nat.le_refl _
  · cases truncTo <;> simp [afterLoop, rank]

/-- **Every call that goes through brings the write closer to its end**, and no
other step takes it further away. -/
theorem Effect.rank (formed : Formed r w) (effect : Effect r f w a f' w') :
    r.rank w'.pc ≤ r.rank w.pc ∧ ((∃ n, a = .ok n) → r.rank w'.pc ≤ r.rank w.pc - 1) := by
  have closer : r.rank w'.pc ≤ r.rank w.pc - 1 →
      r.rank w'.pc ≤ r.rank w.pc ∧ ((∃ n, a = .ok n) → r.rank w'.pc ≤ r.rank w.pc - 1) :=
    fun less => ⟨Nat.le_trans less (Nat.sub_le _ _), fun _ => less⟩
  cases effect with
  | idle a stays =>
      refine ⟨Nat.le_refl _, ?_⟩
      rintro ⟨n, rfl⟩
      obtain ⟨ret, out⟩ := stays.resolve_left (by simp)
      rw [out]
      exact Nat.le_refl _
  | fails a ret negative _ _ => exact closer (Nat.zero_le _)
  | memalign n pc =>
      refine closer ?_
      rw [pc]
      change r.rank (if r.tail ≠ 0 then .fstat else r.enterFill) ≤ r.span + 7 - 1
      split
      · change r.span + 6 ≤ r.span + 7 - 1
        omega
      · have fill := rank_enterFill r
        omega
  | fstat n pc =>
      refine closer ?_
      have rest := rank_enterFill r
      rw [pc]
      change r.rank r.enterFill ≤ r.span + 6 - 1
      omega
  | openRead n pc =>
      refine closer ?_
      have rest := rank_enterRead r
      rw [pc]
      change r.rank r.enterRead ≤ r.span + 5 - 1
      omega
  | readHead n pc =>
      refine closer ?_
      have rest := rank_afterHead r
      rw [pc]
      change r.rank r.afterHead ≤ r.span + 4 - 1
      omega
  | readTail n pc =>
      refine closer ?_
      rw [pc]
      change r.span + 2 ≤ r.span + 3 - 1
      omega
  | copy n pc =>
      refine closer ?_
      have loop := rank_enterLoop r w.truncTo 0
      rw [pc]
      change r.rank (r.enterLoop w.truncTo 0) ≤ r.span + 2 - 1
      omega
  | pwrite done n pc moved =>
      refine closer ?_
      have more := formed.loop done pc
      have loop := rank_enterLoop r w.truncTo (done + min n (r.span - done))
      rw [pc]
      change r.rank (r.enterLoop w.truncTo _) ≤ r.span - done + 1 - 1
      omega
  | ftruncate n file pc planned unplanned => exact closer (Nat.zero_le _)

/-! ## One write alone -/

section Alone

variable {req : Unit → WriteRequest} {s s' : WriteSystem Unit}

/-- With no other write the file does not reach past the blocks of a write that has
to cut it back. -/
theorem Lengths.cutsInside (lengths : Lengths req f₀ s) (l : Unit × Answer) :
    CutsInside req s l := by
  intro pc _
  obtain ⟨t, cut⟩ := Option.isSome_iff_exists.mp ((lengths.formed l.1).planned pc)
  obtain ⟨exact', short⟩ := lengths.cut l.1 t cut
  rcases lengths.ceiling with old | ⟨i, below⟩
  · omega
  · change s.file.length ≤ (req l.1).extent (s.writes l.1).pc at below
    rw [pc] at below
    exact below

/-- What holds of one write alone while all of its calls go through. -/
structure AloneInv (req : Unit → WriteRequest) (f₀ : File) (s : WriteSystem Unit) : Prop where
  inv : DisjointInv req f₀ s
  returns : ReturnsSize (req ()) (s.writes ())

theorem AloneInv.alive (fits : ∀ i, (req i).Fits) (alone : AloneInv req f₀ s) : Alive s := by
  rintro ⟨⟩ ⟨ret, out, negative⟩
  have size := alone.returns ret out
  rw [(fits ()).ssize_size] at size
  omega

theorem AloneInv.step (fits : ∀ i, (req i).Fits) (alone : AloneInv req f₀ s)
    {l : Unit × Answer} (goes : GoesThrough (s.writes l.1) l.2)
    (step : (writers req).step s l = some s') : AloneInv req f₀ s' := by
  obtain ⟨⟨⟩, a⟩ := l
  have apart : BlocksApart req := fun i j ne => absurd rfl ne
  obtain ⟨effect, -⟩ := writers_step step
  have returns := alone.returns.step (alone.inv.lengths.formed ()) goes.proceeds effect
  have alive : Alive s' := by
    rintro ⟨⟩ ⟨ret, out, negative⟩
    have size := returns ret out
    rw [(fits ()).ssize_size] at size
    omega
  exact ⟨alone.inv.step fits apart goes.fullRead (alone.inv.lengths.cutsInside _) step alive,
    returns⟩

theorem AloneInv.start (fits : ∀ i, (req i).Fits) (f₀ : File) (garbage : Unit → Nat → UInt8) :
    AloneInv req f₀ (inFlight req f₀ garbage) := by
  refine ⟨⟨.start fits f₀ garbage, .start fits f₀ garbage⟩, fun ret out => ?_⟩
  rw [show ((inFlight req f₀ garbage).writes ()).pc = .memalign from
    call_pc (fits ()) (garbage ())] at out
  cases out

/-- The calls of a run that go through count down the rank. -/
theorem run_rank (fits : ∀ i, (req i).Fits) (labels : List (Unit × Answer)) {s : WriteSystem Unit}
    (alone : AloneInv req f₀ s)
    (goes : (writers req).Meets (fun s l => GoesThrough (s.writes l.1) l.2) labels s) :
    ∃ s', (writers req).run labels s = some s' ∧ AloneInv req f₀ s' ∧
      (req ()).rank (s'.writes ()).pc ≤
        (req ()).rank (s.writes ()).pc - labels.countP (fun l => l.2.isOk) := by
  induction labels generalizing s with
  | nil => exact ⟨s, rfl, alone, Nat.le_refl _⟩
  | cons l rest ih =>
      obtain ⟨⟨⟩, a⟩ := l
      obtain ⟨mid, step⟩ : ∃ mid, (writers req).step s ((), a) = some mid := ⟨_, rfl⟩
      obtain ⟨effect, -⟩ := writers_step step
      have rank := effect.rank (alone.inv.lengths.formed ())
      obtain ⟨s', ran, final, below⟩ := ih (alone.step fits goes.1 step) (goes.2 mid step)
      refine ⟨s', by rw [Machine.run_cons, step]; exact ran, final, ?_⟩
      cases a with
      | ok n =>
          have less := rank.2 ⟨n, rfl⟩
          rw [List.countP_cons_of_pos rfl]
          omega
      | interrupted | fails =>
          have kept := rank.1
          rw [List.countP_cons_of_neg Bool.false_ne_true]
          omega

/-- A write that has returned takes no more steps. -/
theorem writers_step_of_out {r : WriteRequest} {ret : Int} (out : (s.writes ()).pc = .out ret) (l : Unit × Answer) :
    (writers fun _ => r).step s l = some s := by
  obtain ⟨⟨⟩, a⟩ := l
  have still : r.step a s.file (s.writes ()) = (s.file, s.writes ()) := by
    simp only [WriteRequest.step, out]
  simp only [writers, still, Function.update_eq_self]

theorem run_of_out {r : WriteRequest} {ret : Int} (out : (s.writes ()).pc = .out ret) (labels : List (Unit × Answer)) :
    (writers fun _ => r).run labels s = some s := by
  induction labels with
  | nil => rfl
  | cons l rest ih =>
      rw [Machine.run_cons, writers_step_of_out out l]
      exact ih

/-- A write alone that has returned is the plain write of its range. -/
theorem AloneInv.returned {r : WriteRequest} (fits : r.Fits) (alone : AloneInv (fun _ => r) f₀ s)
    {ret : Int} (out : (s.writes ()).pc = .out ret) :
    ret = r.size ∧ s.file = f₀.pwrite r.off r.size r.src := by
  have fitsAll : ∀ _ : Unit, r.Fits := fun _ => fits
  have size := alone.returns ret out
  rw [fits.ssize_size] at size
  subst size
  refine ⟨rfl, ?_⟩
  have returned : ∀ i, (s.writes i).pc = .out r.size := fun _ => out
  obtain ⟨inRange, outside⟩ := alone.inv.content.returned fitsAll returned
  have length := alone.inv.lengths.returned returned
  rw [Set.range_const] at length
  refine ByteFile.ext ?_ (funext fun p => ?_)
  · rw [ByteFile.pwrite_length_pos _ fits.size]
    exact length.unique isGreatest_pair
  · by_cases range : r.Range p
    · rw [inRange () p range, ByteFile.pwrite_byte_of_mem _ _ range.1 range.2]
    · rw [outside p fun _ => range, ByteFile.pwrite_byte_of_not_mem _ _ range]

/-- **A single write is the plain write of its range.** On every file, for every
request and every schedule of short transfers and interrupted calls, the function
returns after at most `span + 7` calls that go through; it returns the size, and the
file is the old one with the range replaced by the source. -/
theorem directPwrite_correct (r : WriteRequest) (fits : r.Fits) (f₀ : File) (garbage : Nat → UInt8)
    (labels : List (Unit × Answer))
    (goes : (writers fun _ => r).Meets (fun s l => GoesThrough (s.writes l.1) l.2) labels
      (inFlight (fun _ => r) f₀ fun _ => garbage)) :
    ∃ s, (writers fun _ => r).run labels (inFlight (fun _ => r) f₀ fun _ => garbage) = some s ∧
      (∀ ret, (s.writes ()).pc = .out ret →
        ret = r.size ∧ s.file = f₀.pwrite r.off r.size r.src) ∧
      (r.span + 7 ≤ labels.countP (fun l => l.2.isOk) →
        ∃ ret, (s.writes ()).pc = .out ret) := by
  have fitsAll : ∀ _ : Unit, r.Fits := fun _ => fits
  have start : AloneInv (fun _ => r) f₀ _ := .start fitsAll f₀ fun _ => garbage
  obtain ⟨s, ran, alone, rank⟩ := run_rank fitsAll labels start goes
  refine ⟨s, ran, fun ret out => alone.returned fits out, fun enough => rank_eq_zero (r := r) ?_⟩
  have first : ((inFlight (fun _ : Unit => r) f₀ fun _ => garbage).writes ()).pc = .memalign :=
    call_pc fits garbage
  rw [first] at rank
  change r.rank (s.writes ()).pc ≤ r.span + 7 - _ at rank
  omega

end Alone

/-- A write with two partial edge blocks, through a write-only descriptor. -/
def edgeWrite : WriteRequest := ⟨true, UInt8.ofNat, 5000, 100⟩

/-- Its calls on the empty file: the first read is interrupted, and each `pwrite`
moves one block. -/
def edgeCalls : List (Unit × Answer) :=
  List.replicate 3 ((), .ok 4096) ++ [((), .interrupted)] ++ List.replicate 6 ((), .ok 4096)

/-- Each call moves a block, but for an interrupted read of the first one. -/
def blockwise (s : WriteSystem Unit) : Unit × Answer → Bool
  | (_, .ok n) => decide (4096 ≤ n)
  | (_, .interrupted) => decide ((s.writes ()).pc = .readHead)
  | (_, .fails _ _) => false

theorem edgeCalls_goThrough :
    (writers fun _ => edgeWrite).Meets (fun s l => GoesThrough (s.writes l.1) l.2) edgeCalls
      (inFlight (fun _ => edgeWrite) emptyFile fun _ _ => 0) := by
  have passes : (writers fun _ => edgeWrite).check blockwise edgeCalls
      (inFlight (fun _ => edgeWrite) emptyFile fun _ _ => 0) = true := by decide +kernel
  refine Machine.meets_of_check (fun s l passed => ?_) passes
  obtain ⟨⟨⟩, a⟩ := l
  cases a with
  | ok n =>
      have block : 4096 ≤ n := of_decide_eq_true passed
      exact ⟨fun _ => block, fun _ _ => by omega⟩
  | interrupted =>
      have pc : (s.writes ()).pc = .readHead := of_decide_eq_true passed
      change Retried (s.writes ()).pc
      rw [pc]
      trivial
  | fails errno set => cases passed

/-- The write with two partial edge blocks extends the empty file to 5100 bytes. -/
theorem directPwrite_correct_edgeWrite :
    ∃ s, (writers fun _ => edgeWrite).run edgeCalls
        (inFlight (fun _ => edgeWrite) emptyFile fun _ _ => 0) = some s ∧
      ((s.writes ()).pc = .out 5000 → s.file = emptyFile.pwrite 100 5000 UInt8.ofNat) := by
  obtain ⟨s, ran, result, -⟩ := directPwrite_correct edgeWrite ⟨by decide, by decide⟩ emptyFile
    (fun _ => 0) edgeCalls edgeCalls_goThrough
  exact ⟨s, ran, fun out => (result 5000 out).2⟩

example : ((writers fun _ => edgeWrite).run edgeCalls
    (inFlight (fun _ => edgeWrite) emptyFile fun _ _ => 0)).map
      (fun s => (s.file.length, (s.writes ()).pc)) = some (5100, .out 5000) := by
  decide +kernel

end OpenDS.Common
