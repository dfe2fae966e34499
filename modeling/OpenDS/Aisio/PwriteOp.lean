import OpenDS.Common.DisjointWrites

/-!
# The write of the aisio backend

`pwrite_op` writes through the file system and then has HOMI index the extents of the file
again. It asks for that when the direct write has returned a positive count. A direct write
that has changed the file and then fails leaves the old index in place
(`pwriteOp_invalidates_iff`).
-/

set_option autoImplicit false

namespace OpenDS.Aisio

open OpenDS.Library
open OpenDS.Common (WriteRequest WriteState WritePc File)

/-! ## The operation -/

/-- What a write does that the extent index has to know of. -/
inductive IndexEvent where
  /-- A `pwrite` or an `ftruncate` has taken effect on the file. -/
  | changed
  /-- `homic_mark_dirty` has been called. -/
  | markedDirty
  deriving DecidableEq, Repr

/-- Where `pwrite_op` stands. -/
inductive PwritePc where
  | direct (w : WriteState)
  | markDirty (ret : Int)
  | returned (ret : Int)

/-- A call of `pwrite_op` with what it has done so far. -/
structure PwriteOp where
  pc : PwritePc
  events : List IndexEvent

/-- What the environment answers: the kernel to a call, with the file that the call finds,
or HOMI. -/
inductive PwriteLabel where
  | kernel (a : Common.Answer) (f : File)
  | homic (rc : Int)

/-- The call takes effect on the file. -/
def takesEffect (r : WriteRequest) (w : WriteState) (a : Common.Answer) : Bool :=
  match w.pc, a with
  | .pwrite done, .ok n => min n (r.span - done) != 0
  | .ftruncate, .ok _ => true
  | _, _ => false

/-- The events past a call of the direct write. -/
def eventsPast (r : WriteRequest) (s : PwriteOp) (w : WriteState) (a : Common.Answer) :
    List IndexEvent :=
  if takesEffect r w a then s.events ++ [.changed] else s.events

/-- `pwrite_op` in or past the direct write. -/
def pwriteAt (w : WriteState) : PwritePc :=
  match w.pc with
  | .out ret => if ret ≤ 0 then .returned ret else .markDirty ret
  | _ => .direct w

/-- `pwrite_op`, one call of the kernel or of HOMI after the other. -/
def pwriteOp (r : WriteRequest) : Machine PwriteOp PwriteLabel where
  step s l := match s.pc, l with
    | .direct w, .kernel a f =>
      some ⟨pwriteAt (r.step a f w).2, eventsPast r s w a⟩
    | .markDirty ret, .homic rc =>
      some ⟨.returned (if rc < 0 then rc else ret), s.events ++ [.markedDirty]⟩
    | _, _ => none

/-- A call of `pwrite_op`. -/
def pwriteCall (r : WriteRequest) (garbage : Nat → UInt8) : PwriteOp :=
  ⟨pwriteAt (r.call garbage), []⟩

/-! ## What is asked of it -/

/-- **The index is stale**: the file has changed past the last time that
`homic_mark_dirty` was called. -/
def Stale (events : List IndexEvent) : Prop :=
  ∃ before after, events = before ++ .changed :: after ∧ .markedDirty ∉ after

/-- A call that the direct write makes on the file fails, or moves nothing. -/
def GivesUp (r : WriteRequest) (w : WriteState) (a : Common.Answer) : Prop :=
  match w.pc, a with
  | .pwrite _, .fails _ _ => True
  | .pwrite done, .ok n => min n (r.span - done) = 0
  | .ftruncate, .fails _ _ => True
  | .ftruncate, .interrupted => True
  | _, _ => False

/-- The step goes right: once the file has changed no call of the direct write fails, and
no call changes the file for a size whose count is negative. -/
def GoesRight (r : WriteRequest) (s : PwriteOp) (l : PwriteLabel) : Prop :=
  ∀ w a f, s.pc = .direct w → l = .kernel a f →
    (.changed ∈ s.events → ¬ GivesUp r w a) ∧ (takesEffect r w a = true → r.size < 2 ^ 63)

/-! ## What holds at any time -/

variable {r : WriteRequest} {s s' : PwriteOp} {l : PwriteLabel}

/-- Where a write stands that may have changed the file. -/
def Writing (pc : WritePc) : Prop := (∃ done, pc = .pwrite done) ∨ pc = .ftruncate

/-- What holds of a call of `pwrite_op` whatever it is answered: its last calls are those
that change the file, and it marks the index dirty past all of them. -/
structure PwriteInv (r : WriteRequest) (s : PwriteOp) : Prop where
  running : ∀ w, s.pc = .direct w → 0 < r.size ∧ ∀ ret, w.pc ≠ .out ret
  writing : ∀ w, s.pc = .direct w → .changed ∈ s.events → Writing w.pc
  unmarked : (∀ ret, s.pc ≠ .returned ret) → .markedDirty ∉ s.events

/-- The effects of the steps of `pwrite_op`. -/
inductive PwriteEffect (r : WriteRequest) (s : PwriteOp) : PwriteLabel → PwriteOp → Prop where
  | kernel (w : WriteState) (a : Common.Answer) (f : File) : s.pc = .direct w →
      PwriteEffect r s (.kernel a f) ⟨pwriteAt (r.step a f w).2, eventsPast r s w a⟩
  | homic (ret rc : Int) : s.pc = .markDirty ret →
      PwriteEffect r s (.homic rc)
        ⟨.returned (if rc < 0 then rc else ret), s.events ++ [.markedDirty]⟩

theorem pwriteOp_effect (step : (pwriteOp r).step s l = some s') :
    PwriteEffect r s l s' := by
  simp only [pwriteOp] at step
  split at step
  · rename_i pc
    cases step
    exact .kernel _ _ _ pc
  · rename_i pc
    cases step
    exact .homic _ _ pc
  · cases step

/-- How a call of the direct write ends: the write goes on, it gives up, or it returns its
size. -/
inductive DirectStep (r : WriteRequest) (w : WriteState) (a : Common.Answer) (w' : WriteState) :
    Prop where
  | goesOn : (∀ ret, w'.pc ≠ .out ret) → (Writing w.pc → Writing w'.pc) →
      (takesEffect r w a = true → Writing w'.pc) → ¬ GivesUp r w a → DirectStep r w a w'
  | fails (ret : Int) : w'.pc = .out ret → ret < 0 → takesEffect r w a = false →
      (Writing w.pc → GivesUp r w a) → DirectStep r w a w'
  | returns : w'.pc = .out (ssize r.size) → ¬ GivesUp r w a → DirectStep r w a w'

/-- Where the loop goes from a call that has moved bytes, or has nothing to move. -/
theorem directStep_enterLoop {w w' : WriteState} {a : Common.Answer} (truncTo : Option Nat)
    (done : Nat) (pc : w'.pc = r.enterLoop truncTo done) (goes : ¬ GivesUp r w a) :
    DirectStep r w a w' := by
  unfold WriteRequest.enterLoop at pc
  split at pc
  · refine .goesOn (fun ret => by rw [pc]; exact nofun) (fun _ => ?_) (fun _ => ?_) goes <;>
      exact .inl ⟨done, pc⟩
  · cases truncTo with
    | some length =>
        have cuts : w'.pc = .ftruncate := pc
        refine .goesOn (fun ret => by rw [cuts]; exact nofun) (fun _ => ?_) (fun _ => ?_) goes <;>
          exact .inr cuts
    | none => exact .returns pc goes

/-- A call before the loop has no effect on the file. -/
theorem not_takesEffect {w : WriteState} (reads : ¬ Writing w.pc) (a : Common.Answer) :
    takesEffect r w a = false ∧ ¬ GivesUp r w a := by
  cases pc : w.pc with
  | pwrite done => exact absurd (.inl ⟨done, pc⟩) reads
  | ftruncate => exact absurd (.inr pc) reads
  | _ => simp [takesEffect, GivesUp, pc]

/-- A call before the loop goes on to another one or fails. -/
theorem directStep_before {w w' : WriteState} {a : Common.Answer} (reads : ¬ Writing w.pc)
    (next : (∀ ret, w'.pc ≠ .out ret) ∨ ∃ ret, w'.pc = .out ret ∧ ret < 0) :
    DirectStep r w a w' := by
  obtain ⟨none, goes⟩ := not_takesEffect reads a
  rcases next with on | ⟨ret, out, negative⟩
  · refine .goesOn on (fun writing => absurd writing reads) (fun some => ?_) goes
    rw [none] at some
    cases some
  · exact .fails ret out negative none fun writing => absurd writing reads

/-- **How a call of the direct write ends.** -/
theorem direct_step (r : WriteRequest) {w : WriteState} (running : ∀ ret, w.pc ≠ .out ret)
    (a : Common.Answer) (f : File) : DirectStep r w a (r.step a f w).2 := by
  have negative : ∀ errno : Nat, 0 < errno → -(errno : Int) < 0 := by
    intro errno set
    omega
  cases pc : w.pc with
  | memalign =>
      refine directStep_before (by simp [pc, Writing]) ?_
      cases a with
      | ok n =>
          left
          intro ret
          simp only [WriteRequest.step, pc]
          split
          · intro same
            cases same
          · exact (Common.filling_enterFill r).ne_out ret
      | interrupted | fails =>
          exact .inr ⟨-Common.enomem, by simp [WriteRequest.step, pc], by decide⟩
  | fstat =>
      refine directStep_before (by simp [pc, Writing]) ?_
      cases a with
      | ok n =>
          refine .inl fun ret => ?_
          simpa [WriteRequest.step, pc] using (Common.filling_enterFill r).ne_out ret
      | interrupted => exact .inr ⟨-Common.eintr, by simp [WriteRequest.step, pc], by decide⟩
      | fails errno set => exact .inr ⟨-errno, by simp [WriteRequest.step, pc], negative errno set⟩
  | openRead =>
      refine directStep_before (by simp [pc, Writing]) ?_
      cases a with
      | ok n =>
          refine .inl fun ret => ?_
          simpa [WriteRequest.step, pc] using (Common.filling_enterRead r).ne_out ret
      | interrupted => exact .inr ⟨-Common.eintr, by simp [WriteRequest.step, pc], by decide⟩
      | fails errno set => exact .inr ⟨-errno, by simp [WriteRequest.step, pc], negative errno set⟩
  | readHead =>
      refine directStep_before (by simp [pc, Writing]) ?_
      cases a with
      | ok n =>
          refine .inl fun ret => ?_
          simpa [WriteRequest.step, pc] using (Common.filling_afterHead r).ne_out ret
      | interrupted => exact .inl fun ret => by simp [WriteRequest.step, pc]
      | fails errno set => exact .inr ⟨-errno, by simp [WriteRequest.step, pc], negative errno set⟩
  | readTail =>
      refine directStep_before (by simp [pc, Writing]) ?_
      cases a with
      | ok n => exact .inl fun ret => by simp [WriteRequest.step, pc]
      | interrupted => exact .inl fun ret => by simp [WriteRequest.step, pc]
      | fails errno set => exact .inr ⟨-errno, by simp [WriteRequest.step, pc], negative errno set⟩
  | copy =>
      cases a with
      | ok n =>
          exact directStep_enterLoop w.truncTo 0 (by simp [WriteRequest.step, pc])
            (not_takesEffect (by simp [pc, Writing]) _).2
      | interrupted | fails =>
          exact directStep_before (by simp [pc, Writing])
            (.inr ⟨-Common.eio, by simp [WriteRequest.step, pc], by decide⟩)
  | pwrite done =>
      cases a with
      | ok n =>
          by_cases none : min n (r.span - done) = 0
          · exact .fails (-Common.eio) (by simp [WriteRequest.step, pc, none]) (by decide)
              (by simp [takesEffect, pc, none]) fun _ => by simpa [GivesUp, pc] using none
          · exact directStep_enterLoop w.truncTo (done + min n (r.span - done))
              (by simp [WriteRequest.step, pc, none]) (by simpa [GivesUp, pc] using none)
      | interrupted =>
          refine .goesOn (by simp [WriteRequest.step, pc]) (fun writing => ?_)
            (by simp [takesEffect, pc]) (by simp [GivesUp, pc])
          simpa [WriteRequest.step, pc] using writing
      | fails errno set =>
          exact .fails (-errno) (by simp [WriteRequest.step, pc]) (negative errno set)
            (by simp [takesEffect, pc]) fun _ => by simp [GivesUp, pc]
  | ftruncate =>
      cases a with
      | ok n => exact .returns (by simp [WriteRequest.step, pc]) (by simp [GivesUp, pc])
      | interrupted =>
          exact .fails (-Common.eintr) (by simp [WriteRequest.step, pc]) (by decide)
            (by simp [takesEffect, pc]) fun _ => by simp [GivesUp, pc]
      | fails errno set =>
          exact .fails (-errno) (by simp [WriteRequest.step, pc]) (negative errno set)
            (by simp [takesEffect, pc]) fun _ => by simp [GivesUp, pc]
  | out ret => exact absurd pc (running ret)

/-! ## Staleness -/

variable {events : List IndexEvent}

theorem stale_snoc_changed (events : List IndexEvent) : Stale (events ++ [.changed]) :=
  ⟨events, [], rfl, List.not_mem_nil⟩

theorem not_stale_snoc_markedDirty (events : List IndexEvent) :
    ¬ Stale (events ++ [.markedDirty]) := by
  rintro ⟨before, after, split, unmarked⟩
  rcases List.eq_nil_or_concat after with rfl | ⟨init, last, rfl⟩
  · simpa using (List.append_inj' split rfl).2
  · rw [List.concat_eq_append, ← List.cons_append, ← List.append_assoc] at split
    have same := (List.append_inj' split rfl).2
    cases same
    exact unmarked (by simp)

/-- An index that has not been marked is stale as soon as the file has changed. -/
theorem stale_iff_changed (unmarked : .markedDirty ∉ events) : Stale events ↔ .changed ∈ events := by
  constructor
  · rintro ⟨before, after, rfl, -⟩
    simp
  · intro changed
    obtain ⟨before, after, rfl⟩ := List.append_of_mem changed
    exact ⟨before, after, rfl, fun marked => unmarked (by simp [marked])⟩

/-! ## One step -/

theorem changed_eventsPast {w : WriteState} {a : Common.Answer} :
    .changed ∈ eventsPast r s w a ↔ .changed ∈ s.events ∨ takesEffect r w a = true := by
  unfold eventsPast
  split <;> simp_all

theorem unmarked_eventsPast {w : WriteState} {a : Common.Answer}
    (unmarked : .markedDirty ∉ s.events) : .markedDirty ∉ eventsPast r s w a := by
  unfold eventsPast
  split <;> simp [unmarked]

theorem pwriteAt_running {w : WriteState} (running : ∀ ret, w.pc ≠ .out ret) :
    pwriteAt w = .direct w := by
  unfold pwriteAt
  split
  · rename_i ret out
    exact absurd out (running ret)
  · rfl

theorem pwriteAt_out {w : WriteState} {ret : Int} (out : w.pc = .out ret) :
    pwriteAt w = if ret ≤ 0 then .returned ret else .markDirty ret := by
  unfold pwriteAt
  rw [out]

theorem PwriteInv.call (r : WriteRequest) (garbage : Nat → UInt8) :
    PwriteInv r (pwriteCall r garbage) := by
  by_cases none : r.size = 0
  · have pc : (pwriteCall r garbage).pc = .returned 0 := by
      simp [pwriteCall, WriteRequest.call, none, pwriteAt]
    exact ⟨by simp [pc], by simp [pc], by simp [pc]⟩
  · have pc : (pwriteCall r garbage).pc = .direct (r.call garbage) := by
      simp [pwriteCall, WriteRequest.call, none, pwriteAt]
    refine ⟨fun w direct => ?_, fun w _ changed => ?_, fun _ marked => ?_⟩
    · cases pc.symm.trans direct
      simp [WriteRequest.call, none, Nat.pos_of_ne_zero none]
    · cases changed
    · cases marked

theorem PwriteInv.step (inv : PwriteInv r s) (step : (pwriteOp r).step s l = some s') :
    PwriteInv r s' := by
  cases pwriteOp_effect step with
  | kernel w a f pc =>
      obtain ⟨size, running⟩ := inv.running w pc
      have unmarked := inv.unmarked fun ret out => by cases pc.symm.trans out
      refine ⟨fun w' direct => ?_, fun w' direct changed => ?_, fun _ => unmarked_eventsPast unmarked⟩
      · cases direct_step r running a f with
        | goesOn on _ _ _ =>
            cases (pwriteAt_running on).symm.trans direct
            exact ⟨size, on⟩
        | fails ret out _ _ _ =>
            have past := (pwriteAt_out out).symm.trans direct
            split at past <;> cases past
        | returns out _ =>
            have past := (pwriteAt_out out).symm.trans direct
            split at past <;> cases past
      · cases direct_step r running a f with
        | goesOn on stays begins _ =>
            cases (pwriteAt_running on).symm.trans direct
            rcases changed_eventsPast.mp changed with old | new
            · exact stays (inv.writing w pc old)
            · exact begins new
        | fails ret out _ _ _ =>
            have past := (pwriteAt_out out).symm.trans direct
            split at past <;> cases past
        | returns out _ =>
            have past := (pwriteAt_out out).symm.trans direct
            split at past <;> cases past
  | homic ret rc pc => exact ⟨nofun, nofun, fun returned => absurd rfl (returned _)⟩

/-! ## Runs that go right -/

/-- What holds of a call whose steps go right. -/
structure Indexed (r : WriteRequest) (s : PwriteOp) : Prop where
  inv : PwriteInv r s
  counted : ∀ w, s.pc = .direct w → .changed ∈ s.events → r.size < 2 ^ 63
  returned : ∀ ret, s.pc = .returned ret → ¬ Stale s.events

theorem Indexed.step (indexed : Indexed r s) (right : GoesRight r s l)
    (step : (pwriteOp r).step s l = some s') : Indexed r s' := by
  have inv := indexed.inv.step step
  cases pwriteOp_effect step with
  | kernel w a f pc =>
      obtain ⟨size, running⟩ := indexed.inv.running w pc
      have unmarked : .markedDirty ∉ eventsPast r s w a :=
        unmarked_eventsPast (indexed.inv.unmarked fun ret out => by cases pc.symm.trans out)
      obtain ⟨holds, small⟩ := right w a f pc rfl
      have counted : .changed ∈ eventsPast r s w a → r.size < 2 ^ 63 := fun changed =>
        (changed_eventsPast.mp changed).elim (indexed.counted w pc) small
      refine ⟨inv, fun _ _ => counted, fun ret returned => ?_⟩
      intro stale
      have changed := (stale_iff_changed unmarked).mp stale
      cases direct_step r running a f with
      | goesOn on _ _ _ => cases (pwriteAt_running on).symm.trans returned
      | fails ret' out negative none gaveUp =>
          rcases changed_eventsPast.mp changed with old | new
          · exact holds old (gaveUp (indexed.inv.writing w pc old))
          · rw [none] at new
            cases new
      | returns out _ =>
          have past := (pwriteAt_out out).symm.trans returned
          rw [ssize_of_lt (counted changed), if_neg (by omega)] at past
          cases past
  | homic ret rc pc => exact ⟨inv, nofun, fun _ _ => not_stale_snoc_markedDirty _⟩

/-! ## Runs that do not -/

/-- The index is stale and is not going to be marked dirty any more. -/
structure LeftStale (r : WriteRequest) (s : PwriteOp) : Prop where
  inv : PwriteInv r s
  stale : Stale s.events
  past : (∃ ret, s.pc = .returned ret) ∨ (∃ w, s.pc = .direct w) ∧ 2 ^ 63 ≤ r.size

/-- A direct write whose count is negative does not lead to HOMI. -/
theorem pwriteAt_negative {w : WriteState} (large : 2 ^ 63 ≤ r.size) (bound : r.size < 2 ^ 64)
    (running : ∀ ret, w.pc ≠ .out ret) (a : Common.Answer) (f : File) :
    (∃ ret, pwriteAt (r.step a f w).2 = .returned ret) ∨ ∃ w', pwriteAt (r.step a f w).2 = .direct w' := by
  have negative : ssize r.size ≤ 0 := by
    unfold ssize
    rw [Int.bmod_def]
    omega
  cases direct_step r running a f with
  | goesOn on _ _ _ => exact .inr ⟨_, pwriteAt_running on⟩
  | fails ret out less _ _ => exact .inl ⟨ret, (pwriteAt_out out).trans (if_pos less.le)⟩
  | returns out _ => exact .inl ⟨_, (pwriteAt_out out).trans (if_pos negative)⟩

theorem LeftStale.step (bound : r.size < 2 ^ 64) (left : LeftStale r s)
    (step : (pwriteOp r).step s l = some s') : LeftStale r s' := by
  have inv := left.inv.step step
  cases pwriteOp_effect step with
  | kernel w a f pc =>
      have large : 2 ^ 63 ≤ r.size := by
        rcases left.past with ⟨ret, returned⟩ | ⟨-, large⟩
        · cases pc.symm.trans returned
        · exact large
      obtain ⟨-, running⟩ := left.inv.running w pc
      have unmarked := left.inv.unmarked fun ret out => by cases pc.symm.trans out
      have changed := (stale_iff_changed unmarked).mp left.stale
      refine ⟨inv, ?_, (pwriteAt_negative large bound running a f).imp_right fun on => ⟨on, large⟩⟩
      exact (stale_iff_changed (unmarked_eventsPast unmarked)).mpr (changed_eventsPast.mpr (.inl changed))
  | homic ret rc pc =>
      rcases left.past with ⟨ret', returned⟩ | ⟨⟨w, direct⟩, -⟩
      · cases pc.symm.trans returned
      · cases pc.symm.trans direct

/-- A step that goes wrong leaves the index stale. -/
theorem PwriteInv.spoils (bound : r.size < 2 ^ 64) (inv : PwriteInv r s)
    (wrong : ¬ GoesRight r s l) (step : (pwriteOp r).step s l = some s') : LeftStale r s' := by
  have inv' := inv.step step
  unfold GoesRight at wrong
  push Not at wrong
  obtain ⟨w, a, f, pc, rfl, wrong⟩ := wrong
  obtain ⟨-, running⟩ := inv.running w pc
  have unmarked := inv.unmarked fun ret out => by cases pc.symm.trans out
  have next : s' = ⟨pwriteAt (r.step a f w).2, eventsPast r s w a⟩ := by
    simp only [pwriteOp, pc] at step
    cases step
    rfl
  subst next
  have stale : .changed ∈ eventsPast r s w a → Stale (eventsPast r s w a) :=
    (stale_iff_changed (unmarked_eventsPast unmarked)).mpr
  by_cases gaveUp : .changed ∈ s.events ∧ GivesUp r w a
  · refine ⟨inv', stale (changed_eventsPast.mpr (.inl gaveUp.1)), .inl ?_⟩
    cases direct_step r running a f with
    | goesOn _ _ _ goes => exact absurd gaveUp.2 goes
    | fails ret out less _ _ => exact ⟨ret, (pwriteAt_out out).trans (if_pos less.le)⟩
    | returns _ goes => exact absurd gaveUp.2 goes
  · obtain ⟨effect, large⟩ := wrong fun changed gives => gaveUp ⟨changed, gives⟩
    refine ⟨inv', stale (changed_eventsPast.mpr (.inr effect)), ?_⟩
    exact (pwriteAt_negative large bound running a f).imp_right fun on => ⟨on, large⟩

/-! ## Whole calls -/

/-- **`pwrite_op` leaves no stale index exactly if its steps go right**: in a run in which
it returns, the index is marked dirty past all changes of the file exactly if no call
fails once the file has changed, and the file does not change for a size past the range of
`ssize_t`. -/
theorem pwriteOp_invalidates_iff (bound : r.size < 2 ^ 64) {garbage : Nat → UInt8}
    {labels : List PwriteLabel} (ran : (pwriteOp r).run labels (pwriteCall r garbage) = some s)
    {ret : Int} (returned : s.pc = .returned ret) :
    ¬ Stale s.events ↔ (pwriteOp r).Meets (GoesRight r) labels (pwriteCall r garbage) := by
  constructor
  · intro fresh
    exact Machine.meets_of_run (fun _ _ _ inv step => PwriteInv.step inv step)
      (fun _ _ _ inv wrong step => PwriteInv.spoils bound inv wrong step)
      (fun _ _ _ left step => LeftStale.step bound left step) (.call r garbage) ran
      fun left => fresh left.stale
  · intro meets
    have start : Indexed r (pwriteCall r garbage) :=
      ⟨.call r garbage, fun _ _ changed => (List.not_mem_nil changed).elim,
        fun _ _ stale => List.not_mem_nil ((stale_iff_changed List.not_mem_nil).mp stale)⟩
    exact (Machine.run_invariant (fun _ _ _ indexed right step => Indexed.step indexed right step)
      start meets ran).returned ret returned

/-- A write of two blocks. -/
def twoBlocksWrite : WriteRequest := ⟨true, fun _ => 1, 8192, 0⟩

/-- The answer of the kernel to a call that finds an empty file. -/
def onEmpty (a : Common.Answer) : PwriteLabel := .kernel a Common.emptyFile

/-- Where a run of `pwrite_op` ends, and what it has done. -/
def outcome (labels : List PwriteLabel) : Option (Option Int × List IndexEvent) :=
  ((pwriteOp twoBlocksWrite).run labels (pwriteCall twoBlocksWrite fun _ => 0)).map fun s =>
    (match s.pc with
      | .returned ret => some ret
      | _ => none, s.events)

theorem returned_of_outcome {labels : List PwriteLabel} {ret : Int} {events : List IndexEvent}
    (ends : outcome labels = some (some ret, events)) :
    ∃ s, (pwriteOp twoBlocksWrite).run labels (pwriteCall twoBlocksWrite fun _ => 0) = some s ∧
      s.pc = .returned ret ∧ s.events = events := by
  obtain ⟨s, ran, facts⟩ := Option.map_eq_some_iff.mp ends
  obtain ⟨pc, rfl⟩ := Prod.mk.inj facts
  refine ⟨s, ran, ?_, rfl⟩
  split at pc
  · rename_i ret' here
    cases pc
    exact here
  · cases pc

/-- A write in two transfers is indexed. -/
theorem pwriteOp_invalidates_iff_twoBlocks :
    (pwriteOp twoBlocksWrite).Meets (GoesRight twoBlocksWrite)
      [onEmpty (.ok 0), onEmpty (.ok 0), onEmpty (.ok 4096), onEmpty (.ok 4096), .homic 0]
      (pwriteCall twoBlocksWrite fun _ => 0) := by
  have ends : outcome [onEmpty (.ok 0), onEmpty (.ok 0), onEmpty (.ok 4096), onEmpty (.ok 4096),
      .homic 0] = some (some 8192, [.changed, .changed, .markedDirty]) := by decide +kernel
  obtain ⟨s, ran, returned, events⟩ := returned_of_outcome ends
  refine (pwriteOp_invalidates_iff (by decide) ran returned).mp ?_
  rw [events]
  exact not_stale_snoc_markedDirty [.changed, .changed]

/-- **A write that fails half way leaves a stale index.** -/
theorem failed_write_leaves_stale_index :
    ¬ ∀ (r : WriteRequest) (garbage : Nat → UInt8) (labels : List PwriteLabel) (s : PwriteOp)
        (ret : Int), r.size < 2 ^ 64 → (pwriteOp r).run labels (pwriteCall r garbage) = some s →
        s.pc = .returned ret → ¬ Stale s.events := by
  intro fresh
  have ends : outcome [onEmpty (.ok 0), onEmpty (.ok 0), onEmpty (.ok 4096),
      onEmpty (.fails 28 (by decide))] = some (some (-28), [.changed]) := by decide +kernel
  obtain ⟨s, ran, returned, events⟩ := returned_of_outcome ends
  refine fresh twoBlocksWrite _ _ s (-28) (by decide) ran returned ?_
  rw [events]
  exact stale_snoc_changed []

end OpenDS.Aisio
