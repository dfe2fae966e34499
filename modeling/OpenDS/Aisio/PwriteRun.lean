import OpenDS.Aisio.PwriteOp
import OpenDS.Common.CallOutcomes

/-!
# A run of `pwrite_op` on its file

`pwrite_op` with the file that its calls change, while nothing else writes to it. A call that
returns a count has written its range and marked the index dirty; a call that returns an
error and has changed nothing leaves the file as it was (`pwriteAlone_ends`).
-/

set_option autoImplicit false

namespace OpenDS.Aisio

open OpenDS.Library
open OpenDS.Common (WriteRequest WriteState WritePc WriteSystem File)

/-- What a call of `pwrite_op` is answered, by the kernel or by HOMI. -/
inductive CallAnswer where
  | kernel (a : Common.Answer)
  | homic (rc : Int)

/-- `pwrite_op` on a file that nothing else changes. -/
def pwriteAlone (r : WriteRequest) : Machine (File × PwriteOp) CallAnswer where
  step s l := match s.2.pc, l with
    | .direct w, .kernel a =>
      ((pwriteOp r).step s.2 (.kernel a s.1)).map fun p => ((r.step a s.1 w).1, p)
    | _, .homic rc => ((pwriteOp r).step s.2 (.homic rc)).map fun p => (s.1, p)
    | _, _ => none

/-- The reads of the edge blocks give all there is of them. -/
def ReadsEdgesFully (s : File × PwriteOp) (l : CallAnswer) : Prop :=
  ∀ w a, s.2.pc = .direct w → l = .kernel a → Common.FullRead w a

variable {r : WriteRequest} {f₀ : File} {s s' : File × PwriteOp} {l : CallAnswer}

/-- A call that takes no effect leaves the file as it is. -/
theorem file_of_not_takesEffect (r : WriteRequest) (a : Common.Answer) (f : File) (w : WriteState)
    (none : takesEffect r w a = false) : (r.step a f w).1 = f := by
  unfold takesEffect at none
  cases pc : w.pc with
  | pwrite done =>
      cases a with
      | ok n =>
          simp only [pc, bne_eq_false_iff_eq] at none
          simp only [WriteRequest.step, pc, if_pos none]
      | interrupted | fails => simp only [WriteRequest.step, pc]
  | ftruncate =>
      cases a with
      | ok n => simp [pc] at none
      | interrupted | fails => simp only [WriteRequest.step, pc]
  | memalign | fstat | openRead | readHead | readTail | copy | out =>
      cases a <;> simp only [WriteRequest.step, pc]

/-- The direct write inside a call of `pwrite_op`, as a write alone on its file. -/
def directOf (f : File) (w : WriteState) : WriteSystem Unit := ⟨f, fun _ => w⟩

/-- What holds of a call of `pwrite_op` on its file. -/
structure CallInv (r : WriteRequest) (f₀ : File) (s : File × PwriteOp) : Prop where
  op : PwriteInv r s.2
  direct : ∀ w, s.2.pc = .direct w → Common.SparesInv r f₀ (directOf s.1 w)
  untouched : .changed ∉ s.2.events → s.1 = f₀
  markDirty : ∀ ret, s.2.pc = .markDirty ret →
    ret = r.size ∧ s.1 = f₀.pwrite r.off r.size r.src
  returned : ∀ ret, s.2.pc = .returned ret → 0 ≤ ret →
    ret = r.size ∧ s.1 = f₀.pwrite r.off r.size r.src ∧ .markedDirty ∈ s.2.events

theorem CallInv.call (fits : r.Fits) (f₀ : File) (garbage : Nat → UInt8) :
    CallInv r f₀ (f₀, pwriteCall r garbage) := by
  have called : (r.call garbage).pc = .memalign := Common.call_pc fits garbage
  have pc : (pwriteCall r garbage).pc = .direct (r.call garbage) :=
    pwriteAt_running fun ret out => by
      rw [called] at out
      cases out
  refine ⟨.call r garbage, fun w direct => ?_, fun _ => rfl, fun ret here => ?_,
    fun ret here => ?_⟩
  · cases pc.symm.trans direct
    exact .start fits f₀ fun _ => garbage
  · cases pc.symm.trans here
  · cases pc.symm.trans here

/-- A step of `pwrite_op` with its file: a call of the kernel, or the one of HOMI. -/
inductive CallEffect (r : WriteRequest) (s : File × PwriteOp) : CallAnswer → File × PwriteOp → Prop
    where
  | kernel (w : WriteState) (a : Common.Answer) : s.2.pc = .direct w →
      CallEffect r s (.kernel a)
        ((r.step a s.1 w).1, ⟨pwriteAt (r.step a s.1 w).2, eventsPast r s.2 w a⟩)
  | homic (ret rc : Int) : s.2.pc = .markDirty ret →
      CallEffect r s (.homic rc)
        (s.1, ⟨.returned (if rc < 0 then rc else ret), s.2.events ++ [.markedDirty]⟩)

theorem pwriteAlone_effect (step : (pwriteAlone r).step s l = some s') : CallEffect r s l s' := by
  cases pc : s.2.pc with
  | direct w =>
      cases l with
      | kernel a =>
          simp only [pwriteAlone, pwriteOp, pc, Option.map_some, Option.some.injEq] at step
          rw [← step]
          exact .kernel w a pc
      | homic rc => simp [pwriteAlone, pwriteOp, pc] at step
  | markDirty ret =>
      cases l with
      | kernel a => simp [pwriteAlone, pc] at step
      | homic rc =>
          simp only [pwriteAlone, pwriteOp, pc, Option.map_some, Option.some.injEq] at step
          rw [← step]
          exact .homic ret rc pc
  | returned ret =>
      cases l with
      | kernel a => simp [pwriteAlone, pc] at step
      | homic rc => simp [pwriteAlone, pwriteOp, pc] at step

theorem directOf_step (r : WriteRequest) (f : File) (w : WriteState) (a : Common.Answer) :
    (Common.writers fun _ : Unit => r).step (directOf f w) ((), a) =
      some (directOf (r.step a f w).1 (r.step a f w).2) := by
  have moved : Function.update (fun _ : Unit => w) () (r.step a f w).2 =
      fun _ => (r.step a f w).2 := by
    funext i
    exact Function.update_self ..
  exact congrArg some (congrArg (WriteSystem.mk (r.step a f w).1) moved)

/-- A direct write that returns its size has written its range. -/
theorem SparesInv.returned (fits : r.Fits) {f : File} {w : WriteState}
    (spares : Common.SparesInv r f₀ (directOf f w)) (out : w.pc = .out (ssize r.size)) :
    ssize r.size = r.size ∧ f = f₀.pwrite r.off r.size r.src := by
  have lives : Common.Alive (directOf f w) :=
    Common.alive_of_not_failed (Common.not_failed_of_ssize fits out)
  have alone : Common.AloneInv (fun _ => r) f₀ (directOf f w) := by
    refine ⟨spares.alive lives, fun ret here => ?_⟩
    exact (WritePc.out.inj (out.symm.trans here)).symm
  exact alone.returned fits out

theorem CallInv.step (fits : r.Fits) (inv : CallInv r f₀ s) (full : ReadsEdgesFully s l)
    (step : (pwriteAlone r).step s l = some s') : CallInv r f₀ s' := by
  cases pwriteAlone_effect step with
  | homic ret rc pc =>
      have marked : (pwriteOp r).step s.2 (.homic rc) =
          some ⟨.returned (if rc < 0 then rc else ret), s.2.events ++ [.markedDirty]⟩ := by
        simp [pwriteOp, pc]
      have op := inv.op.step marked
      obtain ⟨size, file⟩ := inv.markDirty ret pc
      refine ⟨op, fun w here => ?_, fun quiet => inv.untouched fun changed => quiet ?_,
        fun ret' here => ?_, fun ret' here counted => ?_⟩
      · cases here
      · exact List.mem_append_left _ changed
      · cases here
      · cases here
        split at counted
        · omega
        · rename_i accepted
          rw [if_neg accepted]
          exact ⟨size, file, by simp⟩
  | kernel w a pc =>
      have called : (pwriteOp r).step s.2 (.kernel a s.1) =
          some ⟨pwriteAt (r.step a s.1 w).2, eventsPast r s.2 w a⟩ := by
        simp [pwriteOp, pc]
      have op := inv.op.step called
      obtain ⟨size, running⟩ := inv.op.running w pc
      have whole : Common.FullRead ((directOf s.1 w).writes ()) a := full w a pc rfl
      have spares := (inv.direct w pc).step fits whole (directOf_step r s.1 w a)
      have untouched : .changed ∉ eventsPast r s.2 w a → (r.step a s.1 w).1 = f₀ := by
        intro quiet
        have calm := not_or.mp (fun some => quiet (changed_eventsPast.mpr some))
        rw [file_of_not_takesEffect r a s.1 w (Bool.not_eq_true _ ▸ calm.2)]
        exact inv.untouched calm.1
      cases direct_step r running a s.1 with
      | goesOn on _ _ _ =>
          have at' := pwriteAt_running on
          refine ⟨op, fun w' here => ?_, untouched, fun ret here => ?_, fun ret here => ?_⟩
          · cases at'.symm.trans here
            exact spares
          · cases at'.symm.trans here
          · cases at'.symm.trans here
      | fails ret out negative _ _ =>
          have at' : pwriteAt (r.step a s.1 w).2 = .returned ret := by
            rw [pwriteAt_out out, if_pos negative.le]
          refine ⟨op, fun w' here => ?_, untouched, fun ret' here => ?_, fun ret' here counted => ?_⟩
          · cases at'.symm.trans here
          · cases at'.symm.trans here
          · cases at'.symm.trans here
            omega
      | returns out _ =>
          obtain ⟨count, file⟩ := SparesInv.returned fits spares out
          have positive := fits.size
          have at' : pwriteAt (r.step a s.1 w).2 = .markDirty r.size := by
            rw [pwriteAt_out out, count, if_neg (by omega)]
          refine ⟨op, fun w' here => ?_, untouched, fun ret' here => ?_, fun ret' here => ?_⟩
          · cases at'.symm.trans here
          · cases at'.symm.trans here
            exact ⟨rfl, file⟩
          · cases at'.symm.trans here

/-- **How `pwrite_op` ends on its file.** If it reports a count, that is its size, its range
is written and the index is marked dirty. If it has changed nothing, the file is as it
was. -/
theorem pwriteAlone_ends (fits : r.Fits) {garbage : Nat → UInt8} {labels : List CallAnswer}
    (full : (pwriteAlone r).Meets ReadsEdgesFully labels (f₀, pwriteCall r garbage))
    (ran : (pwriteAlone r).run labels (f₀, pwriteCall r garbage) = some s) {ret : Int}
    (returned : s.2.pc = .returned ret) :
    (0 ≤ ret → ret = r.size ∧ s.1 = f₀.pwrite r.off r.size r.src ∧ .markedDirty ∈ s.2.events) ∧
      (.changed ∉ s.2.events → s.1 = f₀) := by
  have inv : CallInv r f₀ s :=
    Machine.run_invariant (fun _ _ _ inv full step => CallInv.step fits inv full step)
      (.call fits f₀ garbage) full ran
  exact ⟨inv.returned ret returned, inv.untouched⟩

end OpenDS.Aisio
