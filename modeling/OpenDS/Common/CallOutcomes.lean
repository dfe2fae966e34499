import OpenDS.Common.DirectRead
import OpenDS.Common.FailingWrite

/-!
# How a direct call ends

The kernel may fail any call of a direct write or a direct read, interrupt it or cut it
short. A direct write that returns a count has written its whole range, and one that returns
an error may have changed its range and nothing else (`directWrite_outcome`). A direct read
that returns a count has delivered that many bytes of the file, and one that returns an error
has left the memory as it was (`directRead_outcome`).
-/

set_option autoImplicit false

namespace OpenDS.Common

open OpenDS.Library WriteRequest

/-! ## The write -/

section Write

variable {r : WriteRequest} {f f' f₀ : File} {w w' : WriteState} {a : Answer}
  {s s' : WriteSystem Unit}

/-- What a write returns is its size or an error. -/
def ReturnsSizeOrError (r : WriteRequest) (w : WriteState) : Prop :=
  ∀ ret, w.pc = .out ret → ret < 0 ∨ ret = ssize r.size

theorem ReturnsSizeOrError.step (effect : Effect r f w a f' w')
    (returns : ReturnsSizeOrError r w) : ReturnsSizeOrError r w' := by
  intro ret out
  cases effect with
  | idle a stays => exact returns ret out
  | fails a ret' negative retried moved =>
      cases out
      exact .inl negative
  | memalign n pc =>
      simp only at out
      split at out
      · cases out
      · exact absurd out ((filling_enterFill r).ne_out ret)
  | fstat n pc => exact absurd out ((filling_enterFill r).ne_out ret)
  | openRead n pc => exact absurd out ((filling_enterRead r).ne_out ret)
  | readHead n pc => exact absurd out ((filling_afterHead r).ne_out ret)
  | readTail n pc => cases out
  | copy n pc => exact .inr (enterLoop_out out)
  | pwrite done n pc moved => exact .inr (enterLoop_out out)
  | ftruncate n file pc planned unplanned => exact .inr (WritePc.out.inj out).symm

/-- **How a direct write ends.** It returns its size and has written its range, or it returns
an error and has changed no byte outside of its range. -/
theorem directWrite_outcome (fits : r.Fits) (f₀ : File) (garbage : Nat → UInt8)
    {labels : List (Unit × Answer)} {s : WriteSystem Unit}
    (full : (writers fun _ => r).Meets (fun s l => FullRead (s.writes l.1) l.2) labels
      (inFlight (fun _ => r) f₀ fun _ => garbage))
    (ran : (writers fun _ => r).run labels (inFlight (fun _ => r) f₀ fun _ => garbage) = some s)
    {ret : Int} (out : (s.writes ()).pc = .out ret) :
    (ret = r.size ∧ s.file = f₀.pwrite r.off r.size r.src) ∨
      (ret < 0 ∧ (∀ p, ¬ r.Range p → s.file.byte p = f₀.byte p) ∧ f₀.length ≤ s.file.length) := by
  have start : SparesInv r f₀ _ := .start fits f₀ fun _ => garbage
  have inv : SparesInv r f₀ s :=
    Machine.run_invariant (fun s l s' inv full step => SparesInv.step fits inv full step) start
      full ran
  have called : ReturnsSizeOrError r ((inFlight (fun _ : Unit => r) f₀ fun _ => garbage).writes ()) := by
    intro ret' out'
    rw [show ((inFlight (fun _ : Unit => r) f₀ fun _ => garbage).writes ()).pc = .memalign from
      call_pc fits garbage] at out'
    cases out'
  have keeps : ∀ (u : WriteSystem Unit) (l : Unit × Answer) (u' : WriteSystem Unit),
      ReturnsSizeOrError r (u.writes ()) → (writers fun _ => r).step u l = some u' →
      ReturnsSizeOrError r (u'.writes ()) := by
    rintro u ⟨⟨⟩, a⟩ u' returns step
    exact returns.step (writers_step step).1
  have returns := (writers fun _ => r).run_invariant_of_step keeps called ran
  rcases returns ret out with negative | size
  · exact .inr ⟨negative, inv.kept, inv.length⟩
  · -- A write that returns its size has not given up.
    rw [size] at out
    have alive := alive_of_not_failed (not_failed_of_ssize fits out)
    have alone : AloneInv (fun _ => r) f₀ s := by
      refine ⟨inv.alive alive, fun ret' out' => ?_⟩
      rw [out] at out'
      exact (WritePc.out.inj out').symm
    obtain ⟨count, file⟩ := alone.returned fits out
    exact .inl ⟨size.trans count, file⟩

end Write

/-! ## The read -/

section Read

variable {r : ReadRequest} {f : File} {w w' : ReadState} {mem garbage : Nat → UInt8} {a : Answer}

/-- The first `n` bytes of the range are at the destination, and the rest of the memory is
as it was. -/
structure DeliversPrefix (r : ReadRequest) (f : File) (mem mem' : Nat → UInt8) (n : Nat) : Prop where
  within : n ≤ r.available f
  range : ∀ k, k < n → mem' (r.dst + k) = f.byte (r.off + k)
  outside : ∀ p, ¬ (r.dst ≤ p ∧ p < r.dst + n) → mem' p = mem p

/-- What holds of a read whatever the kernel answers: what is in the buffer are bytes of the
file, and in the end some of them are delivered, or none. -/
inductive ReadsSome (r : ReadRequest) (f : File) (mem : Nat → UInt8) : ReadState → Prop where
  | memalign (bounce : Nat → UInt8) : 0 < r.size → ReadsSome r f mem ⟨.memalign, bounce, mem⟩
  | pread (bounce : Nat → UInt8) (got : Nat) : 0 < r.size → (got = 0 ∨ r.start + got ≤ f.length) →
      (∀ k, k < got → bounce k = f.byte (r.start + k)) →
      ReadsSome r f mem ⟨.pread got, bounce, mem⟩
  | fails (bounce : Nat → UInt8) (ret : Int) : ret < 0 → ReadsSome r f mem ⟨.out ret, bounce, mem⟩
  | out (bounce mem' : Nat → UInt8) (n : Nat) : DeliversPrefix r f mem mem' n →
      ReadsSome r f mem ⟨.out n, bounce, mem'⟩

theorem DeliversPrefix.none (r : ReadRequest) (f : File) (mem : Nat → UInt8) :
    DeliversPrefix r f mem mem 0 :=
  ⟨Nat.zero_le _, nofun, fun _ _ => rfl⟩

theorem ReadsSome.finish (representable : r.off + r.size + 4095 < 2 ^ 63) {bounce : Nat → UInt8}
    {got : Nat} {pc : ReadPc} (read : ∀ k, k < got → bounce k = f.byte (r.start + k))
    (within : got = 0 ∨ r.start + got ≤ f.length) :
    ReadsSome r f mem (r.finish ⟨pc, bounce, mem⟩ got) := by
  have start := r.start_add_head
  by_cases reached : r.head < got
  · rw [ReadRequest.finish, if_pos reached]
    dsimp only
    rw [ssize_of_lt (by omega)]
    refine .out bounce _ _ ⟨?_, fun k low => ?_, fun p outside => if_neg outside⟩
    · simp only [ReadRequest.available, ByteFile.available]
      omega
    · have inRange : r.dst ≤ r.dst + k ∧ r.dst + k < r.dst + min (got - r.head) r.size := by omega
      rw [ReadRequest.deliver, if_pos inRange, Nat.add_sub_cancel_left, read _ (by omega)]
      congr 1
      omega
  · rw [ReadRequest.finish, if_neg reached]
    exact .out bounce mem 0 (.none r f mem)

theorem ReadsSome.enterLoop (representable : r.off + r.size + 4095 < 2 ^ 63)
    {bounce : Nat → UInt8} {got : Nat} {pc : ReadPc} (size : 0 < r.size)
    (read : ∀ k, k < got → bounce k = f.byte (r.start + k))
    (within : got = 0 ∨ r.start + got ≤ f.length) :
    ReadsSome r f mem (r.enterLoop ⟨pc, bounce, mem⟩ got) := by
  unfold ReadRequest.enterLoop
  split
  · exact .pread bounce got size within read
  · exact .finish representable read within

theorem ReadsSome.step (representable : r.off + r.size + 4095 < 2 ^ 63)
    (reads : ReadsSome r f mem w) (a : Answer) : ReadsSome r f mem (r.step a f w) := by
  cases reads with
  | memalign bounce size =>
      cases a with
      | ok n => exact .enterLoop representable size nofun (.inl rfl)
      | interrupted | fails => exact .fails bounce (-enomem) (by decide)
  | pread bounce got size within read =>
      cases a with
      | ok n =>
          have moved : f.available (r.start + got) (min n (r.span - got)) =
              min (min n (r.span - got)) (f.length - (r.start + got)) := rfl
          simp only [ReadRequest.step]
          split
          · exact .finish representable read within
          · refine .enterLoop representable size (fun k low => ?_) (.inr (by omega))
            by_cases here : got ≤ k ∧ k < got + f.available (r.start + got) (min n (r.span - got))
            · exact if_pos here
            · simp only [if_neg here]
              exact read k (by omega)
      | interrupted => exact .pread bounce got size within read
      | fails errno set => exact .fails bounce (-errno) (by omega)
  | fails bounce ret negative => exact .fails bounce ret negative
  | out bounce mem' n delivers => exact .out bounce mem' n delivers

theorem ReadsSome.call (r : ReadRequest) (f : File) (garbage mem : Nat → UInt8) :
    ReadsSome r f mem (r.call garbage mem) := by
  by_cases none : r.size = 0
  · rw [ReadRequest.call, if_pos none]
    exact .out garbage mem 0 (.none r f mem)
  · rw [ReadRequest.call, if_neg none]
    exact .memalign garbage (Nat.pos_of_ne_zero none)

/-- **How a direct read ends.** It returns a count and has delivered that many bytes of the
file, or it returns an error and has left the memory as it was. -/
theorem directRead_outcome (representable : r.off + r.size + 4095 < 2 ^ 63)
    {garbage : Nat → UInt8} {labels : List Answer}
    (ran : (reader r f).run labels (r.call garbage mem) = some w) {ret : Int}
    (out : w.pc = .out ret) :
    (∃ n : Nat, ret = n ∧ DeliversPrefix r f mem w.mem n) ∨ (ret < 0 ∧ w.mem = mem) := by
  have keeps : ∀ (u : ReadState) (a : Answer) (u' : ReadState), ReadsSome r f mem u →
      (reader r f).step u a = some u' → ReadsSome r f mem u' := by
    intro u a u' reads step
    cases step
    exact reads.step representable a
  have reads := (reader r f).run_invariant_of_step keeps (.call r f garbage mem) ran
  cases reads with
  | memalign | pread => cases out
  | fails bounce ret' negative =>
      cases out
      exact .inr ⟨negative, rfl⟩
  | out bounce mem' n delivers =>
      cases out
      exact .inl ⟨n, rfl, delivers⟩

end Read

end OpenDS.Common
