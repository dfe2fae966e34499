import OpenDS.Common.WriteContent

/-!
# What writes in disjoint blocks do to the length of a file

A write extends the file up to the end of its last block and cuts it back to where
the file has to end. In between the file is longer than it should be, and another
write may look at its length. When the writes touch disjoint blocks the length is at
any time the greatest of the old one and what each write needs by itself
(`Lengths`), provided that no write cuts off the blocks of another one.
-/

set_option autoImplicit false

namespace OpenDS.Common

open OpenDS.Library WriteRequest

variable {r : WriteRequest} {f f' : File} {w w' : WriteState} {a : Answer}

/-! ## One write -/

/-- What the length of the file is by the write alone: the end of what it has
written, and once it has returned the end of its range. -/
def WriteRequest.extent (r : WriteRequest) : WritePc → Nat
  | .pwrite done => if done = 0 then 0 else r.start + done
  | .ftruncate => r.start + r.span
  | .out _ => r.endOff
  | _ => 0

/-- The write knows whether it will cut the file back. -/
def Settled : WritePc → Prop
  | .memalign => False
  | .fstat => False
  | _ => True

/-- The locals of a write fit where it stands. -/
structure Formed (r : WriteRequest) (w : WriteState) : Prop where
  loop : ∀ done, w.pc = .pwrite done → done < r.span
  planned : w.pc = .ftruncate → w.truncTo.isSome
  stat : w.pc = .fstat → r.tail ≠ 0

theorem Filling.extent {pc : WritePc} (filling : Filling pc) : r.extent pc = 0 := by
  cases pc <;> first | rfl | exact filling.elim

theorem Filling.settled {pc : WritePc} (filling : Filling pc) : Settled pc := by
  cases pc <;> trivial

theorem extent_enterLoop (r : WriteRequest) (truncTo : Option Nat) {done : Nat} (some : 0 < done) :
    r.extent (r.enterLoop truncTo done) =
      if done < r.span then r.start + done
      else if truncTo.isSome then r.start + r.span else r.endOff := by
  unfold enterLoop
  split
  · exact if_neg (Nat.ne_of_gt some)
  · cases truncTo <;> rfl

theorem Formed.extent_bounds (fits : r.Fits) (formed : Formed r w) (some : 0 < r.extent w.pc) :
    r.start < r.extent w.pc ∧ r.extent w.pc ≤ r.start + r.span := by
  have bounds := fits.endOff_bounds
  have last := fits.shape.last
  cases pc : w.pc with
  | pwrite done =>
      have loop := formed.loop done pc
      rw [pc] at some
      simp only [extent] at some ⊢
      by_cases zero : done = 0
      · rw [if_pos zero] at some
        omega
      · rw [if_neg zero]
        omega
  | ftruncate => exact ⟨by simp only [extent]; omega, Nat.le_refl _⟩
  | out ret => exact ⟨bounds.1, by simp only [extent]; omega⟩
  | memalign | fstat | openRead | readHead | readTail | copy =>
      rw [pc] at some
      exact absurd some (Nat.lt_irrefl _)

/-- What a write has written lies below what it needs. -/
theorem WriteRequest.Written.lt_extent {p : Nat} (written : r.Written w.pc p) :
    p < r.extent w.pc := by
  have start := r.start_add_head
  obtain ⟨range, below⟩ := written
  have low := range.1
  cases pc : w.pc with
  | pwrite done =>
      rw [pc] at below
      simp only [progress] at below
      simp only [extent]
      rw [if_neg (by omega)]
      exact below
  | ftruncate =>
      rw [pc] at below
      exact below
  | out ret => exact range.2
  | memalign | fstat | openRead | readHead | readTail | copy =>
      rw [pc] at below
      simp only [progress] at below
      omega

theorem Formed.of_filling {pc : WritePc} (filling : Filling pc) (bounce : Nat → UInt8)
    (truncTo : Option Nat) : Formed r ⟨pc, bounce, truncTo⟩ := by
  refine ⟨fun done loop => absurd loop (filling.ne_pwrite done), ?_, ?_⟩ <;>
  · rintro rfl
    exact filling.elim

theorem Formed.enterLoop (r : WriteRequest) (truncTo : Option Nat) (bounce : Nat → UInt8)
    (done : Nat) : Formed r ⟨r.enterLoop truncTo done, bounce, truncTo⟩ := by
  refine ⟨fun done' loop => ?_, fun cut => ?_, fun stat => ?_⟩
  · obtain ⟨rfl, more⟩ := enterLoop_eq_pwrite loop
    exact more
  · cases truncTo with
    | some length => rfl
    | none =>
        simp only [WriteRequest.enterLoop, afterLoop] at cut
        split at cut <;> cases cut
  · simp only [WriteRequest.enterLoop] at stat
    split at stat
    · cases stat
    · cases truncTo <;> cases stat

theorem Formed.call (r : WriteRequest) (garbage : Nat → UInt8) :
    Formed r (r.call garbage) := by
  unfold WriteRequest.call
  split <;> exact ⟨nofun, nofun, nofun⟩

theorem Formed.step (formed : Formed r w) (effect : Effect r f w a f' w') : Formed r w' := by
  cases effect with
  | idle a stays => exact formed
  | fails a ret negative _ _ => exact ⟨by simp, by simp, by simp⟩
  | memalign n pc =>
      split
      · rename_i tail
        exact ⟨by simp, by simp, fun _ => tail⟩
      · exact .of_filling (filling_enterFill r) _ _
  | fstat n pc => exact .of_filling (filling_enterFill r) _ _
  | openRead n pc => exact .of_filling (filling_enterRead r) _ _
  | readHead n pc => exact .of_filling (filling_afterHead r) _ _
  | readTail n pc => exact .of_filling (show Filling .copy from trivial) _ _
  | copy n pc => exact .enterLoop r _ _ _
  | pwrite done n pc moved => exact .enterLoop r _ _ _
  | ftruncate n file pc planned unplanned => exact ⟨by simp, by simp, by simp⟩

/-! ## Writes in disjoint blocks -/

section System

variable {ι : Type} {req : ι → WriteRequest} {f₀ : File} {s s' : WriteSystem ι} {i : ι}

/-- No block is touched by two writes. -/
def BlocksApart (req : ι → WriteRequest) : Prop :=
  ∀ i j, i ≠ j → (req i).start + (req i).span ≤ (req j).start ∨
    (req j).start + (req j).span ≤ (req i).start

/-- The length of the file while writes in disjoint blocks are in flight: the
greatest of the old length and of what each write needs. A write that is to cut the
file back knows what the length has to be; one that is not finds the file longer
than its own blocks, by the old length or by a write behind it. -/
structure Lengths (req : ι → WriteRequest) (f₀ : File) (s : WriteSystem ι) : Prop where
  formed : ∀ i, Formed (req i) (s.writes i)
  old : f₀.length ≤ s.file.length
  floor : ∀ i, (req i).extent (s.writes i).pc ≤ s.file.length
  ceiling : s.file.length ≤ f₀.length ∨ ∃ i, s.file.length ≤ (req i).extent (s.writes i).pc
  cut : ∀ i length, (s.writes i).truncTo = some length →
    length = max f₀.length (req i).endOff ∧ length < (req i).start + (req i).span
  uncut : ∀ i, Settled (s.writes i).pc → (req i).tail ≠ 0 → (s.writes i).truncTo = none →
    (req i).start + (req i).span ≤ f₀.length ∨
      ∃ k, 0 < (req k).extent (s.writes k).pc ∧ (req i).start + (req i).span ≤ (req k).start

theorem Lengths.start (fits : ∀ i, (req i).Fits) (f₀ : File) (garbage : ι → Nat → UInt8) :
    Lengths req f₀ (inFlight req f₀ garbage) := by
  have pc : ∀ i, ((inFlight req f₀ garbage).writes i).pc = .memalign :=
    fun i => call_pc (fits i) (garbage i)
  refine ⟨fun i => ⟨?_, ?_, ?_⟩, Nat.le_refl _, fun i => ?_, .inl (Nat.le_refl _), ?_, ?_⟩
  · simp [pc]
  · simp [pc]
  · simp [pc]
  · rw [pc]
    exact Nat.zero_le _
  · intro i length cut
    cases cut
  · intro i settled
    rw [pc] at settled
    exact settled.elim

/-- A write that has extended the file lies before or behind another one with all
of its blocks. -/
theorem Lengths.side (fits : ∀ i, (req i).Fits) (apart : BlocksApart req)
    (lengths : Lengths req f₀ s) {j : ι} (other : j ≠ i)
    (some : 0 < (req j).extent (s.writes j).pc) :
    (req j).extent (s.writes j).pc ≤ (req i).start ∨
      (req i).start + (req i).span < (req j).extent (s.writes j).pc := by
  have bounds := (lengths.formed j).extent_bounds (fits j) some
  rcases apart j i other with before | behind
  · exact .inl (by omega)
  · exact .inr (by omega)

/-- A file that is longer than the blocks of a write stays so while the writes
behind it go on. -/
theorem Lengths.uncut_of_kept (lengths : Lengths req f₀ s)
    (kept : ∀ k, 0 < (req k).extent (s.writes k).pc → 0 < (req k).extent (s'.writes k).pc) (j : ι) :
    Settled (s.writes j).pc → (req j).tail ≠ 0 → (s.writes j).truncTo = none →
      (req j).start + (req j).span ≤ f₀.length ∨
        ∃ k, 0 < (req k).extent (s'.writes k).pc ∧ (req j).start + (req j).span ≤ (req k).start :=
  fun settled tail unplanned => (lengths.uncut j settled tail unplanned).imp_right
    (Exists.imp fun k behind => ⟨kept k behind.1, behind.2⟩)

/-- A step that changes neither the length nor what its write needs. -/
theorem Lengths.still (lengths : Lengths req f₀ s)
    (length : s'.file.length = s.file.length) (others : ∀ j, j ≠ i → s'.writes j = s.writes j)
    (formed : Formed (req i) (s'.writes i))
    (extent : (req i).extent (s'.writes i).pc = (req i).extent (s.writes i).pc)
    (truncTo : (s'.writes i).truncTo = (s.writes i).truncTo)
    (settled : Settled (s'.writes i).pc → (req i).tail ≠ 0 → Settled (s.writes i).pc) :
    Lengths req f₀ s' := by
  have extents : ∀ j, (req j).extent (s'.writes j).pc = (req j).extent (s.writes j).pc := by
    intro j
    by_cases here : j = i
    · rw [here, extent]
    · rw [others j here]
  refine ⟨fun j => ?_, ?_, fun j => ?_, ?_, fun j t => ?_, fun j => ?_⟩
  · by_cases here : j = i
    · rw [here]
      exact formed
    · rw [others j here]
      exact lengths.formed j
  · rw [length]
    exact lengths.old
  · rw [length, extents]
    exact lengths.floor j
  · simp only [length, extents]
    exact lengths.ceiling
  · by_cases here : j = i
    · subst here
      rw [truncTo]
      exact lengths.cut j t
    · rw [others j here]
      exact lengths.cut j t
  · simp only [extents]
    by_cases here : j = i
    · subst here
      rw [truncTo]
      exact fun now tail => lengths.uncut j (settled now tail) tail
    · rw [others j here]
      exact lengths.uncut j

/-- **`fstat` finds the old length or a longer file behind the blocks of the
write.** -/
theorem Lengths.fstat (fits : ∀ i, (req i).Fits) (apart : BlocksApart req)
    (lengths : Lengths req f₀ s) (file : s'.file = s.file)
    (others : ∀ j, j ≠ i → s'.writes j = s.writes j) (pc : (s.writes i).pc = .fstat)
    (filling : Filling (s'.writes i).pc)
    (truncTo : (s'.writes i).truncTo =
      if max s.file.length (req i).endOff < (req i).start + (req i).span
        then some (max s.file.length (req i).endOff) else none) : Lengths req f₀ s' := by
  have bounds := (fits i).endOff_bounds
  have none : (req i).extent (s.writes i).pc = 0 := by rw [pc]; rfl
  have extents : ∀ j, (req j).extent (s'.writes j).pc = (req j).extent (s.writes j).pc := by
    intro j
    by_cases here : j = i
    · rw [here, none, filling.extent]
    · rw [others j here]
  refine ⟨fun j => ?_, by rw [file]; exact lengths.old, fun j => ?_, ?_, fun j t => ?_, fun j => ?_⟩
  · by_cases here : j = i
    · rw [here]
      exact .of_filling filling _ _
    · rw [others j here]
      exact lengths.formed j
  · rw [file, extents]
    exact lengths.floor j
  · simp only [file, extents]
    exact lengths.ceiling
  · by_cases here : j = i
    · subst here
      rw [truncTo]
      intro planned
      split at planned
      · rename_i short
        obtain rfl := Option.some.inj planned
        refine ⟨?_, short⟩
        -- A file longer than the range that ends before the last block has its old length.
        have old := lengths.old
        rcases lengths.ceiling with at' | ⟨k, below⟩
        · omega
        · by_cases here : k = j
          · rw [here, none] at below
            omega
          · have floor := lengths.floor k
            by_cases some : 0 < (req k).extent (s.writes k).pc
            · rcases lengths.side fits apart here some with before | behind <;> omega
            · omega
      · cases planned
    · rw [others j here]
      exact lengths.cut j t
  · simp only [extents]
    by_cases here : j = i
    · subst here
      rw [truncTo]
      intro _ tail unplanned
      split at unplanned
      · cases unplanned
      · rename_i long
        have room := (fits j).endOff_bounds.2
        rcases lengths.ceiling with at' | ⟨k, below⟩
        · exact .inl (by omega)
        · have some : 0 < (req k).extent (s.writes k).pc := by omega
          have other : k ≠ j := by
            rintro rfl
            omega
          have within := (lengths.formed k).extent_bounds (fits k) some
          rcases apart k j other with before | behind
          · omega
          · exact .inr ⟨k, some, behind⟩
    · rw [others j here]
      exact lengths.uncut j

/-- **A `pwrite` extends the file to what the write needs.** -/
theorem Lengths.pwrite (fits : ∀ i, (req i).Fits) (lengths : Lengths req f₀ s)
    (others : ∀ j, j ≠ i → s'.writes j = s.writes j) {done moved : Nat}
    (pc : (s.writes i).pc = .pwrite done) (some : 0 < moved)
    (within : done + moved ≤ (req i).span)
    (length : s'.file.length = max s.file.length ((req i).start + done + moved))
    (truncTo : (s'.writes i).truncTo = (s.writes i).truncTo)
    (pc' : (s'.writes i).pc = (req i).enterLoop (s.writes i).truncTo (done + moved)) :
    Lengths req f₀ s' := by
  have bounds := (fits i).endOff_bounds
  have formed' : Formed (req i) (s'.writes i) := by
    have formed := Formed.enterLoop (req i) (s.writes i).truncTo (s'.writes i).bounce (done + moved)
    rwa [← pc', ← truncTo] at formed
  have extent' := extent_enterLoop (req i) (s.writes i).truncTo
    (show 0 < done + moved by omega)
  rw [← pc'] at extent'
  have extent : (req i).extent (s.writes i).pc = if done = 0 then 0 else (req i).start + done := by
    rw [pc]
    rfl
  have floor := lengths.floor i
  -- A write that cuts nothing back finds the file at least as long as its blocks.
  have settled : Settled (s.writes i).pc := by rw [pc]; trivial
  have uncut : (req i).tail ≠ 0 → (s.writes i).truncTo = none →
      (req i).start + (req i).span ≤ s.file.length := by
    intro tail unplanned
    have old := lengths.old
    rcases lengths.uncut i settled tail unplanned with longer | ⟨k, some, behind⟩
    · omega
    · have floor := lengths.floor k
      have within := (lengths.formed k).extent_bounds (fits k) some
      omega
  -- What the write needs now, against what it has just written.
  have reached : (req i).extent (s'.writes i).pc = (req i).start + done + moved ∨
      ((req i).extent (s'.writes i).pc = (req i).endOff ∧
        (req i).start + (req i).span ≤ s.file.length) := by
    rw [extent']
    split
    · exact .inl (by omega)
    · split
      · exact .inl (by omega)
      · rename_i unplanned
        rw [Option.not_isSome_iff_eq_none] at unplanned
        by_cases tail : (req i).tail = 0
        · exact .inl (by omega)
        · exact .inr ⟨rfl, uncut tail unplanned⟩
  have positive : 0 < (req i).extent (s'.writes i).pc := by
    rcases reached with exact' | ⟨out, -⟩ <;> omega
  refine ⟨fun j => ?_, ?_, fun j => ?_, ?_, fun j t => ?_, fun j => ?_⟩
  · by_cases here : j = i
    · rw [here]
      exact formed'
    · rw [others j here]
      exact lengths.formed j
  · have old := lengths.old
    omega
  · by_cases here : j = i
    · subst here
      rcases reached with exact' | ⟨out, long⟩ <;> omega
    · rw [others j here]
      have floor := lengths.floor j
      omega
  · rcases reached with exact' | ⟨out, long⟩
    · by_cases longer : s.file.length ≤ (req i).start + done + moved
      · exact .inr ⟨i, by omega⟩
      · rcases lengths.ceiling with old | ⟨k, below⟩
        · exact .inl (by omega)
        · refine .inr ⟨k, ?_⟩
          have other : k ≠ i := by
            rintro rfl
            rw [extent] at below
            split at below <;> omega
          rw [others k other]
          omega
    · rcases lengths.ceiling with old | ⟨k, below⟩
      · exact .inl (by omega)
      · refine .inr ⟨k, ?_⟩
        have other : k ≠ i := by
          rintro rfl
          rw [extent] at below
          split at below <;> omega
        rw [others k other]
        omega
  · by_cases here : j = i
    · subst here
      rw [truncTo]
      exact lengths.cut j t
    · rw [others j here]
      exact lengths.cut j t
  · have kept : ∀ k, 0 < (req k).extent (s.writes k).pc → 0 < (req k).extent (s'.writes k).pc := by
      intro k positive'
      by_cases here : k = i
      · rw [here]
        exact positive
      · rwa [others k here]
    have before := lengths.uncut_of_kept kept j
    by_cases here : j = i
    · subst here
      rw [truncTo]
      exact fun _ => before settled
    · rwa [others j here]

/-- **A truncation inside the blocks of its write** leaves the length the write
needs. -/
theorem Lengths.ftruncate (fits : ∀ i, (req i).Fits) (apart : BlocksApart req)
    (lengths : Lengths req f₀ s) (others : ∀ j, j ≠ i → s'.writes j = s.writes j)
    (pc : (s.writes i).pc = .ftruncate)
    (inside : s.file.length ≤ (req i).start + (req i).span) {ret : Int} {t : Nat}
    (planned : (s.writes i).truncTo = some t) (cutTo : s'.file.length = t)
    (truncTo : (s'.writes i).truncTo = (s.writes i).truncTo)
    (pc' : (s'.writes i).pc = .out ret) : Lengths req f₀ s' := by
  have bounds := (fits i).endOff_bounds
  obtain ⟨exact', short⟩ := lengths.cut i t planned
  have extent' : (req i).extent (s'.writes i).pc = (req i).endOff := by rw [pc']; rfl
  refine ⟨fun j => ?_, by omega, fun j => ?_, ?_, fun j t => ?_, fun j => ?_⟩
  · by_cases here : j = i
    · rw [here]
      exact ⟨by simp [pc'], by simp [pc'], by simp [pc']⟩
    · rw [others j here]
      exact lengths.formed j
  · by_cases here : j = i
    · rw [here]
      omega
    · rw [others j here]
      have floor := lengths.floor j
      by_cases some : 0 < (req j).extent (s.writes j).pc
      · rcases lengths.side fits apart here some with before | behind <;> omega
      · omega
  · by_cases old : (req i).endOff ≤ f₀.length
    · exact .inl (by omega)
    · exact .inr ⟨i, by omega⟩
  · by_cases here : j = i
    · subst here
      rw [truncTo]
      exact lengths.cut j t
    · rw [others j here]
      exact lengths.cut j t
  · have kept : ∀ k, 0 < (req k).extent (s.writes k).pc → 0 < (req k).extent (s'.writes k).pc := by
      intro k positive'
      by_cases here : k = i
      · rw [here]
        omega
      · rwa [others k here]
    have before := lengths.uncut_of_kept kept j
    by_cases here : j = i
    · subst here
      rw [truncTo]
      exact fun _ => before (by rw [pc]; trivial)
    · rwa [others j here]

/-- When a write cuts the file back, the file does not reach past the blocks of
that write. -/
def CutsInside (req : ι → WriteRequest) (s : WriteSystem ι) (l : ι × Answer) : Prop :=
  (s.writes l.1).pc = .ftruncate → (∃ n, l.2 = .ok n) →
    s.file.length ≤ (req l.1).start + (req l.1).span

/-- **A step keeps the length of the file in order**, if it does not cut off the
blocks of another write. -/
theorem Lengths.step [DecidableEq ι] (fits : ∀ i, (req i).Fits) (apart : BlocksApart req)
    (lengths : Lengths req f₀ s) (inside : CutsInside req s (i, a))
    (step : (writers req).step s (i, a) = some s') (alive : Alive s') : Lengths req f₀ s' := by
  obtain ⟨effect, others⟩ := writers_step step
  have formed := (lengths.formed i).step effect
  have living := alive i
  generalize file : s'.file = f' at effect
  generalize state : s'.writes i = w' at effect formed living
  cases effect with
  | idle a stays =>
      exact lengths.still (by rw [file]) others (state ▸ formed) (by rw [state])
        (by rw [state]) fun settled _ => by rwa [state] at settled
  | fails a ret negative _ _ => exact absurd ⟨ret, rfl, negative⟩ living
  | memalign n pc =>
      refine lengths.still (by rw [file]) others (state ▸ formed) ?_ (by rw [state]) ?_
      · rw [state, pc]
        split
        · rfl
        · exact (filling_enterFill (req i)).extent
      · intro settled tail
        rw [state] at settled
        simp only [if_pos tail] at settled
        exact settled.elim
  | fstat n pc =>
      exact lengths.fstat fits apart file others pc (by rw [state]; exact filling_enterFill _)
        (by rw [state])
  | openRead n pc =>
      refine lengths.still (by rw [file]) others (state ▸ formed) ?_ (by rw [state])
        fun _ _ => by rw [pc]; trivial
      rw [state, pc]
      exact (filling_enterRead (req i)).extent
  | readHead n pc =>
      refine lengths.still (by rw [file]) others (state ▸ formed) ?_ (by rw [state])
        fun _ _ => by rw [pc]; trivial
      rw [state, pc]
      exact (filling_afterHead (req i)).extent
  | readTail n pc =>
      refine lengths.still (by rw [file]) others (state ▸ formed) ?_ (by rw [state])
        fun _ _ => by rw [pc]; trivial
      rw [state, pc]
      rfl
  | copy n pc =>
      have last := (fits i).shape.last
      refine lengths.still (by rw [file]) others (state ▸ formed) ?_ (by rw [state])
        fun _ _ => by rw [pc]; trivial
      rw [state, pc, enterLoop, if_pos (by omega)]
      rfl
  | pwrite done n pc moved =>
      refine lengths.pwrite fits others pc moved (by omega) ?_ (by rw [state]) (by rw [state])
      rw [file, ByteFile.pwrite_length_pos _ moved]
  | ftruncate n file' pc planned unplanned =>
      obtain ⟨t, cut⟩ := Option.isSome_iff_exists.mp ((lengths.formed i).planned pc)
      refine lengths.ftruncate fits apart others pc (inside pc ⟨n, rfl⟩) cut ?_ (by rw [state])
        (by rw [state])
      rw [file, planned t cut, ByteFile.ftruncate_length]

/-- A truncation inside the blocks of its write cuts off zeros only. -/
theorem Lengths.cutsZeros (fits : ∀ i, (req i).Fits) (apart : BlocksApart req)
    (lengths : Lengths req f₀ s) (content : Content req f₀ s)
    (inside : CutsInside req s (i, a)) : CutsZeros s.file (s.writes i) a := by
  intro pc answered t planned p past
  have bounds := (fits i).endOff_bounds
  obtain ⟨exact', short⟩ := lengths.cut i t planned
  rw [content.kept p fun j written => ?_, f₀.pastEnd p (by omega)]
  have below := written.lt_extent
  by_cases here : j = i
  · subst here
    have range := written.1.2
    omega
  · have floor := lengths.floor j
    have long := inside pc answered
    simp only at long
    rcases lengths.side fits apart here (by omega) with before | behind <;> omega

end System

end OpenDS.Common
