import OpenDS.Library.Tiling
import OpenDS.Aisio.ReadPlan
import OpenDS.Aisio.ReadRun

/-!
# The chunks of whole LBAs

`submit_read_middle` cuts a run of whole LBAs into commands of at most MDTS bytes and at
most `NVME_MAX_NLB` blocks. The cut depends on the geometry and the cursor alone: it tiles
the run (`planMiddle_tiles`). The answers of the queue decide how many of the commands are
taken, and a call that gives up has taken the first ones (`submitReadMiddle_tiles`).
-/

set_option autoImplicit false

namespace OpenDS.Aisio

open OpenDS.Library ReadState

variable {d : Driver} {dev : Device}

/-! ## One command -/

/-- The number of blocks that a command reads: its `nlb` counts from zero. -/
def Command.blocks (cmd : Command) : Nat := cmd.nlb + 1

/-- The item of a command for whole LBAs. -/
def Command.chunkItem (cmd : Command) : Item := .chunk cmd.slba cmd.nlb cmd.dst

/-- The command reads whole LBAs for a cursor: its `nlb` fits 16 bits, it has no more blocks
than MDTS and the command format allow and no more bytes than MDTS, and its destination lies
as far past the one of the cursor as its LBA. -/
structure Command.ChunkOf (d : Driver) (c : ReadCursor) (cmd : Command) : Prop where
  callback : cmd.callback = .chunk
  nlb : cmd.nlb < 2 ^ 16
  blocks : 0 < cmd.blocks ∧ cmd.blocks ≤ min (d.mdtsNbytes / d.lbaSize) 65536
  bytes : commandBytes d cmd ≤ d.mdtsNbytes
  dst : cmd.dst = c.absDst.add ((cmd.slba - c.curSlba) * d.lbaSize)

/-! ## The cut -/

/-- The loop cuts what is left of the run. -/
theorem planMiddleLoop_tiles (geo : d.Geometry) (c : ReadCursor) (middleLbas : Nat)
    (fuel lbasDone : Nat) (enough : middleLbas - lbasDone ≤ fuel) (notPast : lbasDone ≤ middleLbas) :
    ∃ cmds, planMiddleLoop d c middleLbas fuel lbasDone = cmds.map Command.chunkItem ∧
      Tiles Command.slba Command.blocks (c.curSlba + lbasDone) (c.curSlba + middleLbas) cmds ∧
      ∀ cmd ∈ cmds, cmd.ChunkOf d c := by
  induction fuel generalizing lbasDone with
  | zero =>
      have done : lbasDone = middleLbas := by omega
      subst done
      refine ⟨[], ?_, .nil _, fun cmd member => by cases member⟩
      rw [planMiddleLoop, if_neg (Nat.lt_irrefl _)]
      rfl
  | succ fuel ih =>
      rw [planMiddleLoop]
      by_cases more : lbasDone < middleLbas
      case neg =>
        have done : lbasDone = middleLbas := by omega
        subst done
        exact ⟨[], by rw [if_neg more]; rfl, .nil _, fun cmd member => by cases member⟩
      -- The chunk is the least of the rest, MDTS and `NVME_MAX_NLB`, and never empty.
      have chunkPos := geo.chunk_pos
      obtain ⟨m, chunk, some, rest, mdts, limit⟩ : ∃ m,
          min (min (middleLbas - lbasDone) (d.mdtsNbytes >>> d.lbaShift)) nvmeMaxNlb = m ∧
            0 < m ∧ m ≤ middleLbas - lbasDone ∧ m ≤ d.mdtsNbytes / d.lbaSize ∧ m ≤ 65536 := by
        refine ⟨_, rfl, ?_, ?_, ?_, ?_⟩
        · simp only [nvmeMaxNlb]
          omega
        · omega
        · rw [← geo.shiftRight]
          omega
        · simp only [nvmeMaxNlb]
          omega
      have nlb : (m + 65535) % 65536 = m - 1 := by omega
      obtain ⟨cmds, items, tiles, chunks⟩ := ih (lbasDone + m) (by omega) (by omega)
      refine ⟨⟨.chunk, c.curSlba + lbasDone, m - 1, c.absDst.add (lbasDone * d.lbaSize)⟩ :: cmds,
        ?_, ?_, fun cmd member => ?_⟩
      · rw [if_pos more]
        simp only [chunk, nlb, items]
        rfl
      · have next : c.curSlba + lbasDone + (m - 1 + 1) = c.curSlba + (lbasDone + m) := by omega
        rw [← next] at tiles
        exact @Tiles.cons _ Command.slba Command.blocks _
          ⟨.chunk, c.curSlba + lbasDone, m - 1, c.absDst.add (lbasDone * d.lbaSize)⟩ cmds
          (Nat.succ_pos _) tiles
      · rcases List.mem_cons.mp member with rfl | member
        · have count : m - 1 + 1 = m := by omega
          refine ⟨rfl, ?_, ⟨Nat.succ_pos _, ?_⟩, ?_, ?_⟩
          · change m - 1 < 2 ^ 16
            omega
          · change m - 1 + 1 ≤ _
            omega
          · rw [commandBytes, count]
            exact (Nat.mul_le_mul_right _ mdts).trans (Nat.div_mul_le_self _ _)
          · rw [Nat.add_sub_cancel_left]
        · exact chunks cmd member

/-- **The cut of a run of whole LBAs tiles it.** -/
theorem planMiddle_tiles (geo : d.Geometry) (c : ReadCursor) (middleLbas : Nat) :
    ∃ cmds, planMiddle d c middleLbas = cmds.map Command.chunkItem ∧
      Tiles Command.slba Command.blocks c.curSlba (c.curSlba + middleLbas) cmds ∧
      ∀ cmd ∈ cmds, cmd.ChunkOf d c :=
  planMiddleLoop_tiles geo c middleLbas middleLbas 0 (by omega) (by omega)

/-! ## How much of the cut is taken -/

/-- The queue takes one command, or refuses it for good. -/
theorem submitChunk_ends {cmd : Command} (chunk : cmd.callback = .chunk) (st : ReadState) :
    (submitChunk d dev cmd.slba cmd.nlb cmd.dst st).Ends
      (fun st' => dev.takes st.issued.length = true ∧ st'.issued = st.issued ++ [cmd])
      (fun st' => dev.takes st.issued.length = false ∧ st'.issued = st.issued ∧
        st'.op.err = some .deviceDriverError) := by
  obtain ⟨poked, polled⟩ := retries_eq_poke (retryMiddle_eq d dev) (dev.retries st.issued.length) st
  have log := (poke_frame d dev poked st).issued
  have same : (⟨.chunk, cmd.slba, cmd.nlb, cmd.dst⟩ : Command) = cmd := by
    rw [← chunk]
  simp only [submitChunk, polled]
  cases takes : dev.takes st.issued.length with
  | false => exact ⟨rfl, log, rfl⟩
  | true =>
      refine ⟨rfl, ?_⟩
      rw [same]
      exact congrArg (· ++ [cmd]) log

/-- **The queue takes the commands one after the other**, up to the first one that it refuses
for good. -/
theorem runChunks_ends {cmds : List Command} (chunks : ∀ cmd ∈ cmds, cmd.callback = .chunk)
    (st : ReadState) :
    (runItems d dev (cmds.map Command.chunkItem) st).Ends
      (fun st' => (∀ i < cmds.length, dev.takes (st.issued.length + i) = true) ∧
        st'.issued = st.issued ++ cmds)
      (fun st' => ∃ taken, taken <+: cmds ∧ taken ≠ cmds ∧
        (∀ i < taken.length, dev.takes (st.issued.length + i) = true) ∧
        dev.takes (st.issued.length + taken.length) = false ∧
        st'.issued = st.issued ++ taken ∧ st'.op.err = some .deviceDriverError) := by
  induction cmds generalizing st with
  | nil => exact ⟨fun i lt => absurd lt (Nat.not_lt_zero i), (List.append_nil _).symm⟩
  | cons cmd rest ih =>
      have first := @submitChunk_ends d dev cmd (chunks cmd (List.mem_cons_self ..)) st
      rw [List.map_cons, runItems]
      change (submitChunk d dev cmd.slba cmd.nlb cmd.dst st >>= _).Ends _ _
      cases ran : submitChunk d dev cmd.slba cmd.nlb cmd.dst st with
      | spin =>
          rw [ran] at first
          exact first.elim
      | out st' =>
          rw [ran] at first
          obtain ⟨refused, log, err⟩ := first
          exact ⟨[], List.nil_prefix, List.cons_ne_nil _ _ |>.symm,
            fun i lt => absurd lt (Nat.not_lt_zero i), refused, by rw [log, List.append_nil], err⟩
      | ok mid =>
          rw [ran] at first
          obtain ⟨took, log⟩ := first
          have length : mid.issued.length = st.issued.length + 1 := by rw [log]; simp
          -- The answers past the first one are those of the rest.
          have later : ∀ {k : Nat}, (∀ i < k, dev.takes (mid.issued.length + i) = true) →
              ∀ i < k + 1, dev.takes (st.issued.length + i) = true := by
            intro k all i lt
            cases i with
            | zero => exact took
            | succ i =>
                have here := all i (by omega)
                rwa [length, Nat.add_assoc, Nat.add_comm 1 i] at here
          refine (ih (fun c member => chunks c (List.mem_cons_of_mem _ member)) mid).mono ?_ ?_
          · rintro st' ⟨all, logged⟩
            exact ⟨later all, by rw [logged, log, List.append_assoc]; rfl⟩
          · rintro st' ⟨taken, before, other, all, refused, logged, err⟩
            refine ⟨cmd :: taken, List.prefix_cons_inj cmd |>.mpr before, ?_, later all, ?_, ?_, err⟩
            · exact fun same => other (List.cons.inj same).2
            · rw [length, Nat.add_assoc, Nat.add_comm 1] at refused
              exact refused
            · rw [logged, log, List.append_assoc]
              rfl

/-- **`submit_read_middle` tiles its span.** The commands it submits for a run of whole LBAs
depend on the geometry and the cursor only; they start where the run starts, each where the
one before it ends, and end where it ends, so they cover the run, in order and without
overlap. Whatever the queue answers before it takes a
command, the call returns: having submitted all of them, with the cursor past the run, or
with an error and the commands before the first one that the queue refuses. -/
theorem submitReadMiddle_tiles (geo : d.Geometry) (c : ReadCursor) (middleLbas : Nat) :
    ∃ cmds, Tiles Command.slba Command.blocks c.curSlba (c.curSlba + middleLbas) cmds ∧
      (∀ cmd ∈ cmds, cmd.ChunkOf d c) ∧
      (∀ lba, (∃ cmd ∈ cmds, cmd.slba ≤ lba ∧ lba < cmd.slba + cmd.blocks) ↔
        c.curSlba ≤ lba ∧ lba < c.curSlba + middleLbas) ∧
      (cmds.Pairwise fun cmd cmd' => cmd.slba + cmd.blocks ≤ cmd'.slba) ∧
      ∀ (dev : Device) (st : ReadState), (submitReadMiddle d dev c middleLbas st).Ends
        (fun out => (∀ i < cmds.length, dev.takes (st.issued.length + i) = true) ∧
          out.2.issued = st.issued ++ cmds ∧
          out.1.curSlba = c.curSlba + middleLbas ∧
          out.1.absDst = c.absDst.add (middleLbas * d.lbaSize) ∧
          out.1.remaining = c.remaining - middleLbas * d.lbaSize)
        (fun st' => ∃ taken, taken <+: cmds ∧ taken ≠ cmds ∧
          (∀ i < taken.length, dev.takes (st.issued.length + i) = true) ∧
          dev.takes (st.issued.length + taken.length) = false ∧
          st'.issued = st.issued ++ taken ∧ st'.op.err = some .deviceDriverError) := by
  obtain ⟨cmds, items, tiles, chunks⟩ := planMiddle_tiles geo c middleLbas
  refine ⟨cmds, tiles, chunks, tiles.covers_iff, tiles.pairwise, fun dev st => ?_⟩
  rw [submitReadMiddle_eq, items]
  refine (runChunks_ends (fun cmd member => (chunks cmd member).callback) st).bind fun st' ends => ?_
  exact ⟨ends.1, ends.2, rfl, rfl, rfl⟩

/-- A queue that refuses its third command for good. -/
def refusesThird : Device :=
  { Device.serving sectorDisk [] with
    retries := fun _ => [.noCtx [], .busy [0]]
    takes := fun n => n ≠ 2 }

/-- A run of 20 LBAs at 8 LBAs a command, of which the queue takes two commands. -/
theorem submitReadMiddle_tiles_refused :
    ∃ cmds st', Tiles Command.slba Command.blocks 100 120 cmds ∧
      submitReadMiddle sectorDriver refusesThird ⟨100, ⟨.user, 0⟩, 10240⟩ 20 (submittedRead 0 10240) =
        .out st' ∧ st'.issued <+: cmds ∧ st'.issued.length = 2 := by
  obtain ⟨cmds, tiles, -, -, -, ends⟩ :=
    submitReadMiddle_tiles sectorDriver_geometry ⟨100, ⟨.user, 0⟩, 10240⟩ 20
  have ended := ends refusesThird (submittedRead 0 10240)
  have two : (submitReadMiddle sectorDriver refusesThird ⟨100, ⟨.user, 0⟩, 10240⟩ 20
      (submittedRead 0 10240) >>= fun _ => .spin).finalState.map (·.issued.length) = some 2 := by
    decide
  cases ran : submitReadMiddle sectorDriver refusesThird ⟨100, ⟨.user, 0⟩, 10240⟩ 20
      (submittedRead 0 10240) with
  | spin =>
      rw [ran] at ended
      exact ended.elim
  | ok out =>
      rw [ran] at two
      cases two
  | out st' =>
      rw [ran] at ended two
      obtain ⟨taken, before, -, -, -, log, -⟩ := ended
      refine ⟨cmds, st', tiles, rfl, ?_, Option.some.inj two⟩
      rw [log]
      exact before

end OpenDS.Aisio
