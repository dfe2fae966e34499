import OpenDS.Aisio.ReadOp

/-!
# Accounting for the commands of a read

The counters of a read operation agree with its outstanding commands, and the
memory with its finished ones, in every state of the submission path and of the
polling that follows, whatever the device answers.

`Submit.Ends` is the rule of pre- and postconditions for the submission path: it
says what holds where a path goes on and what holds where it leaves through
`out`, and that it does not spin. The log of taken commands and the filled bounce
slots are never touched by a completion (`poke_frame`), so what a path submits
can be read off without regard to the order of completions.
-/

set_option autoImplicit false

namespace OpenDS.Aisio

open OpenDS.Library ReadState

/-! ## Rules for the submission path -/

namespace Submit

variable {α β : Type}

/-- The path ends: where it goes on `next` holds of its value, and where it
leaves through `out` `left` holds of the state. -/
def Ends (path : Submit α) (next : α → Prop) (left : ReadState → Prop) : Prop :=
  match path with
  | .ok value => next value
  | .out st => left st
  | .spin => False

@[simp] theorem ends_ok {value : α} {next : α → Prop} {left : ReadState → Prop} :
    (Submit.ok value).Ends next left ↔ next value := Iff.rfl

@[simp] theorem ends_out {st : ReadState} {next : α → Prop} {left : ReadState → Prop} :
    (Submit.out st : Submit α).Ends next left ↔ left st := Iff.rfl

theorem Ends.bind {path : Submit α} {rest : α → Submit β} {mid : α → Prop} {next : β → Prop}
    {left : ReadState → Prop} (first : path.Ends mid left)
    (second : ∀ value, mid value → (rest value).Ends next left) :
    (path >>= rest).Ends next left := by
  cases path with
  | ok value => exact second value first
  | out st => exact first
  | spin => exact first.elim

theorem Ends.mono {path : Submit α} {next next' : α → Prop} {left left' : ReadState → Prop}
    (ends : path.Ends next left) (nextMono : ∀ value, next value → next' value)
    (leftMono : ∀ st, left st → left' st) : path.Ends next' left' := by
  cases path with
  | ok value => exact nextMono value ends
  | out st => exact leftMono st ends
  | spin => exact ends.elim

/-- A path that ends has a final state, of which one of the two conditions holds. -/
theorem Ends.finalState {path : Submit ReadState} {next left : ReadState → Prop}
    (ends : path.Ends next left) :
    ∃ st, path.finalState = some st ∧ (next st ∨ left st) := by
  cases path with
  | ok st => exact ⟨st, rfl, .inl ends⟩
  | out st => exact ⟨st, rfl, .inr ends⟩
  | spin => exact ends.elim

end Submit

/-! ## What a completion can do -/

variable (d : Driver) (dev : Device)

/-- Either the poked command is not outstanding and nothing happens, or it
leaves the outstanding ones, its data lands if it succeeds, and its callback
runs. -/
theorem complete_cases (st : ReadState) (id : Nat) :
    complete d dev st id = st ∨
      ∃ c, id ∈ st.inflight ∧ st.issued[id]? = some c ∧
        complete d dev st id = { st with
          inflight := st.inflight.erase id
          mem := if dev.succeeds id then
              st.mem.blit c.dst (commandBytes d c) (commandData d dev c)
            else st.mem
          op := match c.callback with
            | .chunk => chunkCb d c (dev.succeeds id) st.op
            | .bounce => bounceCb (dev.succeeds id) st.op } := by
  unfold complete
  split
  · rename_i c outstanding logged
    exact .inr ⟨c, by simpa using outstanding, logged, rfl⟩
  · exact .inl rfl

/-- What completions leave alone: the request, the log and the bounce slots. -/
structure SameLog (st st' : ReadState) : Prop where
  issued : st'.issued = st.issued
  bounces : st'.op.bounces = st.op.bounces
  mode : st'.op.mode = st.op.mode
  bounceBuf : st'.op.bounceBuf = st.op.bounceBuf
  state : st'.op.state = st.op.state
  result : st'.op.result = st.op.result
  desc : st'.desc = st.desc

theorem SameLog.refl (st : ReadState) : SameLog st st := ⟨rfl, rfl, rfl, rfl, rfl, rfl, rfl⟩

theorem SameLog.trans {st st' st'' : ReadState} (first : SameLog st st')
    (second : SameLog st' st'') : SameLog st st'' where
  issued := second.issued.trans first.issued
  bounces := second.bounces.trans first.bounces
  mode := second.mode.trans first.mode
  bounceBuf := second.bounceBuf.trans first.bounceBuf
  state := second.state.trans first.state
  result := second.result.trans first.result
  desc := second.desc.trans first.desc

theorem chunkCb_frame (c : Command) (success : Bool) (op : FileOp) :
    let op' := chunkCb d c success op
    op'.bounces = op.bounces ∧ op'.mode = op.mode ∧ op'.bounceBuf = op.bounceBuf ∧
      op'.state = op.state ∧ op'.result = op.result := by
  cases success <;> exact ⟨rfl, rfl, rfl, rfl, rfl⟩

theorem bounceCb_frame (success : Bool) (op : FileOp) :
    let op' := bounceCb success op
    op'.bounces = op.bounces ∧ op'.mode = op.mode ∧ op'.bounceBuf = op.bounceBuf ∧
      op'.state = op.state ∧ op'.result = op.result := by
  unfold bounceCb
  cases (!success && op.err.isNone) <;> exact ⟨rfl, rfl, rfl, rfl, rfl⟩

theorem complete_frame (st : ReadState) (id : Nat) : SameLog st (complete d dev st id) := by
  rcases complete_cases d dev st id with same | ⟨c, _, _, changed⟩
  · rw [same]
    exact .refl st
  · rw [changed]
    cases c.callback with
    | chunk =>
        obtain ⟨h1, h2, h3, h4, h5⟩ := chunkCb_frame d c (dev.succeeds id) st.op
        exact ⟨rfl, h1, h2, h3, h4, h5, rfl⟩
    | bounce =>
        obtain ⟨h1, h2, h3, h4, h5⟩ := bounceCb_frame (dev.succeeds id) st.op
        exact ⟨rfl, h1, h2, h3, h4, h5, rfl⟩

theorem poke_frame (poked : List Nat) (st : ReadState) : SameLog st (poke d dev poked st) := by
  induction poked generalizing st with
  | nil => exact .refl st
  | cons id rest ih => exact (complete_frame d dev st id).trans (ih _)

/-! ## Counters and bytes -/

/-- The outstanding command with this place in the log carries the callback. -/
def ReadState.carries (st : ReadState) (cb : Callback) (id : Nat) : Bool :=
  st.issued[id]?.any fun c => c.callback = cb

/-- The bytes a command adds to `bytes_acc` when it completes. -/
def ReadState.chunkBytes (st : ReadState) (id : Nat) : Nat :=
  match st.issued[id]? with
  | some c => if c.callback = .chunk ∧ dev.succeeds id = true then commandBytes d c else 0
  | none => 0

/-- The bytes of the filled bounce slots. -/
def ReadState.bounceBytes (st : ReadState) : Nat := (st.op.bounces.map (·.nbytes)).sum

/-- The counters of the operation agree with its outstanding commands, and
`bytes_acc` with the bounce slots and the whole-LBA commands that have
succeeded. -/
structure Accounted (st : ReadState) : Prop where
  nodup : st.inflight.Nodup
  logged : ∀ id ∈ st.inflight, id < st.issued.length
  chunks : st.op.chunksRemaining = st.inflight.countP (st.carries .chunk)
  bounces : st.op.bouncesOutstanding = st.inflight.countP (st.carries .bounce)
  bytes : st.op.bytesAcc + (st.inflight.map (st.chunkBytes d dev)).sum =
    st.bounceBytes + ((List.range st.issued.length).map (st.chunkBytes d dev)).sum

variable {d dev}

theorem carries_of_logged {st : ReadState} {id : Nat} {c : Command} (cb : Callback)
    (logged : st.issued[id]? = some c) : st.carries cb id = decide (c.callback = cb) := by
  simp [ReadState.carries, logged]

theorem chunkBytes_of_logged {st : ReadState} {id : Nat} {c : Command}
    (logged : st.issued[id]? = some c) :
    st.chunkBytes d dev id =
      if c.callback = .chunk ∧ dev.succeeds id = true then commandBytes d c else 0 := by
  simp [ReadState.chunkBytes, logged]

/-- No command is outstanding once both counters are zero. -/
theorem Accounted.inflight_nil {st : ReadState} (acc : Accounted d dev st)
    (noChunks : st.op.chunksRemaining = 0) (noBounces : st.op.bouncesOutstanding = 0) :
    st.inflight = [] := by
  have chunks := acc.chunks
  have bounces := acc.bounces
  rw [noChunks] at chunks
  rw [noBounces] at bounces
  have none : ∀ cb, st.inflight.countP (st.carries cb) = 0 := by
    intro cb
    cases cb <;> omega
  rw [List.eq_nil_iff_forall_not_mem]
  intro id outstanding
  obtain ⟨c, found⟩ : ∃ c, st.issued[id]? = some c :=
    ⟨_, List.getElem?_eq_getElem (acc.logged id outstanding)⟩
  have carried := (List.countP_eq_zero.mp (none c.callback)) id outstanding
  simp [carries_of_logged _ found] at carried

theorem Accounted.complete {st : ReadState} (acc : Accounted d dev st) (id : Nat) :
    Accounted d dev (ReadState.complete d dev st id) := by
  have frame := complete_frame d dev st id
  rcases complete_cases d dev st id with same | ⟨c, outstanding, found, changed⟩
  · rw [same]
    exact acc
  · have inflight : (ReadState.complete d dev st id).inflight = st.inflight.erase id := by
      rw [changed]
    have carries : ∀ cb, (ReadState.complete d dev st id).carries cb = st.carries cb := by
      intro cb
      funext i
      simp only [ReadState.carries, frame.issued]
    have chunkBytes : (ReadState.complete d dev st id).chunkBytes d dev = st.chunkBytes d dev := by
      funext i
      simp only [ReadState.chunkBytes, frame.issued]
    have erased : ∀ cb, (st.inflight.erase id).countP (st.carries cb) =
        st.inflight.countP (st.carries cb) - (if c.callback = cb then 1 else 0) := by
      intro cb
      rw [List.countP_erase, carries_of_logged cb found]
      simp [outstanding]
    have positive : 0 < st.inflight.countP (st.carries c.callback) :=
      List.countP_pos_iff.mpr ⟨id, outstanding, by simp [carries_of_logged _ found]⟩
    have sum := List.sum_map_erase (st.chunkBytes d dev) outstanding
    rw [chunkBytes_of_logged found] at sum
    refine ⟨?_, ?_, ?_, ?_, ?_⟩
    · rw [inflight]
      exact acc.nodup.erase id
    · intro i member
      rw [inflight] at member
      rw [frame.issued]
      exact acc.logged i (List.mem_of_mem_erase member)
    · rw [inflight, carries, erased, changed]
      have chunks := acc.chunks
      cases cb : c.callback with
      | chunk =>
          rw [cb] at positive
          cases success : dev.succeeds id <;> simp [chunkCb] <;> omega
      | bounce =>
          unfold bounceCb
          cases (!dev.succeeds id && st.op.err.isNone) <;> simp <;> omega
    · rw [inflight, carries, erased, changed]
      have bounces := acc.bounces
      cases cb : c.callback with
      | chunk => cases success : dev.succeeds id <;> simp [chunkCb] <;> omega
      | bounce =>
          rw [cb] at positive
          unfold bounceCb
          cases (!dev.succeeds id && st.op.err.isNone) <;> simp <;> omega
    · have bytes := acc.bytes
      rw [inflight, chunkBytes, ReadState.bounceBytes, frame.bounces, frame.issued, changed]
      rw [ReadState.bounceBytes] at bytes
      cases cb : c.callback with
      | chunk => cases success : dev.succeeds id <;> simp [chunkCb, cb, success] at sum ⊢ <;> omega
      | bounce =>
          unfold bounceCb
          simp only [cb] at sum
          cases (!dev.succeeds id && st.op.err.isNone) <;> simp at sum ⊢ <;> omega

theorem Accounted.poke {st : ReadState} (acc : Accounted d dev st) (poked : List Nat) :
    Accounted d dev (ReadState.poke d dev poked st) := by
  induction poked generalizing st with
  | nil => exact acc
  | cons id rest ih => exact ih (acc.complete id)

/-! ## Data -/

/-- What the taken commands and the filled slots would deliver: whole-LBA
commands carry the target bytes of the user addresses they cover, and each
bounce slot lies inside the LBA its own command stages and carries the target
bytes of its destination. The staged LBAs do not overlap. -/
structure Sound (d : Driver) (dev : Device) (target : Int → UInt8) (st : ReadState) : Prop where
  direct : ∀ c ∈ st.issued, c.callback = .chunk → c.dst.space = .user ∧
    ∀ k, k < commandBytes d c → commandData d dev c k = target (c.dst.addr + k)
  staging : ∀ c ∈ st.issued, c.callback = .bounce → c.dst.space ≠ .user ∧
    c.dst.addr + commandBytes d c ≤ (st.op.bounces.length * d.lbaSize : Nat)
  apart : st.issued.Pairwise fun c c' => c.callback = .bounce → c'.callback = .bounce →
    c.dst.addr + commandBytes d c ≤ c'.dst.addr
  slots : ∀ s ∈ st.op.bounces, s.dst.space = .user ∧ ∃ c ∈ st.issued, ∃ off,
    c.callback = .bounce ∧ s.src = c.dst.add off ∧ off + s.nbytes ≤ commandBytes d c ∧
      ∀ k, k < s.nbytes → commandData d dev c (off + k) = target (s.dst.addr + k)

/-- The command of the log has completed with success. -/
def ReadState.Finished (dev : Device) (st : ReadState) (id : Nat) (c : Command) : Prop :=
  st.issued[id]? = some c ∧ id ∉ st.inflight ∧ dev.succeeds id = true

/-- The user addresses that a finished whole-LBA command covers. -/
def ReadState.Stored (d : Driver) (dev : Device) (st : ReadState) (a : Int) : Prop :=
  ∃ id c, st.Finished dev id c ∧ c.callback = .chunk ∧ c.dst.Covers (commandBytes d c) .user a

/-- The data of the finished commands is in memory: user memory differs from
the original only where a finished whole-LBA command stored the target bytes, and
the staged LBA of a finished bounce command is in its buffer. -/
structure Landed (d : Driver) (dev : Device) (original : Memory Space UInt8)
    (target : Int → UInt8) (st : ReadState) : Prop where
  direct : Stamped .user original st.mem target (st.Stored d dev)
  staged : ∀ id c, st.Finished dev id c → c.callback = .bounce →
    ∀ k, k < commandBytes d c → st.mem.load c.dst k = commandData d dev c k

/-- The bookkeeping of a read: counters, submitted data and landed data. -/
structure ReadInv (d : Driver) (dev : Device) (original : Memory Space UInt8)
    (target : Int → UInt8) (st : ReadState) : Prop where
  acc : Accounted d dev st
  sound : Sound d dev target st
  landed : Landed d dev original target st

variable {original : Memory Space UInt8} {target : Int → UInt8}

theorem Sound.congr {st st' : ReadState} (sound : Sound d dev target st)
    (same : st'.issued = st.issued) (bounces : st'.op.bounces = st.op.bounces) :
    Sound d dev target st' := by
  obtain ⟨direct, staging, apart, slots⟩ := sound
  refine ⟨?_, ?_, ?_, ?_⟩
  · rw [same]
    exact direct
  · rw [same, bounces]
    exact staging
  · rw [same]
    exact apart
  · rw [bounces, same]
    exact slots

theorem Sound.complete {st : ReadState} (sound : Sound d dev target st) (id : Nat) :
    Sound d dev target (ReadState.complete d dev st id) :=
  sound.congr (complete_frame d dev st id).issued (complete_frame d dev st id).bounces

/-- Which commands are finished after one more completion. -/
theorem finished_complete {st st' : ReadState} (acc : Accounted d dev st) {id : Nat}
    (inflight : st'.inflight = st.inflight.erase id) (issued : st'.issued = st.issued)
    (j : Nat) (c : Command) :
    st'.Finished dev j c ↔
      st.Finished dev j c ∨ (j = id ∧ st.issued[id]? = some c ∧ dev.succeeds id = true) := by
  unfold ReadState.Finished
  rw [inflight, issued, acc.nodup.mem_erase_iff]
  constructor
  · rintro ⟨found, notLeft, success⟩
    by_cases here : j = id
    · subst here
      exact .inr ⟨rfl, found, success⟩
    · exact .inl ⟨found, fun member => notLeft ⟨here, member⟩, success⟩
  · rintro (⟨found, notIn, success⟩ | ⟨rfl, found, success⟩)
    · exact ⟨found, fun h => notIn h.2, success⟩
    · exact ⟨found, fun h => h.1 rfl, success⟩

/-- The addresses of two bounce commands of the log do not overlap. -/
theorem Sound.disjoint {st : ReadState} (sound : Sound d dev target st) {i j : Nat}
    {c c' : Command} (ne : i ≠ j) (foundI : st.issued[i]? = some c)
    (foundJ : st.issued[j]? = some c') (bounceI : c.callback = .bounce)
    (bounceJ : c'.callback = .bounce) :
    c.dst.addr + commandBytes d c ≤ c'.dst.addr ∨ c'.dst.addr + commandBytes d c' ≤ c.dst.addr := by
  rw [List.getElem?_eq_some_iff] at foundI foundJ
  obtain ⟨boundI, rfl⟩ := foundI
  obtain ⟨boundJ, rfl⟩ := foundJ
  have ordered := List.pairwise_iff_getElem.mp sound.apart
  rcases Nat.lt_or_gt_of_ne ne with lower | higher
  · exact .inl (ordered i j boundI boundJ lower bounceI bounceJ)
  · exact .inr (ordered j i boundJ boundI higher bounceJ bounceI)

/-- **A completion keeps the landed data and adds its own.** -/
theorem Landed.complete {st : ReadState} (landed : Landed d dev original target st)
    (acc : Accounted d dev st) (sound : Sound d dev target st) (id : Nat) :
    Landed d dev original target (ReadState.complete d dev st id) := by
  rcases complete_cases d dev st id with same | ⟨c, -, found, changed⟩
  · rw [same]
    exact landed
  have member : c ∈ st.issued := List.mem_of_getElem? found
  have inflight : (ReadState.complete d dev st id).inflight = st.inflight.erase id := by
    rw [changed]
  have finished := finished_complete acc inflight (complete_frame d dev st id).issued
  have mem : (ReadState.complete d dev st id).mem = if dev.succeeds id then
      st.mem.blit c.dst (commandBytes d c) (commandData d dev c) else st.mem := by
    rw [changed]
  by_cases success : dev.succeeds id = true
  case neg =>
    -- A failed command moves no data and counts as unfinished.
    have same : ∀ j c', (ReadState.complete d dev st id).Finished dev j c' ↔
        st.Finished dev j c' := fun j c' => by simp [finished, success]
    rw [if_neg success] at mem
    refine ⟨?_, ?_⟩
    · rw [mem]
      exact landed.direct.congr fun a => by simp only [ReadState.Stored, same]
    · rw [mem]
      intro j c' fin
      exact landed.staged j c' ((same j c').mp fin)
  rw [if_pos success] at mem
  cases cb : c.callback with
  | chunk =>
      obtain ⟨space, data⟩ := sound.direct c member cb
      refine ⟨?_, ?_⟩
      · rw [mem]
        refine (landed.direct.blit c.dst _ _ space data).congr fun a => ?_
        simp only [ReadState.Stored, finished]
        constructor
        · rintro ⟨j, c', fin | ⟨rfl, found', -⟩, chunk, covers⟩
          · exact .inl ⟨j, c', fin, chunk, covers⟩
          · rw [found] at found'
            cases found'
            exact .inr covers
        · rintro (⟨j, c', fin, chunk, covers⟩ | covers)
          · exact ⟨j, c', .inl fin, chunk, covers⟩
          · exact ⟨id, c, .inr ⟨rfl, found, success⟩, cb, covers⟩
      · rw [mem]
        intro j c' fin bounce k within
        rcases (finished j c').mp fin with old | ⟨rfl, found', -⟩
        · rw [Memory.load, Memory.blit_of_space_ne]
          · exact landed.staged j c' old bounce k within
          · rw [space]
            exact (sound.staging c' (List.mem_of_getElem? old.1) bounce).1
        · rw [found] at found'
          cases found'
          rw [cb] at bounce
          cases bounce
  | bounce =>
      obtain ⟨space, -⟩ := sound.staging c member cb
      refine ⟨?_, ?_⟩
      · rw [mem]
        refine (landed.direct.blit_of_space_ne c.dst _ _ space).congr fun a => ?_
        simp only [ReadState.Stored, finished]
        constructor
        · rintro ⟨j, c', fin | ⟨rfl, found', -⟩, chunk, covers⟩
          · exact ⟨j, c', fin, chunk, covers⟩
          · rw [found] at found'
            cases found'
            rw [cb] at chunk
            cases chunk
        · rintro ⟨j, c', fin, chunk, covers⟩
          exact ⟨j, c', .inl fin, chunk, covers⟩
      · rw [mem]
        intro j c' fin bounce k within
        by_cases here : j = id
        · subst here
          have found' := fin.1
          rw [(complete_frame d dev st j).issued, found] at found'
          cases found'
          exact Memory.load_blit_of_lt _ _ _ _ within
        · rcases (finished j c').mp fin with old | ⟨rfl, -, -⟩
          · rw [Memory.load, Memory.blit_of_not_covers]
            · exact landed.staged j c' old bounce k within
            · rintro ⟨-, low, high⟩
              rcases sound.disjoint here old.1 found bounce cb with before | after <;> omega
          · exact absurd rfl here

theorem ReadInv.complete {st : ReadState} (inv : ReadInv d dev original target st) (id : Nat) :
    ReadInv d dev original target (ReadState.complete d dev st id) where
  acc := inv.acc.complete id
  sound := inv.sound.complete id
  landed := inv.landed.complete inv.acc inv.sound id

theorem ReadInv.poke {st : ReadState} (inv : ReadInv d dev original target st)
    (poked : List Nat) : ReadInv d dev original target (ReadState.poke d dev poked st) := by
  induction poked generalizing st with
  | nil => exact inv
  | cons id rest ih => exact ih (inv.complete id)

/-! ## Taking a command -/

/-- The invariant reads only the log, the outstanding commands, the memory, the
counters and the slots. -/
theorem ReadInv.congr {st st' : ReadState} (inv : ReadInv d dev original target st)
    (issued : st'.issued = st.issued) (inflight : st'.inflight = st.inflight)
    (mem : st'.mem = st.mem) (chunks : st'.op.chunksRemaining = st.op.chunksRemaining)
    (outstanding : st'.op.bouncesOutstanding = st.op.bouncesOutstanding)
    (bytesAcc : st'.op.bytesAcc = st.op.bytesAcc) (bounces : st'.op.bounces = st.op.bounces) :
    ReadInv d dev original target st' := by
  have carries : ∀ cb, st'.carries cb = st.carries cb := fun cb => by
    funext i
    simp only [ReadState.carries, issued]
  have chunkBytes : st'.chunkBytes d dev = st.chunkBytes d dev := by
    funext i
    simp only [ReadState.chunkBytes, issued]
  have finished : ∀ i c, st'.Finished dev i c ↔ st.Finished dev i c := fun i c => by
    simp only [ReadState.Finished, issued, inflight]
  obtain ⟨acc, sound, landed⟩ := inv
  refine ⟨⟨?_, ?_, ?_, ?_, ?_⟩, sound.congr issued bounces, ?_, ?_⟩
  · rw [inflight]
    exact acc.nodup
  · rw [inflight, issued]
    exact acc.logged
  · rw [chunks, inflight, carries]
    exact acc.chunks
  · rw [outstanding, inflight, carries]
    exact acc.bounces
  · rw [bytesAcc, inflight, issued, chunkBytes, ReadState.bounceBytes, bounces]
    exact acc.bytes
  · rw [mem]
    exact landed.direct.congr fun a => by simp only [ReadState.Stored, finished]
  · rw [mem]
    intro i c fin
    exact landed.staged i c ((finished i c).mp fin)

theorem ReadInv.fail {st : ReadState} (inv : ReadInv d dev original target st) (e : OpError) :
    ReadInv d dev original target (st.fail e) :=
  inv.congr rfl rfl rfl rfl rfl rfl rfl

theorem getElem?_take_old {st : ReadState} {c : Command} {i : Nat} (old : i < st.issued.length) :
    (take c st).issued[i]? = st.issued[i]? := by
  simp [ReadState.take, List.getElem?_append_left old]

theorem getElem?_take_new (st : ReadState) (c : Command) :
    (take c st).issued[st.issued.length]? = some c := by
  simp [ReadState.take]

/-- Nothing is finished by taking a command. -/
theorem finished_take {st : ReadState} (c : Command) (i : Nat) (c' : Command) :
    (take c st).Finished dev i c' ↔ st.Finished dev i c' := by
  unfold ReadState.Finished
  by_cases new : i = st.issued.length
  · subst new
    have missing : st.issued[st.issued.length]? = none := by simp
    constructor
    · rintro ⟨-, notIn, -⟩
      exact absurd (by simp [ReadState.take]) notIn
    · rintro ⟨found, -, -⟩
      rw [missing] at found
      cases found
  · have same : (take c st).issued[i]? = st.issued[i]? := by
      by_cases old : i < st.issued.length
      · exact getElem?_take_old old
      · have length : (take c st).issued.length = st.issued.length + 1 := by simp [ReadState.take]
        rw [List.getElem?_eq_none (by omega), List.getElem?_eq_none (by omega)]
    rw [same]
    simp [ReadState.take, new]

/-- The outstanding commands with a callback, after one more command is taken. -/
theorem countP_take {st : ReadState} (acc : Accounted d dev st) (c : Command) (cb : Callback) :
    (take c st).inflight.countP ((take c st).carries cb) =
      st.inflight.countP (st.carries cb) + if c.callback = cb then 1 else 0 := by
  have inflight : (take c st).inflight = st.inflight ++ [st.issued.length] := rfl
  have old : st.inflight.countP ((take c st).carries cb) = st.inflight.countP (st.carries cb) :=
    List.countP_congr fun i member => by
      simp only [ReadState.carries, getElem?_take_old (acc.logged i member)]
  rw [inflight, List.countP_append, old, List.countP_singleton,
    carries_of_logged cb (getElem?_take_new st c)]
  simp

/-- The bytes that the outstanding commands and the log stand for grow by the
same amount when a command is taken. -/
theorem chunkBytes_take {st : ReadState} (acc : Accounted d dev st) (c : Command) :
    ((take c st).inflight.map ((take c st).chunkBytes d dev)).sum =
        (st.inflight.map (st.chunkBytes d dev)).sum +
          (take c st).chunkBytes d dev st.issued.length ∧
      ((List.range (take c st).issued.length).map ((take c st).chunkBytes d dev)).sum =
        ((List.range st.issued.length).map (st.chunkBytes d dev)).sum +
          (take c st).chunkBytes d dev st.issued.length := by
  have old : ∀ i, i < st.issued.length →
      (take c st).chunkBytes d dev i = st.chunkBytes d dev i := fun i bound => by
    simp only [ReadState.chunkBytes, getElem?_take_old bound]
  have inflight : (take c st).inflight = st.inflight ++ [st.issued.length] := rfl
  have length : (take c st).issued.length = st.issued.length + 1 := by simp [ReadState.take]
  constructor
  · rw [inflight, List.map_append, List.sum_append,
      List.map_congr_left fun i member => old i (acc.logged i member)]
    simp
  · rw [length, List.range_succ, List.map_append, List.sum_append,
      List.map_congr_left fun i member => old i (List.mem_range.mp member)]
    simp

theorem Accounted.take_nodup {st : ReadState} (acc : Accounted d dev st) (c : Command) :
    (take c st).inflight.Nodup := by
  have fresh : st.issued.length ∉ st.inflight := fun member =>
    absurd (acc.logged _ member) (Nat.lt_irrefl _)
  simp only [ReadState.take, List.nodup_append]
  refine ⟨acc.nodup, by simp, ?_⟩
  intro i member j single same
  rw [List.mem_singleton] at single
  subst same single
  exact fresh member

theorem Accounted.take_logged {st : ReadState} (acc : Accounted d dev st) (c : Command) :
    ∀ id ∈ (take c st).inflight, id < (take c st).issued.length := by
  intro id member
  simp only [ReadState.take, List.mem_append, List.mem_singleton, List.length_append,
    List.length_singleton] at member ⊢
  rcases member with old | rfl
  · exact Nat.lt_succ_of_lt (acc.logged id old)
  · exact Nat.lt_succ_self _

theorem Landed.take {st : ReadState} (landed : Landed d dev original target st) (c : Command) :
    Landed d dev original target (ReadState.take c st) where
  direct := landed.direct.congr fun a => by simp only [ReadState.Stored, finished_take]
  staged i c' fin := landed.staged i c' ((finished_take c i c').mp fin)

/-- **Taking a whole-LBA command.** -/
theorem ReadInv.takeChunk {st : ReadState} (inv : ReadInv d dev original target st) (c : Command)
    (chunk : c.callback = .chunk) (space : c.dst.space = .user)
    (data : ∀ k, k < commandBytes d c → commandData d dev c k = target (c.dst.addr + k)) :
    ReadInv d dev original target (take c (addChunks 1 st)) := by
  obtain ⟨acc, sound, landed⟩ := inv
  have counted := countP_take acc c
  obtain ⟨outstanding, logged⟩ := chunkBytes_take acc c
  have taken : ReadInv d dev original target (take c (addChunks 1 st)) ↔
      ReadInv d dev original target (addChunks 1 (take c st)) := Iff.rfl
  refine taken.mpr ⟨⟨acc.take_nodup c, acc.take_logged c, ?_, ?_, ?_⟩, ?_, ?_⟩
  · have chunks := acc.chunks
    have count := counted .chunk
    rw [if_pos chunk] at count
    change st.op.chunksRemaining + 1 = ((take c st).inflight.countP ((take c st).carries .chunk) : Nat)
    omega
  · have bounces := acc.bounces
    have count := counted .bounce
    rw [if_neg (by rw [chunk]; decide)] at count
    change st.op.bouncesOutstanding = ((take c st).inflight.countP ((take c st).carries .bounce) : Nat)
    omega
  · have bytes := acc.bytes
    change st.op.bytesAcc + ((take c st).inflight.map ((take c st).chunkBytes d dev)).sum =
      st.bounceBytes +
        ((List.range (take c st).issued.length).map ((take c st).chunkBytes d dev)).sum
    omega
  · refine ⟨?_, ?_, ?_, ?_⟩
    · intro c' member isChunk
      rcases List.mem_append.mp member with old | new
      · exact sound.direct c' old isChunk
      · rw [List.mem_singleton.mp new]
        exact ⟨space, data⟩
    · intro c' member isBounce
      rcases List.mem_append.mp member with old | new
      · exact sound.staging c' old isBounce
      · rw [List.mem_singleton.mp new, chunk] at isBounce
        cases isBounce
    · refine List.pairwise_append.mpr ⟨sound.apart, List.pairwise_singleton _ _, ?_⟩
      intro c' _ c'' new _ isBounce
      rw [List.mem_singleton.mp new, chunk] at isBounce
      cases isBounce
    · intro s member
      obtain ⟨user, c', old, rest⟩ := sound.slots s member
      exact ⟨user, c', List.mem_append_left _ old, rest⟩
  · exact ⟨(landed.take c).direct, (landed.take c).staged⟩

/-- Fill the next bounce slot, as `submit_bounce_read` does once the queue has
taken its command. -/
def fillSlot (slot : BounceSlot) (st : ReadState) : ReadState :=
  { st with op := { st.op with
    bounces := st.op.bounces ++ [slot]
    bouncesOutstanding := st.op.bouncesOutstanding + 1
    bytesAcc := st.op.bytesAcc + slot.nbytes } }

/-- **Taking a bounce command and filling its slot.** -/
theorem ReadInv.takeBounce {st : ReadState} (inv : ReadInv d dev original target st)
    (c : Command) (off : Nat) (slot : BounceSlot) (bounce : c.callback = .bounce)
    (oneLba : commandBytes d c = d.lbaSize) (space : c.dst.space ≠ .user)
    (addr : c.dst.addr = (st.op.bounces.length * d.lbaSize : Nat))
    (user : slot.dst.space = .user) (src : slot.src = c.dst.add off)
    (within : off + slot.nbytes ≤ d.lbaSize)
    (data : ∀ k, k < slot.nbytes → commandData d dev c (off + k) = target (slot.dst.addr + k)) :
    ReadInv d dev original target (fillSlot slot (take c st)) := by
  obtain ⟨acc, sound, landed⟩ := inv
  have counted := countP_take acc c
  obtain ⟨outstanding, logged⟩ := chunkBytes_take acc c
  refine ⟨⟨acc.take_nodup c, acc.take_logged c, ?_, ?_, ?_⟩, ?_, ?_⟩
  · have chunks := acc.chunks
    have count := counted .chunk
    rw [if_neg (by rw [bounce]; decide)] at count
    change st.op.chunksRemaining = ((take c st).inflight.countP ((take c st).carries .chunk) : Nat)
    omega
  · have bounces := acc.bounces
    have count := counted .bounce
    rw [if_pos bounce] at count
    change st.op.bouncesOutstanding + 1 =
      ((take c st).inflight.countP ((take c st).carries .bounce) : Nat)
    omega
  · have bytes := acc.bytes
    have grown : (fillSlot slot (take c st)).bounceBytes = st.bounceBytes + slot.nbytes := by
      simp [fillSlot, ReadState.bounceBytes, ReadState.take]
    rw [grown]
    change st.op.bytesAcc + slot.nbytes +
      ((take c st).inflight.map ((take c st).chunkBytes d dev)).sum =
      st.bounceBytes + slot.nbytes +
        ((List.range (take c st).issued.length).map ((take c st).chunkBytes d dev)).sum
    omega
  · have slots : (fillSlot slot (take c st)).op.bounces = st.op.bounces ++ [slot] := rfl
    have length : ((st.op.bounces ++ [slot]).length * d.lbaSize : Nat) =
        st.op.bounces.length * d.lbaSize + d.lbaSize := by
      simp [Nat.succ_mul]
    refine ⟨?_, ?_, ?_, ?_⟩
    · intro c' member isChunk
      rcases List.mem_append.mp member with old | new
      · exact sound.direct c' old isChunk
      · rw [List.mem_singleton.mp new, bounce] at isChunk
        cases isChunk
    · intro c' member isBounce
      rw [slots, length]
      rcases List.mem_append.mp member with old | new
      · obtain ⟨apart, placed⟩ := sound.staging c' old isBounce
        exact ⟨apart, by omega⟩
      · rw [List.mem_singleton.mp new]
        exact ⟨space, by omega⟩
    · refine List.pairwise_append.mpr ⟨sound.apart, List.pairwise_singleton _ _, ?_⟩
      intro c' old c'' new isBounce _
      rw [List.mem_singleton.mp new, addr]
      exact (sound.staging c' old isBounce).2
    · rw [slots]
      intro s member
      rcases List.mem_append.mp member with old | new
      · obtain ⟨isUser, c', logged', rest⟩ := sound.slots s old
        exact ⟨isUser, c', List.mem_append_left _ logged', rest⟩
      · rw [List.mem_singleton.mp new]
        exact ⟨user, c, List.mem_append_right _ (List.mem_singleton_self c), off, bounce, src,
          by omega, data⟩
  · exact ⟨(landed.take c).direct, (landed.take c).staged⟩

end OpenDS.Aisio
