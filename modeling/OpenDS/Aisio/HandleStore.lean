import OpenDS.Aisio.AsyncRead
import OpenDS.Aisio.PwriteRun
import OpenDS.Library.LastWrites

/-!
# A handle of the aisio backend as a store

Writes go through the file system, reads go to the blocks of the device. What keeps them
together is the index of HOMI: a write that has gone through marks it dirty, and the next
read has it made again from the layout of the file.

A program writes and reads through one handle, one call at a time. As long as no write gives
up once it has changed the file, the index is never older than the file, and every read gives
what was last written (`handle_reads_last_written`). A write that gives up half way leaves the old
index in place, and what is read then is not said.
-/

set_option autoImplicit false

namespace OpenDS.Aisio

open OpenDS.Library ReadState
open OpenDS.Common (WriteRequest WriteState WritePc File)

/-! ## The file and its index -/

/-- The file as the file system has it, the blocks that it lies on, what HOMI has indexed,
`none` once that is marked dirty, and the memory of the program. -/
structure Volume where
  file : File
  disk : Nat → Nat → UInt8
  layout : List Extent
  index : Option (List Extent)
  mem : Memory Space UInt8

/-- The extents that HOMI serves. A dirty index is made again from the layout. -/
def Volume.extents (v : Volume) : List Extent := v.index.getD v.layout

/-- The byte that the blocks have at a position of the file. -/
def Volume.stored (d : Driver) (v : Volume) (p : Nat) : UInt8 :=
  fileByte d (.serving v.disk v.layout) v.layout p

/-- The file has no holes, and its bytes are those of its blocks. -/
structure Volume.Sound (d : Driver) (v : Volume) : Prop where
  dense : HoleFree d v.layout
  length : endOfFile v.layout = v.file.length
  offT : v.file.length < 2 ^ 63
  bytes : ∀ p, p < v.file.length → v.stored d p = v.file.byte p

/-- The index is that of the file. -/
def Volume.Indexed (v : Volume) : Prop := ∀ extents, v.index = some extents → extents = v.layout

/-- Where the file system puts the file. -/
structure Placement where
  disk : Nat → Nat → UInt8
  layout : List Extent

/-! ## The calls -/

/-- The arguments of a call: the buffer, the size and the offsets. -/
structure CallArgs where
  bufBase : Int
  size : Nat
  fileOffset : Nat
  bufOffset : Int

/-- `buf_base + buf_offset`. -/
def CallArgs.address (c : CallArgs) : Int := c.bufBase + c.bufOffset

/-- A write as `pwrite_op` gets it. -/
def CallArgs.writeRequest (c : CallArgs) (wronly : Bool) (mem : Memory Space UInt8) :
    WriteRequest :=
  ⟨wronly, fun k => mem .user (c.address + k), c.size, c.fileOffset⟩

/-- A read as `submit_async_op` publishes it. -/
def CallArgs.submitted (c : CallArgs) (mem : Memory Space UInt8) : ReadState where
  op :=
    { mode := .async, state := .pending, bufBase := c.bufBase, size := c.size
      fileOffset := c.fileOffset, bufOffset := c.bufOffset, chunksRemaining := 0
      bouncesOutstanding := 0, bytesAcc := 0, err := none, bounces := [], bounceBuf := none
      result := none }
  issued := []
  inflight := []
  mem := mem
  desc := ⟨⟨.user, 0⟩, ⟨.user, 0⟩, 0⟩

/-- What the program does next: it fills its memory, or it makes a call and waits for it. The
answers of the kernel, of HOMI, of the device and of the file system are part of the step. -/
inductive HandleStep where
  | memory (mem : Memory Space UInt8)
  | write (c : CallArgs) (wronly : Bool) (garbage : Nat → UInt8) (answers : List CallAnswer)
      (place : Placement)
  | read (c : CallArgs) (dev : Device) (polls : List (List Nat))

/-- A write that has returned: the file, the result, and what it has done. -/
def writeReturns (v : Volume) (c : CallArgs) (wronly : Bool) (garbage : Nat → UInt8)
    (answers : List CallAnswer) : Option (File × Int × List IndexEvent) :=
  let r := c.writeRequest wronly v.mem
  ((pwriteAlone r).run answers (v.file, pwriteCall r garbage)).bind fun s =>
    match s.2.pc with
    | .returned ret => some (s.1, ret, s.2.events)
    | _ => none

/-- A read that has completed: the memory, and the result. -/
def readReturns (d : Driver) (v : Volume) (c : CallArgs) (dev : Device)
    (polls : List (List Nat)) : Option (Memory Space UInt8 × Int) :=
  (ioThread d dev polls (c.submitted v.mem)).bind fun st => st.op.result.map fun n => (st.mem, n)

/-- A handle, one call after the other. -/
def handle (d : Driver) : Machine (Volume × LastWrites UInt8) HandleStep where
  step o l := match l with
    | .memory mem => some ({ o.1 with mem := mem }, o.2)
    | .write c wronly garbage answers place =>
      (writeReturns o.1 c wronly garbage answers).map fun out =>
        ({ o.1 with
          file := out.1
          disk := place.disk
          layout := place.layout
          index := if .markedDirty ∈ out.2.2 then none else o.1.index },
          o.2.reported c.fileOffset c.size out.2.1 fun k => o.1.mem .user (c.address + k))
    | .read c dev polls =>
      (readReturns d o.1 c dev polls).map fun out =>
        ({ o.1 with mem := out.1, index := some o.1.extents }, o.2)

/-- The device answers a read: it has the blocks, HOMI serves its index, and the commands
succeed. -/
structure Serves (v : Volume) (dev : Device) : Prop where
  disk : dev.disk = v.disk
  resolved : resolveExtents dev = .ok v.extents
  good : dev.Good

/-- What a write may meet: its edge blocks are read in full, it does not give up once it has
changed the file, and the file system keeps the file without holes, where it was if it has
not changed. -/
structure Writes (d : Driver) (v : Volume) (c : CallArgs) (wronly : Bool) (garbage : Nat → UInt8)
    (answers : List CallAnswer) (place : Placement) : Prop where
  representable : c.fileOffset + c.size + 4095 < 2 ^ 63
  edges : (pwriteAlone (c.writeRequest wronly v.mem)).Meets ReadsEdgesFully answers
    (v.file, pwriteCall (c.writeRequest wronly v.mem) garbage)
  whole : ∀ f ret events, writeReturns v c wronly garbage answers = some (f, ret, events) →
    ret < 0 → .changed ∉ events
  placed : ∀ f ret events, writeReturns v c wronly garbage answers = some (f, ret, events) →
    Volume.Sound d ⟨f, place.disk, place.layout, none, v.mem⟩ ∧
      (.changed ∉ events → place = ⟨v.disk, v.layout⟩)

/-- What a step may meet. -/
def Orderly (d : Driver) (v : Volume) : HandleStep → Prop
  | .memory _ => True
  | .write c wronly garbage answers place => Writes d v c wronly garbage answers place
  | .read _ dev _ => Serves v dev

/-! ## One call -/

variable {d : Driver} {v : Volume} {c : CallArgs} {known : LastWrites UInt8}

/-- What holds between two calls. -/
structure HandleInv (d : Driver) (o : Volume × LastWrites UInt8) : Prop where
  sound : o.1.Sound d
  indexed : o.1.Indexed
  known : o.2.Agrees o.1.file

theorem Volume.Indexed.extents (indexed : v.Indexed) : v.extents = v.layout := by
  unfold Volume.extents
  cases index : v.index with
  | none => rfl
  | some extents => exact indexed extents index

/-- A write of nothing returns at once. -/
theorem writeReturns_nothing {wronly : Bool} {garbage : Nat → UInt8} {answers : List CallAnswer}
    (none : c.size = 0) {f : File} {ret : Int} {events : List IndexEvent}
    (returned : writeReturns v c wronly garbage answers = some (f, ret, events)) :
    f = v.file ∧ ret = 0 ∧ events = [] := by
  have called : pwriteCall (c.writeRequest wronly v.mem) garbage = ⟨.returned 0, []⟩ := by
    simp [pwriteCall, WriteRequest.call, CallArgs.writeRequest, none, pwriteAt]
  simp only [writeReturns, called] at returned
  cases answers with
  | nil =>
      cases returned
      exact ⟨rfl, rfl, rfl⟩
  | cons l rest => cases l <;> simp [pwriteAlone, pwriteOp] at returned

/-- A write that reports a count has written its range, and marked the index dirty if there
was anything to write. A write that has changed nothing leaves the file as it was. -/
theorem writeReturns_ends {wronly : Bool} {garbage : Nat → UInt8} {answers : List CallAnswer}
    (representable : c.fileOffset + c.size + 4095 < 2 ^ 63)
    (edges : (pwriteAlone (c.writeRequest wronly v.mem)).Meets ReadsEdgesFully answers
      (v.file, pwriteCall (c.writeRequest wronly v.mem) garbage)) {f : File} {ret : Int}
    {events : List IndexEvent}
    (returned : writeReturns v c wronly garbage answers = some (f, ret, events)) :
    (0 ≤ ret → ret = c.size ∧ (0 < c.size → .markedDirty ∈ events) ∧
        f = v.file.pwrite c.fileOffset c.size fun k => v.mem .user (c.address + k)) ∧
      (.changed ∉ events → f = v.file) := by
  by_cases none : c.size = 0
  · obtain ⟨file, zero, quiet⟩ := writeReturns_nothing none returned
    rw [none, ByteFile.pwrite_zero]
    exact ⟨fun _ => ⟨zero, nofun, file⟩, fun _ => file⟩
  have fits : (c.writeRequest wronly v.mem).Fits := ⟨Nat.pos_of_ne_zero none, representable⟩
  obtain ⟨s, ran, result⟩ := Option.bind_eq_some_iff.mp returned
  cases pc : s.2.pc with
  | direct w => simp [pc] at result
  | markDirty ret' => simp [pc] at result
  | returned ret' =>
      simp only [pc, Option.some.injEq, Prod.mk.injEq] at result
      obtain ⟨rfl, rfl, rfl⟩ := result
      obtain ⟨counted, quiet⟩ := pwriteAlone_ends fits edges ran pc
      refine ⟨fun nonneg => ?_, quiet⟩
      obtain ⟨size, file, marked⟩ := counted nonneg
      exact ⟨size, fun _ => marked, file⟩

/-- **A write keeps the index no older than the file.** -/
theorem HandleInv.write {o : Volume × LastWrites UInt8} (inv : HandleInv d o) {wronly : Bool}
    {garbage : Nat → UInt8} {answers : List CallAnswer} {place : Placement}
    (writes : Writes d o.1 c wronly garbage answers place) {o' : Volume × LastWrites UInt8}
    (step : (handle d).step o (.write c wronly garbage answers place) = some o') :
    HandleInv d o' := by
  obtain ⟨⟨f, ret, events⟩, returned, rfl⟩ := Option.map_eq_some_iff.mp step
  obtain ⟨sound, stays⟩ := writes.placed f ret events returned
  have placed : Volume.Sound d
      { o.1 with
        file := f, disk := place.disk, layout := place.layout
        index := if .markedDirty ∈ events then none else o.1.index } :=
    ⟨sound.dense, sound.length, sound.offT, sound.bytes⟩
  obtain ⟨counted, quiet⟩ := writeReturns_ends writes.representable writes.edges returned
  refine ⟨placed, fun extents here => ?_, ?_⟩
  · by_cases marked : .markedDirty ∈ events
    · rw [if_pos marked] at here
      cases here
    · -- A write that has not marked the index has changed nothing.
      rw [if_neg marked] at here
      have unchanged : .changed ∉ events := by
        by_cases negative : ret < 0
        · exact writes.whole f ret events returned negative
        · have nothing : c.size = 0 := by
            by_contra some
            exact marked ((counted (by omega)).2.1 (Nat.pos_of_ne_zero some))
          rw [(writeReturns_nothing nothing returned).2.2]
          exact List.not_mem_nil
      rw [stays unchanged]
      exact inv.indexed extents here
  · simp only [LastWrites.reported]
    split
    · rename_i negative
      rw [quiet (writes.whole f ret events returned negative)]
      exact inv.known.lost (fun _ _ => rfl) (Nat.le_refl _)
    · rename_i nonneg
      obtain ⟨size, -, file⟩ := counted (by omega)
      rw [size, Int.toNat_natCast, file]
      exact inv.known.wrote _ _ _

/-- The offset of a read is an `off_t`, and its range does not wrap. -/
structure CallArgs.Ranged (c : CallArgs) : Prop where
  offT : c.fileOffset < 2 ^ 63
  noWrap : c.fileOffset + c.size < 2 ^ 64

/-- How a read completes: it is rejected for its alignment, or it has delivered what the file
has of its range, and nothing else. -/
inductive Delivers (f : File) (c : CallArgs) (mem mem' : Memory Space UInt8) : Int → Prop where
  | rejected : Delivers f c mem mem' (-OpError.invalidValue.code)
  | bytes (n : Nat) : n = min c.size (f.length - c.fileOffset) →
      (∀ k : Nat, k < n → mem' .user (c.address + k) = f.byte (c.fileOffset + k)) →
      (∀ a, ¬ (c.address ≤ a ∧ a < c.address + n) → mem' .user a = mem .user a) →
      Delivers f c mem mem' n

/-- A read starts as its submitter leaves it. -/
theorem submitted_fresh (c : CallArgs) (mem : Memory Space UInt8) : Submitted (c.submitted mem) :=
  ⟨rfl, rfl, rfl, rfl⟩

theorem CallArgs.Ranged.submitted (ranged : c.Ranged) (mem : Memory Space UInt8) :
    Aisio.Ranged (c.submitted mem) := by
  have offT := ranged.offT
  have noWrap := ranged.noWrap
  refine ⟨Int.natCast_nonneg _, ?_, ?_⟩
  · change (c.fileOffset : Int) < 2 ^ 63
    omega
  · change (c.fileOffset : Int).toNat + c.size < 2 ^ 64
    omega

/-- The blocks that a read finds are those of the file. -/
theorem Serves.fileByte {dev : Device} (sound : v.Sound d) (serves : Serves v dev) {p : Nat}
    (there : p < v.file.length) : fileByte d dev v.layout p = v.file.byte p := by
  rw [← sound.bytes p there, Volume.stored]
  unfold Aisio.fileByte
  rw [serves.disk]
  rfl

/-- **A read delivers the file** that the writes have left. -/
theorem read_delivers (geo : d.Geometry) (sound : v.Sound d) (indexed : v.Indexed)
    {dev : Device} (serves : Serves v dev) (ranged : c.Ranged) {polls : List (List Nat)}
    {mem : Memory Space UInt8} {n : Int} (read : readReturns d v c dev polls = some (mem, n)) :
    Delivers v.file c v.mem mem n := by
  have resolved : resolveExtents dev = .ok v.layout := by
    rw [serves.resolved, indexed.extents]
  have lay := sound.dense.layout
  have inRange := ranged.submitted v.mem
  have eof : endOfFile v.layout < 2 ^ 63 := by
    rw [sound.length]
    exact sound.offT
  have noWrap : u64 (c.submitted v.mem).op.fileOffset + (c.submitted v.mem).op.size < 2 ^ 64 := by
    rw [u64_of_nonneg inRange.nonneg inRange.offT]
    exact inRange.noWrap
  obtain ⟨st', ran, outcome, -⟩ :=
    ioThread_reads geo serves.good resolved lay (submitted_fresh c v.mem) rfl noWrap polls
  simp only [readReturns, ran, Option.bind_some] at read
  obtain ⟨n', result, same⟩ := Option.map_eq_some_iff.mp read
  cases same
  by_cases rejected : n = -OpError.invalidValue.code
  · rw [rejected]
    exact .rejected
  · have delivers := (outcome.delivers_iff lay eof inRange result rejected).mpr
      (sound.dense.dense _)
    obtain ⟨-, stamp⟩ := (outcome.completed n result).resolve_left rejected
    have count : n = (min c.size (v.file.length - c.fileOffset) : Nat) := by
      rw [← sound.length]
      exact delivers.count
    rw [count]
    refine .bytes _ rfl (fun k low => ?_) fun a outside => ?_
    · have byte := delivers.data k (by omega)
      rw [serves.fileByte sound (by change c.fileOffset + k < _; omega)] at byte
      exact byte
    · refine (stamp a).2 ?_
      -- The stamped addresses are those of the delivered bytes.
      rintro ⟨p, inside, rfl⟩
      have position := Span.inside_subset lay (Span.mem_inside.mpr inside)
      rw [Finset.mem_Ico, inRange.reqStart, inRange.reqEnd, sound.length] at position
      have start : (c.submitted v.mem).op.fileOffset.toNat = c.fileOffset := rfl
      have size : (c.submitted v.mem).op.size = c.size := rfl
      have base : (c.submitted v.mem).op.span.dstBase.addr = c.address := rfl
      refine outside ?_
      simp only [Span.addrOf, inRange.reqStart, base]
      omega

/-- A read completes once its commands have, however the polls fall. -/
theorem read_completes (geo : d.Geometry) (sound : v.Sound d) (indexed : v.Indexed)
    {dev : Device} (serves : Serves v dev) (ranged : c.Ranged) :
    ∃ polls, (readReturns d v c dev polls).isSome = true := by
  have resolved : resolveExtents dev = .ok v.layout := by
    rw [serves.resolved, indexed.extents]
  have inRange := ranged.submitted v.mem
  have noWrap : u64 (c.submitted v.mem).op.fileOffset + (c.submitted v.mem).op.size < 2 ^ 64 := by
    rw [u64_of_nonneg inRange.nonneg inRange.offT]
    exact inRange.noWrap
  obtain ⟨st', -, -, completes⟩ := ioThread_reads geo serves.good resolved sound.dense.layout
    (submitted_fresh c v.mem) rfl noWrap [[]]
  have reaped : ∀ id ∈ st'.inflight, id ∈ [st'.inflight].flatten := by
    intro id member
    rw [List.flatten_singleton]
    exact member
  obtain ⟨last, ran, result⟩ := completes (List.cons_ne_nil _ _) _ reaped
  obtain ⟨n, result⟩ := Option.isSome_iff_exists.mp result
  refine ⟨[[]] ++ [st'.inflight] ++ [[]], ?_⟩
  simp only [readReturns, ran, Option.bind_some, result, Option.map_some, Option.isSome_some]

/-! ## Whole runs -/

/-- **A call keeps file, blocks and index together.** -/
theorem HandleInv.step {o o' : Volume × LastWrites UInt8} (inv : HandleInv d o) {l : HandleStep}
    (orderly : Orderly d o.1 l) (step : (handle d).step o l = some o') : HandleInv d o' := by
  cases l with
  | memory mem =>
      cases step
      exact ⟨⟨inv.sound.dense, inv.sound.length, inv.sound.offT, inv.sound.bytes⟩, inv.indexed,
        inv.known⟩
  | write c wronly garbage answers place => exact inv.write orderly step
  | read c dev polls =>
      obtain ⟨out, returned, rfl⟩ := Option.map_eq_some_iff.mp step
      refine ⟨⟨inv.sound.dense, inv.sound.length, inv.sound.offT, inv.sound.bytes⟩,
        fun extents here => ?_, inv.known⟩
      cases here
      exact inv.indexed.extents

/-- **Every read through a handle gives what was last written.** After any writes and reads,
none of which gives up once it has changed the file, a read completes, and unless it is
rejected for its alignment it has delivered all that the file has of its range: where a byte
was written, the one that was written last. -/
theorem handle_reads_last_written (geo : d.Geometry) {steps : List HandleStep}
    {o₀ o : Volume × LastWrites UInt8} (start : HandleInv d o₀)
    (orderly : (handle d).Meets (fun o l => Orderly d o.1 l) steps o₀)
    (ran : (handle d).run steps o₀ = some o) {dev : Device} (serves : Serves o.1 dev)
    {c : CallArgs} (ranged : c.Ranged) :
    (∃ polls, (readReturns d o.1 c dev polls).isSome = true) ∧
      ∀ polls mem n, readReturns d o.1 c dev polls = some (mem, n) →
        Delivers o.1.file c o.1.mem mem n ∧
          ∀ (k : Nat) (b : UInt8), k < n → o.2 (c.fileOffset + k) = some b →
            mem .user (c.address + k) = b := by
  have inv : HandleInv d o :=
    Machine.run_invariant (fun _ _ _ inv orderly step => HandleInv.step inv orderly step) start
      orderly ran
  refine ⟨read_completes geo inv.sound inv.indexed serves ranged, fun polls mem n read => ?_⟩
  have delivers := read_delivers geo inv.sound inv.indexed serves ranged read
  refine ⟨delivers, fun k b low here => ?_⟩
  cases delivers with
  | rejected =>
      have negative : -OpError.invalidValue.code < 0 := by decide
      omega
  | bytes n count data outside =>
      rw [data k (by omega)]
      exact inv.known.byte here

/-- An empty file, and a memory that counts its addresses. -/
def emptyVolume : Volume where
  file := Common.emptyFile
  disk := sectorDisk
  layout := []
  index := none
  mem _ a := UInt8.ofNat a.toNat

/-- Blocks from LBA 8 on that count their bytes. -/
def countingPlacement : Placement where
  disk lba offset := UInt8.ofNat ((lba - 8) * 512 + offset)
  layout := [⟨0, 8, 600⟩]

/-- The answers to a write of 600 bytes to the empty file. -/
def writeAnswers : List CallAnswer :=
  List.replicate 6 (.kernel (.ok 4096)) ++ [.homic 0]

/-- A write of 600 bytes at the start of the file. -/
def write600 : HandleStep :=
  .write ⟨0, 600, 0, 0⟩ false (fun _ => 0) writeAnswers countingPlacement

theorem emptyVolume_inv : HandleInv sectorDriver (emptyVolume, .nothing) :=
  ⟨⟨⟨trivial, nofun⟩, rfl, by decide, nofun⟩, nofun, .nothing _⟩

theorem counting_byte {p : Nat} (low : p < 600) :
    fileByte sectorDriver (.serving countingPlacement.disk countingPlacement.layout)
      countingPlacement.layout p = UInt8.ofNat p := by
  have inside : (⟨0, 8, 600⟩ : Extent).fileOffset ≤ p ∧ p < (⟨0, 8, 600⟩ : Extent).fileEnd :=
    ⟨Nat.zero_le p, by simpa [Extent.fileEnd] using low⟩
  have found : countingPlacement.layout.find?
      (fun e => e.fileOffset ≤ p ∧ p < e.fileEnd) = some ⟨0, 8, 600⟩ := by
    simp [countingPlacement, Extent.fileEnd, low]
  simp only [fileByte, found]
  change UInt8.ofNat ((8 + (p - 0) / 512 - 8) * 512 + (p - 0) % 512) = _
  congr 1
  omega

theorem write600_orderly : Orderly sectorDriver emptyVolume write600 := by
  have edges : (pwriteAlone ((⟨0, 600, 0, 0⟩ : CallArgs).writeRequest false emptyVolume.mem)).Meets
      ReadsEdgesFully writeAnswers (emptyVolume.file,
        pwriteCall ((⟨0, 600, 0, 0⟩ : CallArgs).writeRequest false emptyVolume.mem)
          fun _ => 0) := by
    refine Machine.meets_of_labels (fun l member s w a _ same n ok _ => ?_) _
    subst same
    simp only [writeAnswers, List.mem_append, List.mem_replicate, List.mem_singleton,
      CallAnswer.kernel.injEq, reduceCtorEq, or_false] at member
    rw [member.2] at ok
    cases ok
    decide
  have computed : (writeReturns emptyVolume ⟨0, 600, 0, 0⟩ false (fun _ => 0) writeAnswers).map
      (fun out => (out.2.1, out.2.2.contains .changed)) = some (600, true) := by
    decide +kernel
  have result : ∀ f ret events,
      writeReturns emptyVolume ⟨0, 600, 0, 0⟩ false (fun _ => 0) writeAnswers =
        some (f, ret, events) → ret = 600 ∧ .changed ∈ events := by
    intro f ret events returned
    rw [returned] at computed
    simpa using computed
  refine ⟨by decide, edges, fun f ret events returned negative => ?_,
    fun f ret events returned => ?_⟩
  · have count := (result f ret events returned).1
    omega
  · obtain ⟨count, changed⟩ := result f ret events returned
    obtain ⟨-, -, file⟩ := (writeReturns_ends (by decide) edges returned).1 (by omega)
    refine ⟨⟨⟨⟨rfl, trivial⟩, nofun⟩, ?_, ?_, fun p low => ?_⟩, fun quiet => absurd changed quiet⟩
    · rw [file]
      rfl
    · rw [file]
      decide
    · rw [file] at low ⊢
      have below : p < 600 := low
      refine (counting_byte below).trans ?_
      rw [ByteFile.pwrite_byte_of_mem _ _ (Nat.zero_le p) (by omega)]
      change UInt8.ofNat p = UInt8.ofNat ((0 : Int) + 0 + ((p - 0 : Nat) : Int)).toNat
      congr 1
      omega

/-- A read over the boundary of two LBAs gives the bytes that were written. -/
theorem handle_reads_last_written_write600 :
    ∃ o mem, (handle sectorDriver).run [write600] (emptyVolume, .nothing) = some o ∧
      readReturns sectorDriver o.1 ⟨4096, 50, 500, 0⟩
        (.serving countingPlacement.disk countingPlacement.layout) [[], [0, 1], []] =
          some (mem, 50) ∧
      mem .user 4096 = UInt8.ofNat 500 := by
  have computed : ((handle sectorDriver).run [write600] (emptyVolume, .nothing)).bind (fun o =>
      (readReturns sectorDriver o.1 ⟨4096, 50, 500, 0⟩
        (.serving countingPlacement.disk countingPlacement.layout) [[], [0, 1], []]).map fun out =>
          (out.2, o.2 500, o.1.index.isSome)) = some (50, some (UInt8.ofNat 500), false) := by
    decide +kernel
  obtain ⟨o, ran, rest⟩ := Option.bind_eq_some_iff.mp computed
  obtain ⟨⟨mem, n⟩, read, facts⟩ := Option.map_eq_some_iff.mp rest
  simp only [Prod.mk.injEq] at facts
  obtain ⟨rfl, known, dirty⟩ := facts
  have index : o.1.index = none := by
    cases index : o.1.index with
    | none => rfl
    | some extents => simp [index] at dirty
  have placed : o.1.disk = countingPlacement.disk ∧ o.1.layout = countingPlacement.layout := by
    obtain ⟨mid, step, last⟩ := Option.bind_eq_some_iff.mp ran
    cases last
    simp only [handle, write600] at step
    obtain ⟨out, -, rfl⟩ := Option.map_eq_some_iff.mp step
    exact ⟨rfl, rfl⟩
  have serves : Serves o.1 (.serving countingPlacement.disk countingPlacement.layout) := by
    refine ⟨placed.1.symm, ?_, Device.serving_good _ _⟩
    rw [Device.serving_resolved, Volume.extents, index, placed.2]
    rfl
  have orderly : (handle sectorDriver).Meets (fun o l => Orderly sectorDriver o.1 l) [write600]
      (emptyVolume, .nothing) :=
    ⟨write600_orderly, fun _ _ => trivial⟩
  have ranged : (⟨4096, 50, 500, 0⟩ : CallArgs).Ranged := ⟨by decide, by decide⟩
  obtain ⟨-, reads⟩ := handle_reads_last_written sectorDriver_geometry emptyVolume_inv orderly ran
    serves ranged
  exact ⟨o, mem, ran, read, (reads _ mem 50 read).2 0 _ (by decide) known⟩

end OpenDS.Aisio
