import OpenDS.Library.Loop
import OpenDS.Library.ResourceLog
import OpenDS.Library.SlotTable
import OpenDS.Ref.AsyncSubmit

/-!
# The statics of the reference backend

`opends_ref.c` keeps whether the driver is open, how many handles there are and up to 64
registered buffers, in an array whose last entry fills the place of one that leaves.

To its callers the array is a set with a capacity. Every sequence of calls gets the answers
that the set gives (`registry_refines`), and while a caller frees only what it has, a
registered buffer stays allocated and the use count is the number of the handles
(`registry_sound`).
-/

set_option autoImplicit false

namespace OpenDS.Ref

open OpenDS.Library

/-- `REF_MAX_BUFS`. -/
def refMaxBufs : Nat := 64

/-- `O_DIRECT`. -/
def oDirect : Nat := 0x4000

/-- `O_ACCMODE`. -/
def oAccmode : Nat := 3

/-- `O_WRONLY`. -/
def oWronly : Nat := 1

/-- The members of `opends_op_error_t` that `opends_ref.c` reports. -/
inductive RefError where
  | driverNotInitialized
  | dioNotSet
  | invalidValue
  | memoryAlreadyRegistered
  | memoryNotRegistered
  | driverAlreadyOpen
  | internalError
  deriving DecidableEq, Repr

/-- The statics of `opends_ref.c`, and what it has taken from the allocator: its handles and
the buffers of `opends_alloc`. -/
structure Statics where
  driverOpen : Bool
  useCount : Int
  refRegistered : Nat → Nat
  refRegisteredCount : Nat
  handles : List (Usage Nat)
  buffers : List (Usage Nat)

/-- The statics of a process that has made no call. -/
def Statics.initial : Statics := ⟨false, 0, fun _ => 0, 0, [], []⟩

section Calls

variable (s : Statics)

/-- `opends_driver_open`. -/
def opendsDriverOpen : Statics × Except RefError Unit :=
  if s.driverOpen = true then (s, .error .driverAlreadyOpen)
  else ({ s with driverOpen := true }, .ok ())

/-- `opends_driver_close`. -/
def opendsDriverClose : Statics × Except RefError Unit :=
  if s.driverOpen = false then (s, .error .driverNotInitialized)
  else ({ s with refRegisteredCount := 0, driverOpen := false }, .ok ())

/-- `opends_use_count`. -/
def opendsUseCount : Int := s.useCount

/-- `opends_handle_register` for a descriptor, with the answers of `fcntl`, `none` for an
error, and of `malloc`. -/
def opendsHandleRegister (fh : Bool) (fd : Int) (oflags : Option Nat) (h : Nat) :
    Statics × Except RefError RefHandle :=
  if fh = false ∨ fd < 0 then (s, .error .invalidValue)
  else
    match oflags with
    | none => (s, .error .invalidValue)
    | some oflags =>
      if oflags &&& oDirect = 0 then (s, .error .dioNotSet)
      else if h = 0 then (s, .error .internalError)
      else
        ({ s with useCount := s.useCount + 1, handles := .acquire h :: s.handles },
          .ok ⟨oflags &&& oAccmode == oWronly⟩)

/-- `opends_handle_deregister`. -/
def opendsHandleDeregister (h : Nat) : Statics :=
  if h = 0 then s else { s with useCount := s.useCount - 1, handles := .release h :: s.handles }

/-- `opends_alloc`, with the answer of `aligned_alloc`. -/
def opendsAlloc (answer : Nat) : Statics × Nat :=
  (if answer = 0 then s else { s with buffers := .acquire answer :: s.buffers }, answer)

/-- The search of the array for a base. -/
def Statics.find (base : Nat) : Option Nat :=
  firstReturn (fun i => if s.refRegistered i = base then some i else none) s.refRegisteredCount 0

/-- `opends_free`. -/
def opendsFree (buf : Nat) : Statics :=
  if buf = 0 then s
  else
    match s.find buf with
    | some _ => s
    | none => { s with buffers := .release buf :: s.buffers }

/-- `opends_buf_register`. -/
def opendsBufRegister (bufBase size : Nat) : Statics × Except RefError Unit :=
  if s.driverOpen = false then (s, .error .driverNotInitialized)
  else if bufBase = 0 ∨ size = 0 then (s, .error .invalidValue)
  else
    match s.find bufBase with
    | some _ => (s, .error .memoryAlreadyRegistered)
    | none =>
      if refMaxBufs ≤ s.refRegisteredCount then (s, .error .internalError)
      else
        ({ s with
          refRegistered := Function.update s.refRegistered s.refRegisteredCount bufBase
          refRegisteredCount := s.refRegisteredCount + 1 }, .ok ())

/-- `opends_buf_deregister`. -/
def opendsBufDeregister (bufBase : Nat) : Statics × Except RefError Unit :=
  if s.driverOpen = false then (s, .error .driverNotInitialized)
  else if bufBase = 0 then (s, .error .invalidValue)
  else
    match s.find bufBase with
    | some i =>
      ({ s with
        refRegistered := Function.update s.refRegistered i
          (s.refRegistered (s.refRegisteredCount - 1))
        refRegisteredCount := s.refRegisteredCount - 1 }, .ok ())
    | none => (s, .error .memoryNotRegistered)

end Calls

/-! ## The calls -/

/-- The calls that the array answers. -/
inductive BufCall where
  | driverOpen
  | driverClose
  | bufRegister (bufBase size : Nat)
  | bufDeregister (bufBase : Nat)
  deriving DecidableEq, Repr

/-- One call that the array answers. -/
def BufCall.perform (s : Statics) : BufCall → Statics × Except RefError Unit
  | .driverOpen => opendsDriverOpen s
  | .driverClose => opendsDriverClose s
  | .bufRegister bufBase size => opendsBufRegister s bufBase size
  | .bufDeregister bufBase => opendsBufDeregister s bufBase

/-- The calls on the statics, with what the kernel and the allocator answer. -/
inductive RefCall where
  | buf (c : BufCall)
  | handleRegister (fh : Bool) (fd : Int) (oflags : Option Nat) (h : Nat)
  | handleDeregister (h : Nat)
  | alloc (answer : Nat)
  | free (buf : Nat)
  deriving DecidableEq, Repr

/-- What one call does to the statics. -/
def RefCall.perform (s : Statics) : RefCall → Statics
  | .buf c => (c.perform s).1
  | .handleRegister fh fd oflags h => (opendsHandleRegister s fh fd oflags h).1
  | .handleDeregister h => opendsHandleDeregister s h
  | .alloc answer => (opendsAlloc s answer).1
  | .free p => opendsFree s p

/-- Calls, one after the other. -/
def registry : Machine Statics RefCall where
  step s c := some (c.perform s)

/-! ## The set of the registered buffers -/

/-- What the array is for: a set of at most 64 bases, while the driver is open. -/
structure BaseSet where
  opened : Bool
  bases : Finset Nat

namespace BaseSet

/-- The set of a process that has made no call. -/
def initial : BaseSet := ⟨false, ∅⟩

/-- The answer of the set to a call, and what the call makes of it. -/
def perform (b : BaseSet) : BufCall → BaseSet × Except RefError Unit
  | .driverOpen =>
    if b.opened = true then (b, .error .driverAlreadyOpen) else (⟨true, b.bases⟩, .ok ())
  | .driverClose =>
    if b.opened = false then (b, .error .driverNotInitialized) else (⟨false, ∅⟩, .ok ())
  | .bufRegister bufBase size =>
    if b.opened = false then (b, .error .driverNotInitialized)
    else if bufBase = 0 ∨ size = 0 then (b, .error .invalidValue)
    else if bufBase ∈ b.bases then (b, .error .memoryAlreadyRegistered)
    else if refMaxBufs ≤ b.bases.card then (b, .error .internalError)
    else (⟨b.opened, insert bufBase b.bases⟩, .ok ())
  | .bufDeregister bufBase =>
    if b.opened = false then (b, .error .driverNotInitialized)
    else if bufBase = 0 then (b, .error .invalidValue)
    else if bufBase ∈ b.bases then (⟨b.opened, b.bases.erase bufBase⟩, .ok ())
    else (b, .error .memoryNotRegistered)

/-- What a call on the statics makes of the set. -/
def after (b : BaseSet) : RefCall → BaseSet
  | .buf c => (b.perform c).1
  | _ => b

end BaseSet

/-! ## The array holds the set -/

/-- Every entry of the array holds something. -/
def isBase (_ : Nat) : Bool := true

/-- The bases in the array. -/
def Statics.bases (s : Statics) : Multiset Nat := held isBase s.refRegistered s.refRegisteredCount

/-- The array has the bases of the set, each once, and within its bounds. -/
structure Represents (s : Statics) (b : BaseSet) : Prop where
  opened : s.driverOpen = b.opened
  bases : s.bases = b.bases.val
  count_le : s.refRegisteredCount ≤ refMaxBufs

variable {s s' : Statics} {b : BaseSet}

theorem Statics.mem_bases {p : Nat} :
    p ∈ s.bases ↔ ∃ i, i < s.refRegisteredCount ∧ s.refRegistered i = p := by
  simp [Statics.bases, mem_held, isBase]

theorem Statics.card_bases (s : Statics) : s.bases.card = s.refRegisteredCount :=
  card_held_of_full isBase s.refRegistered fun _ _ => rfl

theorem Statics.find_eq_some {base i : Nat} (found : s.find base = some i) :
    i < s.refRegisteredCount ∧ s.refRegistered i = base := by
  obtain ⟨r, -, lt, here, -⟩ := firstReturn_eq_some_iff.mp found
  split at here
  · rename_i same
    cases here
    exact ⟨by omega, same⟩
  · cases here

theorem Statics.find_eq_none {base : Nat} (missing : s.find base = none) : base ∉ s.bases := by
  intro member
  obtain ⟨i, lt, same⟩ := Statics.mem_bases.mp member
  have skipped := firstReturn_eq_none_iff.mp missing i (Nat.zero_le i) (by omega)
  rw [if_pos same] at skipped
  cases skipped

theorem Represents.mem_iff (represents : Represents s b) {p : Nat} : p ∈ s.bases ↔ p ∈ b.bases := by
  rw [represents.bases, Finset.mem_val]

/-- The search of the array is the question of the set. -/
theorem Represents.find (represents : Represents s b) (base : Nat) :
    (∃ i, s.find base = some i ∧ base ∈ b.bases) ∨ (s.find base = none ∧ base ∉ b.bases) := by
  cases found : s.find base with
  | some i =>
      obtain ⟨lt, same⟩ := Statics.find_eq_some found
      exact .inl ⟨i, rfl, represents.mem_iff.mp (Statics.mem_bases.mpr ⟨i, lt, same⟩)⟩
  | none =>
      exact .inr ⟨rfl, fun member => Statics.find_eq_none found (represents.mem_iff.mpr member)⟩

theorem Represents.card (represents : Represents s b) : b.bases.card = s.refRegisteredCount := by
  rw [← s.card_bases, represents.bases]
  rfl

/-- The array with a base behind the last one. -/
theorem bases_push (s : Statics) (base : Nat) :
    held isBase (Function.update s.refRegistered s.refRegisteredCount base)
      (s.refRegisteredCount + 1) = base ::ₘ s.bases := by
  rw [held_succ, Function.update_self, held_update_of_le _ _ (Nat.le_refl _)]
  exact Multiset.singleton_add ..

/-- The array with its last base in the place of another one. -/
theorem bases_remove {i : Nat} (lt : i < s.refRegisteredCount) :
    s.bases = s.refRegistered i ::ₘ
      held isBase (Function.update s.refRegistered i (s.refRegistered (s.refRegisteredCount - 1)))
        (s.refRegisteredCount - 1) := by
  rw [Statics.bases, held_replace_last _ _ lt]
  exact Multiset.singleton_add ..

theorem Represents.initial : Represents .initial .initial :=
  ⟨rfl, held_zero .., Nat.zero_le _⟩

theorem Represents.driverOpen (represents : Represents s b) :
    Represents (opendsDriverOpen s).1 (b.perform .driverOpen).1 ∧
      (opendsDriverOpen s).2 = (b.perform .driverOpen).2 := by
  simp only [opendsDriverOpen, BaseSet.perform, represents.opened]
  split
  · exact ⟨represents, rfl⟩
  · exact ⟨⟨rfl, represents.bases, represents.count_le⟩, rfl⟩

theorem Represents.driverClose (represents : Represents s b) :
    Represents (opendsDriverClose s).1 (b.perform .driverClose).1 ∧
      (opendsDriverClose s).2 = (b.perform .driverClose).2 := by
  simp only [opendsDriverClose, BaseSet.perform, represents.opened]
  split
  · exact ⟨represents, rfl⟩
  · exact ⟨⟨rfl, held_zero .., Nat.zero_le _⟩, rfl⟩

theorem Represents.bufRegister (represents : Represents s b) (bufBase size : Nat) :
    Represents (opendsBufRegister s bufBase size).1 (b.perform (.bufRegister bufBase size)).1 ∧
      (opendsBufRegister s bufBase size).2 = (b.perform (.bufRegister bufBase size)).2 := by
  simp only [opendsBufRegister, BaseSet.perform, represents.opened, represents.card]
  split
  · exact ⟨represents, rfl⟩
  split
  · exact ⟨represents, rfl⟩
  rcases represents.find bufBase with ⟨i, found, member⟩ | ⟨missing, new⟩
  · simp only [found, if_pos member]
    exact ⟨represents, trivial⟩
  · simp only [missing, if_neg new]
    split
    · exact ⟨represents, rfl⟩
    · rename_i room
      refine ⟨⟨rfl, ?_, by simp only; omega⟩, rfl⟩
      rw [Finset.insert_val_of_notMem new, ← represents.bases]
      exact bases_push s bufBase

theorem Represents.bufDeregister (represents : Represents s b) (bufBase : Nat) :
    Represents (opendsBufDeregister s bufBase).1 (b.perform (.bufDeregister bufBase)).1 ∧
      (opendsBufDeregister s bufBase).2 = (b.perform (.bufDeregister bufBase)).2 := by
  simp only [opendsBufDeregister, BaseSet.perform, represents.opened]
  split
  · exact ⟨represents, rfl⟩
  split
  · exact ⟨represents, rfl⟩
  rcases represents.find bufBase with ⟨i, found, member⟩ | ⟨missing, new⟩
  · simp only [found, if_pos member]
    obtain ⟨lt, same⟩ := Statics.find_eq_some found
    have left := bases_remove lt
    have count := represents.count_le
    refine ⟨⟨rfl, ?_, by simp only; omega⟩, trivial⟩
    rw [represents.bases, same] at left
    rw [Finset.erase_val, left, Multiset.erase_cons_head]
    rfl
  · simp only [missing, if_neg new]
    exact ⟨represents, trivial⟩

/-- **The array answers a call as the set does**, and has the set that the call makes. -/
theorem Represents.perform (represents : Represents s b) (c : BufCall) :
    Represents (c.perform s).1 (b.perform c).1 ∧ (c.perform s).2 = (b.perform c).2 := by
  cases c with
  | driverOpen => exact represents.driverOpen
  | driverClose => exact represents.driverClose
  | bufRegister bufBase size => exact represents.bufRegister bufBase size
  | bufDeregister bufBase => exact represents.bufDeregister bufBase

/-! ## Every sequence of calls -/

/-- A call that the array does not answer leaves the set as it is. -/
theorem Represents.of_same (represents : Represents s b) (opened : s'.driverOpen = s.driverOpen)
    (array : s'.refRegistered = s.refRegistered)
    (count : s'.refRegisteredCount = s.refRegisteredCount) : Represents s' b := by
  refine ⟨opened.trans represents.opened, ?_, ?_⟩
  · rw [Statics.bases, array, count]
    exact represents.bases
  · rw [count]
    exact represents.count_le

theorem Represents.after (represents : Represents s b) (c : RefCall) :
    Represents (c.perform s) (b.after c) := by
  cases c with
  | buf c => exact (represents.perform c).1
  | handleRegister fh fd oflags h =>
      change Represents (opendsHandleRegister s fh fd oflags h).1 b
      unfold opendsHandleRegister
      split
      · exact represents
      cases oflags with
      | none => exact represents
      | some flags =>
          dsimp only
          split
          · exact represents
          split
          · exact represents
          · exact represents.of_same rfl rfl rfl
  | handleDeregister h =>
      change Represents (opendsHandleDeregister s h) b
      unfold opendsHandleDeregister
      split
      · exact represents
      · exact represents.of_same rfl rfl rfl
  | alloc answer =>
      change Represents (if answer = 0 then s else _) b
      split
      · exact represents
      · exact represents.of_same rfl rfl rfl
  | free p =>
      change Represents (opendsFree s p) b
      unfold opendsFree
      split
      · exact represents
      cases s.find p with
      | some i => exact represents
      | none => exact represents.of_same rfl rfl rfl

theorem Represents.run (represents : Represents s b) {calls : List RefCall}
    (ran : registry.run calls s = some s') : Represents s' (calls.foldl BaseSet.after b) := by
  induction calls generalizing s b with
  | nil =>
      cases ran
      exact represents
  | cons c rest ih => exact ih (represents.after c) ran

/-- **The registered buffers are a set with a capacity.** After every sequence of calls the
array has the bases of the set that the same calls make, and answers the next call as that
set does. -/
theorem registry_refines {calls : List RefCall} {s : Statics}
    (ran : registry.run calls .initial = some s) :
    Represents s (calls.foldl BaseSet.after .initial) ∧
      ∀ c : BufCall, (c.perform s).2 = ((calls.foldl BaseSet.after .initial).perform c).2 := by
  have represents := Represents.initial.run ran
  exact ⟨represents, fun c => (represents.perform c).2⟩

/-- Two buffers are registered. The second one takes the place of the first, which can be
registered again. -/
def swappedBuffers : List RefCall :=
  [.buf .driverOpen, .buf (.bufRegister 64 16), .buf (.bufRegister 128 16),
    .buf (.bufDeregister 64)]

theorem registry_refines_swappedBuffers :
    ∃ s, registry.run swappedBuffers .initial = some s ∧
      ((BufCall.bufRegister 64 16).perform s).2 = .ok () ∧
      ((BufCall.bufRegister 128 16).perform s).2 = .error .memoryAlreadyRegistered := by
  obtain ⟨s, ran⟩ : ∃ s, registry.run swappedBuffers .initial = some s := ⟨_, rfl⟩
  have answers := (registry_refines ran).2
  exact ⟨s, ran, (answers _).trans rfl, (answers _).trans rfl⟩

/-! ## What the backend holds -/

/-- The call is one that may be made: its caller has what it frees and registers, and the
allocator answers with what nobody has. -/
def Permitted (s : Statics) : RefCall → Prop
  | .buf (.bufRegister base _) =>
    .acquire base ∈ s.buffers → base ∈ Usage.outstanding s.buffers
  | .buf _ => True
  | .handleRegister _ _ _ h => h ∉ Usage.outstanding s.handles
  | .handleDeregister h => h = 0 ∨ h ∈ Usage.outstanding s.handles
  | .alloc answer => answer ∉ Usage.outstanding s.buffers ∧ answer ∉ s.bases
  | .free p => p = 0 ∨ p ∈ Usage.outstanding s.buffers

/-- The use count is the number of handles, what is freed was allocated and not yet freed,
and a registered buffer of the backend is still allocated. -/
structure Sound (s : Statics) : Prop where
  useCount : s.useCount = (Usage.outstanding s.handles).card
  handles : Usage.Disciplined s.handles
  buffers : Usage.Disciplined s.buffers
  backed : ∀ p ∈ s.bases, .acquire p ∈ s.buffers → p ∈ Usage.outstanding s.buffers

/-- A call that the array answers concerns nothing else. -/
theorem BufCall.perform_frame (s : Statics) (c : BufCall) :
    (c.perform s).1.useCount = s.useCount ∧ (c.perform s).1.handles = s.handles ∧
      (c.perform s).1.buffers = s.buffers := by
  cases c with
  | driverOpen =>
      simp only [BufCall.perform, opendsDriverOpen]
      split <;> exact ⟨rfl, rfl, rfl⟩
  | driverClose =>
      simp only [BufCall.perform, opendsDriverClose]
      split <;> exact ⟨rfl, rfl, rfl⟩
  | bufRegister bufBase size =>
      simp only [BufCall.perform, opendsBufRegister]
      split
      · exact ⟨rfl, rfl, rfl⟩
      split
      · exact ⟨rfl, rfl, rfl⟩
      cases s.find bufBase with
      | some i => exact ⟨rfl, rfl, rfl⟩
      | none =>
          dsimp only
          split <;> exact ⟨rfl, rfl, rfl⟩
  | bufDeregister bufBase =>
      simp only [BufCall.perform, opendsBufDeregister]
      split
      · exact ⟨rfl, rfl, rfl⟩
      split
      · exact ⟨rfl, rfl, rfl⟩
      cases s.find bufBase with
      | some i => exact ⟨rfl, rfl, rfl⟩
      | none => exact ⟨rfl, rfl, rfl⟩

/-- The only call that puts a base into the set is its registration. -/
theorem BaseSet.mem_perform {c : BufCall} {p : Nat} (member : p ∈ (b.perform c).1.bases) :
    p ∈ b.bases ∨ ∃ size, c = .bufRegister p size := by
  cases c with
  | driverOpen =>
      simp only [BaseSet.perform] at member
      split at member <;> exact .inl member
  | driverClose =>
      simp only [BaseSet.perform] at member
      split at member
      · exact .inl member
      · exact absurd member (Finset.notMem_empty p)
  | bufRegister bufBase size =>
      simp only [BaseSet.perform] at member
      split_ifs at member
      · exact .inl member
      · exact .inl member
      · exact .inl member
      · exact .inl member
      · rcases Finset.mem_insert.mp member with rfl | old
        · exact .inr ⟨size, rfl⟩
        · exact .inl old
  | bufDeregister bufBase =>
      simp only [BaseSet.perform] at member
      split_ifs at member
      · exact .inl member
      · exact .inl member
      · exact .inl (Finset.mem_of_mem_erase member)
      · exact .inl member

theorem Sound.initial : Sound .initial :=
  ⟨rfl, trivial, trivial, fun _ _ acquired => absurd acquired List.not_mem_nil⟩

theorem Sound.buf (represents : Represents s b) (sound : Sound s) {c : BufCall}
    (permitted : Permitted s (.buf c)) : Sound (c.perform s).1 := by
  obtain ⟨useCount, handles, buffers⟩ := c.perform_frame s
  refine ⟨?_, ?_, ?_, fun p member acquired => ?_⟩
  · rw [useCount, handles]
    exact sound.useCount
  · rw [handles]
    exact sound.handles
  · rw [buffers]
    exact sound.buffers
  · rw [buffers] at acquired ⊢
    have listed := (represents.perform c).1.mem_iff.mp member
    rcases BaseSet.mem_perform listed with old | ⟨size, rfl⟩
    · exact sound.backed p (represents.mem_iff.mpr old) acquired
    · exact permitted acquired

theorem Sound.handleRegister (sound : Sound s) (fh : Bool) (fd : Int) (oflags : Option Nat)
    {h : Nat} (new : h ∉ Usage.outstanding s.handles) :
    Sound (opendsHandleRegister s fh fd oflags h).1 := by
  unfold opendsHandleRegister
  split
  · exact sound
  cases oflags with
  | none => exact sound
  | some flags =>
      dsimp only
      split
      · exact sound
      split
      · exact sound
      · refine ⟨?_, ⟨new, sound.handles⟩, sound.buffers, sound.backed⟩
        rw [Usage.outstanding_acquire, Finset.card_insert_of_notMem new]
        simp [sound.useCount]

theorem Sound.handleDeregister (sound : Sound s) {h : Nat}
    (live : h = 0 ∨ h ∈ Usage.outstanding s.handles) : Sound (opendsHandleDeregister s h) := by
  unfold opendsHandleDeregister
  split
  · exact sound
  · rename_i nonnull
    have member := live.resolve_left nonnull
    have some := Finset.card_pos.mpr ⟨h, member⟩
    refine ⟨?_, ⟨member, sound.handles⟩, sound.buffers, sound.backed⟩
    rw [Usage.outstanding_release, Finset.card_erase_of_mem member]
    simp only [sound.useCount]
    omega

theorem Sound.alloc (sound : Sound s) {answer : Nat}
    (new : answer ∉ Usage.outstanding s.buffers) (unused : answer ∉ s.bases) :
    Sound (opendsAlloc s answer).1 := by
  unfold opendsAlloc
  dsimp only
  split
  · exact sound
  · refine ⟨sound.useCount, sound.handles, ⟨new, sound.buffers⟩, fun p member acquired => ?_⟩
    have other : p ≠ answer := by
      rintro rfl
      exact unused member
    have before : .acquire p ∈ s.buffers := by
      refine (List.mem_cons.mp acquired).resolve_left fun same => other ?_
      cases same
      rfl
    exact Finset.mem_insert_of_mem (sound.backed p member before)

/-- What is freed is not registered. -/
theorem Sound.free (sound : Sound s) {p : Nat} (live : p = 0 ∨ p ∈ Usage.outstanding s.buffers) :
    Sound (opendsFree s p) := by
  unfold opendsFree
  split
  · exact sound
  rename_i nonnull
  cases found : s.find p with
  | some i => exact sound
  | none =>
      have absent := Statics.find_eq_none found
      refine ⟨sound.useCount, sound.handles, ⟨live.resolve_left nonnull, sound.buffers⟩,
        fun q member acquired => ?_⟩
      have other : q ≠ p := by
        rintro rfl
        exact absent member
      have before : .acquire q ∈ s.buffers :=
        (List.mem_cons.mp acquired).resolve_left nofun
      exact Finset.mem_erase_of_ne_of_mem other (sound.backed q member before)

theorem Sound.perform (represents : Represents s b) (sound : Sound s) {c : RefCall}
    (permitted : Permitted s c) : Sound (c.perform s) := by
  cases c with
  | buf c => exact sound.buf represents permitted
  | handleRegister fh fd oflags h => exact sound.handleRegister fh fd oflags permitted
  | handleDeregister h => exact sound.handleDeregister permitted
  | alloc answer => exact sound.alloc permitted.1 permitted.2
  | free p => exact sound.free permitted

/-- **A registered buffer stays allocated.** After every sequence of calls that may be made
the use count is the number of live handles, what the backend has freed was allocated and is
freed once, and a buffer of the backend that is registered has not been freed. -/
theorem registry_sound {calls : List RefCall} {s : Statics}
    (permitted : registry.Meets Permitted calls .initial)
    (ran : registry.run calls .initial = some s) : Sound s := by
  have keeps : ∀ s c s', (Sound s ∧ ∃ b, Represents s b) → Permitted s c →
      registry.step s c = some s' → Sound s' ∧ ∃ b, Represents s' b := by
    rintro s c s' ⟨sound, b, represents⟩ may step
    cases step
    exact ⟨sound.perform represents may, _, represents.after c⟩
  exact (Machine.run_invariant keeps ⟨.initial, _, .initial⟩ permitted ran).1

instance (s : Statics) : (c : RefCall) → Decidable (Permitted s c)
  | .buf (.bufRegister base _) =>
    inferInstanceAs (Decidable (.acquire base ∈ s.buffers → base ∈ Usage.outstanding s.buffers))
  | .buf .driverOpen => .isTrue trivial
  | .buf .driverClose => .isTrue trivial
  | .buf (.bufDeregister _) => .isTrue trivial
  | .handleRegister _ _ _ h => inferInstanceAs (Decidable (h ∉ Usage.outstanding s.handles))
  | .handleDeregister h => inferInstanceAs (Decidable (h = 0 ∨ h ∈ Usage.outstanding s.handles))
  | .alloc answer =>
    inferInstanceAs (Decidable (answer ∉ Usage.outstanding s.buffers ∧ answer ∉ s.bases))
  | .free p => inferInstanceAs (Decidable (p = 0 ∨ p ∈ Usage.outstanding s.buffers))

/-- A buffer that is registered when its owner frees it. -/
def heldBuffer : List RefCall :=
  [.buf .driverOpen, .handleRegister true 3 (some 0x4001) 64, .alloc 4096,
    .buf (.bufRegister 4096 16), .free 4096]

theorem registry_sound_heldBuffer :
    ∃ s, registry.run heldBuffer .initial = some s ∧ s.useCount = 1 ∧
      4096 ∈ Usage.outstanding s.buffers := by
  obtain ⟨s, ran⟩ : ∃ s, registry.run heldBuffer .initial = some s := ⟨_, rfl⟩
  have passes : registry.check (fun s c => decide (Permitted s c)) heldBuffer .initial = true := by
    decide
  have sound := registry_sound
    (Machine.meets_of_check (fun _ _ passed => of_decide_eq_true passed) passes) ran
  have registered : 4096 ∈ s.bases ∧ .acquire 4096 ∈ s.buffers ∧
      Usage.outstanding s.handles = {64} := by
    cases ran
    decide
  obtain ⟨member, acquired, handles⟩ := registered
  refine ⟨s, ran, ?_, sound.backed 4096 member acquired⟩
  rw [sound.useCount, handles]
  rfl

end OpenDS.Ref
