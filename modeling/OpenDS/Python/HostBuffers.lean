import OpenDS.Python.HostProcess

/-!
# Host buffers

A `HostBuffer` of `opends._file` takes its memory from `opends_alloc` and gives it back
with `opends_free`. It holds no reference to the driver, and `opends_driver_close` frees
every buffer that the driver owns.

So a file that is closed takes the memory of a `HostBuffer` away, and in a later lifecycle of
the driver the same address may belong to another one (`hostBuffer_outlives_memory`). As long
as no call gives the last reference back over a `HostBuffer`, each keeps its memory until its
own `free`, which releases no other (`hostBuffers_keep_memory`).
-/

set_option autoImplicit false

namespace OpenDS.Python

open OpenDS.Library OpenDS.Driver

/-! ## What is asked of a step -/

/-- The call is the `free` of the `HostBuffer`, explicit or by `__del__`. -/
def HostCall.Frees (h : Nat) (c : HostCall) : Prop := c = .free h ∨ c = .del h

/-- A new allocation is not allocated yet. -/
def FreshAlloc (p : HostProcess) (a : Answers × HostCall) : Prop :=
  ∀ size answer, a.2 = .alloc size answer → answer ∉ p.allocated

/-- The last reference is given back when no `HostBuffer` has memory, or in the `free` of
one whose memory is the only one allocated. -/
structure KeepsDriver (p : HostProcess) (a : Answers × HostCall) : Prop where
  call : ∀ c, a.2 = .call c → p.module.Closes c → ∀ b ∈ p.hostBuffers, b.ptr = 0
  free : ∀ h b, a.2.Frees h → p.hostBuffers[h]? = some b → b.ptr ≠ 0 →
    b.ptr ∈ p.module.pinned → p.module.driverRefs = 1 → ∀ q ∈ p.allocated, q = b.ptr

/-- Every `HostBuffer` that has not been freed has its memory. -/
def Intact (p : HostProcess) : Prop := ∀ b ∈ p.hostBuffers, b.ptr ≠ 0 → b.ptr ∈ p.allocated

/-- What a step may do to the `HostBuffer`s: only the `free` of one changes it and releases
its memory, and it releases no other. -/
structure Spares (p : HostProcess) (c : HostCall) (p' : HostProcess) : Prop where
  kept : ∀ h b, p.hostBuffers[h]? = some b → b.ptr ≠ 0 → ¬ c.Frees h →
    p'.hostBuffers[h]? = some b ∧
      ¬ Usage.Released p.native.xnvme.buffers p'.native.xnvme.buffers b.ptr
  own : ∀ h q, c.Frees h → Usage.Released p.native.xnvme.buffers p'.native.xnvme.buffers q →
    ∃ b, p.hostBuffers[h]? = some b ∧ q = b.ptr

variable {p p' : HostProcess}

/-! ## Memory that is kept -/

/-- Every `HostBuffer` that has not been freed has memory of its own. -/
structure Owning (p : HostProcess) : Prop where
  idle : Idle p
  intact : Intact p
  apart : ∀ (h h' : Nat) (b b' : HostBuffer), p.hostBuffers[h]? = some b → p.hostBuffers[h']? = some b' → h ≠ h' →
    b.ptr ≠ 0 → b.ptr ≠ b'.ptr

/-- Memory that is not released stays allocated. -/
theorem allocated_of_not_released (idle : Idle p) (idle' : Idle p') {q : Nat}
    (acquires : p'.native.xnvme.buffers.count (.acquire q) =
      p.native.xnvme.buffers.count (.acquire q))
    (held : q ∈ p.allocated)
    (kept : ¬ Usage.Released p.native.xnvme.buffers p'.native.xnvme.buffers q) :
    q ∈ p'.allocated := by
  by_contra gone
  exact kept ((Usage.released_iff (idle.agrees.records true).disciplined
    (idle'.agrees.records true).disciplined acquires).mpr ⟨held, gone⟩)

/-- A call of the module spares the `HostBuffer`s. -/
theorem call_spares {c : Call} (owning : Owning p) (ran : CallRan p p' c)
    (keeps : p.module.Closes c → ∀ b ∈ p.hostBuffers, b.ptr = 0) :
    Owning p' ∧ Spares p (.call c) p' := by
  have kept : ∀ b ∈ p.hostBuffers, b.ptr ≠ 0 →
      ¬ Usage.Released p.native.xnvme.buffers p'.native.xnvme.buffers b.ptr := by
    intro b member live
    by_cases closes : p.module.Closes c
    · exact absurd (keeps closes b member) live
    · exact ran.kept closes b.ptr
  have same := ran.hostBuffers
  refine ⟨⟨ran.idle, fun b member live => ?_, ?_⟩, fun h b at_h live _ => ?_, fun h q frees => ?_⟩
  · rw [same] at member
    exact allocated_of_not_released owning.idle ran.idle (ran.acquires b.ptr)
      (owning.intact b member live) (kept b member live)
  · rw [same]
    exact owning.apart
  · exact ⟨by rw [same, at_h], kept b (List.mem_of_getElem? at_h) live⟩
  · rcases frees with frees | frees <;> cases frees

/-- The process after a successful `HostBuffer.__init__`. -/
def HostProcess.withBuffer (p : HostProcess) (d : BufTable) (answer : Nat) (size : Int) : HostProcess :=
  { p with
    native := ⟨some (d.push ⟨answer, u64 size, true⟩),
      p.native.xnvme.enter ⟨answer, u64 size, true⟩⟩
    hostBuffers := p.hostBuffers ++ [⟨answer, size⟩] }

/-- `HostBuffer.__init__` raises and changes nothing, or makes a `HostBuffer`. -/
theorem hostBufferInit_cases (p : HostProcess) (size : Int) (answer : Nat) :
    (hostBufferInit p size answer).1 = p ∨
      ∃ d, p.native.drv = some d ∧ d.bufCount < maxBufEntries ∧ answer ≠ 0 ∧
        (hostBufferInit p size answer).1 = p.withBuffer d answer size := by
  rcases opendsAlloc_cases p.native (u64 size) answer with fails | ⟨d, opened, room, nonnull, gives⟩
  · exact .inl (by simp [hostBufferInit, fails])
  · exact .inr ⟨d, opened, room, nonnull, by simp [hostBufferInit, gives, nonnull, HostProcess.withBuffer]⟩

theorem allocated_withBuffer (p : HostProcess) (d : BufTable) (answer : Nat) (size : Int) :
    (p.withBuffer d answer size).allocated = insert answer p.allocated := rfl

theorem not_released_withBuffer (p : HostProcess) (d : BufTable) (answer : Nat) (size : Int) (q : Nat) :
    ¬ Usage.Released p.native.xnvme.buffers
      (p.withBuffer d answer size).native.xnvme.buffers q := by
  simp [Usage.Released, HostProcess.withBuffer, Xnvme.enter, Xnvme.bufAlloc]

/-- The memory of a new `HostBuffer` belongs to no other. -/
theorem Owning.withBuffer (owning : Owning p) {d : BufTable} (opened : p.native.drv = some d)
    (room : d.bufCount < maxBufEntries) (size : Int) {answer : Nat} (nonnull : answer ≠ 0)
    (fresh : answer ∉ p.allocated) : Owning (p.withBuffer d answer size) := by
  have old : ∀ b ∈ p.hostBuffers, b.ptr ≠ answer := by
    intro b member same
    exact fresh (same ▸ owning.intact b member (same ▸ nonnull))
  have cases_at : ∀ (h : Nat) (b : HostBuffer),
      (p.withBuffer d answer size).hostBuffers[h]? = some b →
      p.hostBuffers[h]? = some b ∨ h = p.hostBuffers.length ∧ b = ⟨answer, size⟩ := by
    intro h b at_h
    change (p.hostBuffers ++ [⟨answer, size⟩])[h]? = some b at at_h
    rw [List.getElem?_append] at at_h
    split_ifs at at_h with lt
    · exact .inl at_h
    · obtain ⟨zero, same⟩ := List.getElem?_eq_some_iff.mp at_h
      simp only [List.length_singleton] at zero
      exact .inr ⟨by omega, by simpa using same.symm⟩
  refine ⟨⟨owning.idle.sound, ?_, owning.idle.agrees.push opened room fresh⟩, ?_, ?_⟩
  · change p.module.driverOpen = true
    rw [owning.idle.linked, opened]
    rfl
  · intro b member live
    rw [allocated_withBuffer]
    obtain ⟨h, at_h⟩ := List.mem_iff_getElem?.mp member
    rcases cases_at h b at_h with before | ⟨_, new⟩
    · exact Finset.mem_insert_of_mem (owning.intact b (List.mem_of_getElem? before) live)
    · rw [new]
      exact Finset.mem_insert_self ..
  · intro h h' b b' at_h at_h' ne live same
    rcases cases_at h b at_h with first | ⟨last, new⟩ <;>
      rcases cases_at h' b' at_h' with second | ⟨last', new'⟩
    · exact owning.apart h h' b b' first second ne live same
    · rw [new'] at same
      exact old b (List.mem_of_getElem? first) same
    · rw [new] at same
      exact old b' (List.mem_of_getElem? second) same.symm
    · exact ne (last.trans last'.symm)

/-- A new `HostBuffer` spares the others. -/
theorem alloc_spares (owning : Owning p) (size : Int) {answer : Nat}
    (fresh : answer ∉ p.allocated) :
    Owning (hostBufferInit p size answer).1 ∧
      Spares p (.alloc size answer) (hostBufferInit p size answer).1 := by
  rcases hostBufferInit_cases p size answer with same | ⟨d, opened, room, nonnull, same⟩
  · rw [same]
    refine ⟨owning, fun h b at_h _ _ => ⟨at_h, Usage.not_released_self _⟩, fun h q frees => ?_⟩
    rcases frees with frees | frees <;> cases frees
  · rw [same]
    refine ⟨owning.withBuffer opened room size nonnull fresh, fun h b at_h _ _ => ⟨?_, ?_⟩,
      fun h q frees => ?_⟩
    · obtain ⟨lt, _⟩ := List.getElem?_eq_some_iff.mp at_h
      exact (List.getElem?_append_left lt).trans at_h
    · exact not_released_withBuffer p d answer size b.ptr
    · rcases frees with frees | frees <;> cases frees

/-! ## Memory that is given back -/

/-- `deregister_buffer` raises nothing. -/
theorem deregister_ran (a : Answers) (idle : Idle p) (buf : BufferView) :
    ∃ q, ((deregisterBuffer buf).expand Section.body).run (execHost a) p = some (.ok (), q) ∧
      CallRan p q (.deregisterBuffer buf) := by
  obtain ⟨r, ran, callRan⟩ := call_ran a idle (.deregisterBuffer buf)
  obtain ⟨err, projected⟩ := run_project (ordered_deregisterBuffer buf) a p
  obtain ⟨s', moduleRan, _⟩ :=
    deregisterBuffer_spec { a.env with bufRegister := err } idle.sound buf
  rw [runPy_expand, moduleRan] at projected
  obtain ⟨out, hostRan, same⟩ := Option.map_eq_some_iff.mp projected
  have outcome : r = out := Option.some.inj (ran.symm.trans hostRan)
  have ok : r.1 = .ok () := outcome ▸ congrArg Prod.fst same
  exact ⟨r.2, ran.trans (congrArg some (Prod.ext ok rfl)), callRan⟩

/-- The process after `HostBuffer.free`, when `deregister_buffer` has left `q`. -/
def HostProcess.withoutBuffer (q : HostProcess) (h : Nat) (b : HostBuffer) : HostProcess :=
  { q with native := opendsFree q.native b.ptr, hostBuffers := q.hostBuffers.set h ⟨0, b.size⟩ }

theorem hostBufferFree_ran (a : Answers) (idle : Idle p) (h : Nat) {b : HostBuffer}
    (live : b.ptr ≠ 0) :
    ∃ q, hostBufferFree a h b p = some (.ok (), q.withoutBuffer h b) ∧
      CallRan p q (.deregisterBuffer ⟨b.ptr, none⟩) := by
  obtain ⟨q, ran, callRan⟩ := deregister_ran a idle ⟨b.ptr, none⟩
  refine ⟨q, ?_, callRan⟩
  rw [hostBufferFree, if_neg live, ran]
  rfl

/-- `opends_free` releases no buffer but its argument. -/
theorem released_free {n : Native} {buf q : Nat}
    (released : Usage.Released n.xnvme.buffers (opendsFree n buf).xnvme.buffers q) : q = buf := by
  unfold Usage.Released at released
  rcases buffers_free n buf with same | same
  · rw [same] at released
    exact absurd released (Nat.lt_irrefl _)
  · by_contra other
    rw [same] at released
    simp [Ne.symm other] at released

theorem acquires_free (n : Native) (buf q : Nat) :
    (opendsFree n buf).xnvme.buffers.count (.acquire q) = n.xnvme.buffers.count (.acquire q) := by
  rcases buffers_free n buf with same | same <;> simp [same]

/-- What `HostBuffer.free` releases is its own. -/
theorem released_withoutBuffer {q : HostProcess} {h r : Nat} {b : HostBuffer} (idle : Idle p)
    (ran : CallRan p q (.deregisterBuffer ⟨b.ptr, none⟩))
    (alone : b.ptr ∈ p.module.pinned → p.module.driverRefs = 1 → ∀ r ∈ p.allocated, r = b.ptr)
    (released : Usage.Released p.native.xnvme.buffers
      (q.withoutBuffer h b).native.xnvme.buffers r) : r = b.ptr := by
  rcases released.split with first | second
  · by_cases closes : p.module.Closes (.deregisterBuffer ⟨b.ptr, none⟩)
    · have held := ((Usage.released_iff (idle.agrees.records true).disciplined
        (ran.idle.agrees.records true).disciplined (ran.acquires r)).mp first).1
      exact alone closes.1 closes.2 r held
    · exact absurd first (ran.kept closes r)
  · exact released_free second

theorem idle_withoutBuffer {q : HostProcess} (idle : Idle q) (h : Nat) (b : HostBuffer) :
    Idle (q.withoutBuffer h b) := by
  refine ⟨idle.sound, ?_, idle.agrees.free b.ptr⟩
  change q.module.driverOpen = (opendsFree q.native b.ptr).drv.isSome
  rw [isSome_free]
  exact idle.linked

/-- The `free` of a `HostBuffer` spares the others. -/
theorem free_spares {q : HostProcess} {c : HostCall} {h : Nat} {b : HostBuffer} (owning : Owning p)
    (frees : ∀ h', c.Frees h' ↔ h' = h) (at_h : p.hostBuffers[h]? = some b)
    (live : b.ptr ≠ 0) (ran : CallRan p q (.deregisterBuffer ⟨b.ptr, none⟩))
    (alone : b.ptr ∈ p.module.pinned → p.module.driverRefs = 1 → ∀ r ∈ p.allocated, r = b.ptr) :
    Owning (q.withoutBuffer h b) ∧ Spares p c (q.withoutBuffer h b) := by
  have idle := idle_withoutBuffer ran.idle h b
  have acquires : ∀ r, (q.withoutBuffer h b).native.xnvme.buffers.count (.acquire r) =
      p.native.xnvme.buffers.count (.acquire r) :=
    fun r => (acquires_free q.native b.ptr r).trans (ran.acquires r)
  have buffers : (q.withoutBuffer h b).hostBuffers = p.hostBuffers.set h ⟨0, b.size⟩ :=
    congrArg (fun l : List HostBuffer => l.set h ⟨0, b.size⟩) ran.hostBuffers
  have others : ∀ {h' : Nat} {b' : HostBuffer}, b'.ptr ≠ 0 →
      (q.withoutBuffer h b).hostBuffers[h']? = some b' → h' ≠ h ∧ p.hostBuffers[h']? = some b' := by
    intro h' b' live' at_h'
    rw [buffers, List.getElem?_set] at at_h'
    split_ifs at at_h' with same lt
    · cases at_h'
      exact absurd rfl live'
    · exact ⟨Ne.symm same, at_h'⟩
  have kept : ∀ (h' : Nat) (b' : HostBuffer), h' ≠ h → p.hostBuffers[h']? = some b' → b'.ptr ≠ 0 →
      ¬ Usage.Released p.native.xnvme.buffers
        (q.withoutBuffer h b).native.xnvme.buffers b'.ptr := by
    intro h' b' ne at_h' live' released
    exact owning.apart h h' b b' at_h at_h' (Ne.symm ne) live
      (released_withoutBuffer owning.idle ran alone released).symm
  refine ⟨⟨idle, fun b' member live' => ?_, fun h₁ h₂ b₁ b₂ at₁ at₂ ne live₁ same => ?_⟩,
    fun h' b' at_h' live' other => ?_, fun h' r freed released => ?_⟩
  · obtain ⟨h', at_h'⟩ := List.mem_iff_getElem?.mp member
    obtain ⟨ne, before⟩ := others live' at_h'
    exact allocated_of_not_released owning.idle idle (acquires b'.ptr)
      (owning.intact b' (List.mem_of_getElem? before) live') (kept h' b' ne before live')
  · obtain ⟨_, first⟩ := others live₁ at₁
    obtain ⟨_, second⟩ := others (same ▸ live₁) at₂
    exact owning.apart h₁ h₂ b₁ b₂ first second ne live₁ same
  · have ne : h' ≠ h := fun same => other ((frees h').mpr same)
    refine ⟨?_, kept h' b' ne at_h' live'⟩
    rw [buffers, List.getElem?_set_ne (Ne.symm ne), at_h']
  · rw [(frees h').mp freed]
    exact ⟨b, at_h, released_withoutBuffer owning.idle ran alone released⟩

/-- A `HostBuffer` that has been freed is not freed again. -/
theorem freed_spares {c : HostCall} (owning : Owning p) : Owning p ∧ Spares p c p :=
  ⟨owning, fun _ _ at_h _ _ => ⟨at_h, Usage.not_released_self _⟩,
    fun _ _ _ released => absurd released (Usage.not_released_self _)⟩

/-- `__del__` leaves what `free` does. -/
theorem hostBufferDel_state (a : Answers) (h : Nat) (b : HostBuffer) (p : HostProcess) :
    (hostBufferDel a h b p).map Prod.snd = (hostBufferFree a h b p).map Prod.snd := by
  rw [hostBufferDel, Option.map_map]
  congr 1
  funext r
  rcases r with ⟨e | u, q⟩
  · dsimp only [Function.comp]
    split <;> rfl
  · rfl

theorem frees_spares {c : HostCall} {h : Nat} {b : HostBuffer} (owning : Owning p) (a : Answers)
    (frees : ∀ h', c.Frees h' ↔ h' = h) (at_h : p.hostBuffers[h]? = some b)
    (keeps : KeepsDriver p (a, c))
    (step : (hostBufferFree a h b p).map Prod.snd = some p') : Owning p' ∧ Spares p c p' := by
  by_cases live : b.ptr = 0
  · rw [hostBufferFree, if_pos live] at step
    cases step
    exact freed_spares owning
  · obtain ⟨q, ran, callRan⟩ := hostBufferFree_ran a owning.idle h live
    rw [ran] at step
    cases step
    exact free_spares owning frees at_h live callRan
      (keeps.free h b ((frees h).mpr rfl) at_h live)

/-- Each step that keeps the driver spares the `HostBuffer`s. -/
theorem hosting_spares {x : Answers × HostCall} (owning : Owning p) (fresh : FreshAlloc p x)
    (keeps : KeepsDriver p x) (step : hosting.step p x = some p') :
    Owning p' ∧ Spares p x.2 p' := by
  obtain ⟨a, c⟩ := x
  cases c with
  | call c =>
      obtain ⟨r, ran, callRan⟩ := call_ran a owning.idle c
      change (c.program.run (execHost a) p).map Prod.snd = some p' at step
      rw [ran] at step
      cases step
      exact call_spares owning callRan (keeps.call c rfl)
  | alloc size answer =>
      cases step
      exact alloc_spares owning size (fresh size answer rfl)
  | free h =>
      obtain ⟨b, at_h, freed⟩ := Option.bind_eq_some_iff.mp step
      refine frees_spares owning a (fun h' => ?_) at_h keeps freed
      simp [HostCall.Frees, eq_comm]
  | del h =>
      obtain ⟨b, at_h, deleted⟩ := Option.bind_eq_some_iff.mp step
      rw [hostBufferDel_state] at deleted
      refine frees_spares owning a (fun h' => ?_) at_h keeps deleted
      simp [HostCall.Frees, eq_comm]

theorem Owning.initial (handlers : Signal → Disposition) : Owning (.initial handlers) := by
  refine ⟨⟨initial_sound handlers, rfl, ⟨fun kind => ?_, nofun⟩⟩, nofun, fun h h' b b' at_h => ?_⟩
  · cases kind <;> exact Usage.Records.nil
  · cases at_h

/-- **Every `HostBuffer` keeps its memory until its own `free`, and releases no other**, in
every run that gives the last reference to the driver back over no `HostBuffer`. -/
theorem hostBuffers_keep_memory {handlers : Signal → Disposition}
    {calls : List (Answers × HostCall)} {p : HostProcess}
    (meets : hosting.Meets (fun p x => FreshAlloc p x ∧ KeepsDriver p x) calls (.initial handlers))
    (ran : hosting.run calls (.initial handlers) = some p) :
    Intact p ∧ ∀ x p', FreshAlloc p x → KeepsDriver p x → hosting.step p x = some p' →
      Spares p x.2 p' := by
  have keeps : ∀ p x p', Owning p → FreshAlloc p x ∧ KeepsDriver p x →
      hosting.step p x = some p' → Owning p' := by
    intro p x p' owning kept step
    exact (hosting_spares owning kept.1 kept.2 step).1
  have owning := Machine.run_invariant keeps (.initial handlers) meets ran
  exact ⟨owning.intact, fun x p' fresh kept step => (hosting_spares owning fresh kept step).2⟩

/-! ## Two runs -/

/-- The test that a new allocation is not allocated yet. -/
def freshAlloc (p : HostProcess) (x : Answers × HostCall) : Bool :=
  match x.2 with
  | .alloc _ answer => decide (answer ∉ p.allocated)
  | _ => true

theorem freshAlloc_sound (p : HostProcess) (x : Answers × HostCall) (passes : freshAlloc p x = true) :
    FreshAlloc p x := by
  intro size answer same
  simp only [freshAlloc, same] at passes
  exact of_decide_eq_true passes

/-- The test that a call gives the last reference back. -/
def ModuleState.closes (s : ModuleState) : Call → Bool
  | .fileClose f => (s.files f).fh.isSome && decide (s.driverRefs = 1)
  | .deregisterBuffer buf => decide (buf.ptr ∈ s.pinned) && decide (s.driverRefs = 1)
  | .cleanup => decide (0 < s.driverRefs)
  | _ => false

theorem ModuleState.closes_of_Closes {s : ModuleState} {c : Call} (closes : s.Closes c) :
    s.closes c = true := by
  cases c <;> simp_all [ModuleState.Closes, ModuleState.closes]

/-- The test that the `HostBuffer` at `h` may be freed. -/
def mayFree (p : HostProcess) (h : Nat) : Bool :=
  p.hostBuffers[h]?.all fun b =>
    decide (b.ptr ∉ p.module.pinned) || decide (p.module.driverRefs ≠ 1) ||
      decide (∀ q ∈ p.allocated, q = b.ptr)

/-- The test that the last reference is given back over no `HostBuffer`. -/
def keepsDriver (p : HostProcess) (x : Answers × HostCall) : Bool :=
  match x.2 with
  | .call c => !p.module.closes c || p.hostBuffers.all fun b => b.ptr == 0
  | .alloc _ _ => true
  | .free h => mayFree p h
  | .del h => mayFree p h

theorem keepsDriver_sound (p : HostProcess) (x : Answers × HostCall)
    (passes : keepsDriver p x = true) : KeepsDriver p x := by
  have frees : ∀ h b, mayFree p h = true → p.hostBuffers[h]? = some b →
      b.ptr ∈ p.module.pinned → p.module.driverRefs = 1 → ∀ q ∈ p.allocated, q = b.ptr := by
    intro h b may at_h pinned last
    simpa [mayFree, at_h, pinned, last] using may
  constructor
  · intro c same closes b member
    simp only [keepsDriver, same, ModuleState.closes_of_Closes closes, Bool.not_true,
      Bool.false_or, List.all_eq_true, beq_iff_eq] at passes
    exact passes b member
  · rintro h b (same | same) at_h _ pinned last
    · rw [keepsDriver, same] at passes
      exact frees h b passes at_h pinned last
    · rw [keepsDriver, same] at passes
      exact frees h b passes at_h pinned last

/-- Open a file with the default arguments. -/
def hostOpen (f : Nat) : Answers × HostCall :=
  (succeeding, .call (.fileInit f "data" "r" none 0o644))

def hostClose (f : Nat) : Answers × HostCall := (succeeding, .call (.fileClose f))

def hostAlloc (answer : Nat) : Answers × HostCall := (succeeding, .alloc 4096 answer)

/-- A `HostBuffer` that is registered keeps the driver open until it is freed, after the
file has been closed. -/
theorem hostBuffers_keep_memory_registered :
    Intact ((hosting.run [hostOpen 0, hostAlloc 65536,
      (succeeding, .call (.registerBuffer ⟨65536, some 4096⟩ none)), hostClose 0,
      (succeeding, .del 0)] (.initial fun _ => .sigDfl)).get (by decide)) :=
  (hostBuffers_keep_memory (Machine.meets_of_check
    (fun p x passes => ⟨freshAlloc_sound p x (Bool.and_eq_true_iff.mp passes).1,
      keepsDriver_sound p x (Bool.and_eq_true_iff.mp passes).2⟩) (by decide))
    (Option.some_get _).symm).1

/-- **Closing the last file takes the memory of a `HostBuffer` away.** In the next lifecycle
of the driver its address belongs to another one, whose memory its `free` releases. -/
theorem hostBuffer_outlives_memory :
    ∃ p p' p'', hosting.Meets FreshAlloc
        [hostOpen 0, hostAlloc 65536, hostClose 0, hostOpen 1, hostAlloc 65536]
        (.initial fun _ => .sigDfl) ∧
      hosting.run [hostOpen 0, hostAlloc 65536, hostClose 0] (.initial fun _ => .sigDfl) = some p ∧
      ¬ Intact p ∧
      hosting.run [hostOpen 1, hostAlloc 65536] p = some p' ∧
      hosting.step p' (succeeding, .free 0) = some p'' ∧
      ¬ Spares p' (.free 0) p'' := by
  refine ⟨_, _, _, Machine.meets_of_check freshAlloc_sound (by decide), rfl, ?_, rfl, rfl, ?_⟩
  · intro intact
    exact absurd (intact ⟨65536, 4096⟩ (by decide) (by decide)) (by decide)
  · intro spares
    have other : ¬ HostCall.Frees 1 (.free 0) := by
      rintro (same | same) <;> cases same
    exact (spares.kept 1 ⟨65536, 4096⟩ rfl (by decide) other).2 (by change _ < _; decide)

end OpenDS.Python
