import OpenDS.Driver.BufferRuns
import OpenDS.Driver.DriverOpen
import OpenDS.Driver.StreamRegister
import OpenDS.Engine.Worker

/-!
# The driver from its opening to its closing

A session opens the driver, allocates and maps buffers, registers streams, has its workers
take bounce buffers, and closes the driver, any number of times. One log has all that is
acquired and released on the way.

`closing` lists what `opends_driver_close` releases, in the order of the code. In every state
that a session reaches this is exactly what is held, each thing once, so that closing leaves
nothing behind; and nothing is released while something that is still held needs it
(`Accounted`).
-/

set_option autoImplicit false

namespace OpenDS.Driver

open OpenDS.Library

/-! ## The code -/

/-- What a driver acquires in its life. -/
inductive Asset where
  | opened (r : Resource)
  /-- A buffer of `opends_alloc`. -/
  | buffer (p : Nat)
  /-- A mapping of `opends_buf_register`. -/
  | mapping (p : Nat)
  /-- A bounce buffer of a stream or of an operation. -/
  | bounce (p : Nat)
  /-- The copy descriptor of a stream. -/
  | descriptor (p : Nat)
  deriving DecidableEq, Repr

/-- `struct driver` once it is open. `bounceBuf i s` is `workers[i].file_op_queue[s].bounce_buf`. -/
structure OpenDriver where
  state : DriverState
  table : BufTable
  streams : StreamTable
  bounceBuf : Nat → Nat → Option Nat

/-- The global `drv`, and what has been acquired and released, the latest first. -/
structure Session where
  drv : Option OpenDriver
  log : List (Usage Asset)

/-- A process that has not opened the driver. -/
def Session.initial : Session := ⟨none, []⟩

namespace OpenDriver

variable (d : OpenDriver)

/-- What `stream_bounce_free` releases. -/
def streamBounce (s : OpendsStream) : List Asset :=
  (s.bounceBuf.map Asset.bounce).toList ++ (s.bounceDescHost.map Asset.descriptor).toList

/-- The bounce buffers of the operations of worker `i`. -/
def opBounces (i : Nat) : List Asset :=
  (List.range Engine.queueSize).flatMap fun s => ((d.bounceBuf i s).map Asset.bounce).toList

/-- The queue of worker `i`, if it has one. -/
def workerQueue (i : Nat) : List Asset :=
  match d.state.workers with
  | some queues => if queues i then [.opened (.queue i)] else []
  | none => []

/-- What `workers_teardown` releases, in its order. -/
def workersTeardown : List Asset :=
  if d.state.workersReady = false then []
  else
    (List.range d.state.nIoThreads).map (fun i => Asset.opened (.thread i)) ++
      (List.range d.streams.nStreams).flatMap (fun n => streamBounce (d.streams.streams n)) ++
      (List.range d.state.nIoThreads).flatMap (fun i => d.opBounces i ++ d.workerQueue i) ++
      [.opened .workers, .opened .words]

/-- The resource of an entry of the table. -/
def entry (e : BufEntry) : Asset := if e.owned then .buffer e.base else .mapping e.base

/-- What `opends_driver_close` releases, in its order. -/
def closing : List Asset :=
  d.workersTeardown ++
    (List.range d.table.bufCount).map (fun i => entry (d.table.bufs i)) ++
    (if d.state.xdev then [.opened .device] else []) ++
    [.opened .qpair, .opened .connection] ++
    (if d.state.attachDescpath then [.opened .descpath] else []) ++
    [.opened .allocLock, .opened .submitLock, .opened .regLock, .opened .driver]

/-- `workers[i].file_op_queue[s].bounce_buf = p` -/
def takeBounce (i s p : Nat) : OpenDriver :=
  { d with
    bounceBuf := Function.update d.bounceBuf i (Function.update (d.bounceBuf i) s (some p)) }

end OpenDriver

/-- `opends_driver_close`. -/
def closeSession (s : Session) : Session :=
  match s.drv with
  | none => s
  | some d => ⟨none, (d.closing.map .release).reverse ++ s.log⟩

/-- The driver that an open leaves, with its tables. -/
def OpenDriver.start (state : DriverState) (words : Nat → UInt32) (dptr : Nat) : OpenDriver :=
  ⟨state, .opened, .opened words dptr, fun _ _ => none⟩

/-- `opends_driver_open`. -/
def openSession (a : OpenAnswers) (words : Nat → UInt32) (dptr : Nat) (s : Session) : Session :=
  if s.drv.isSome then s
  else
    let out := (opendsDriverOpen a ⟨none, []⟩).1
    ⟨out.drv.map fun state => .start state words dptr,
      out.log.map (Usage.map Asset.opened) ++ s.log⟩

/-- A call on the table of the buffers. -/
def bufSession (c : BufCall) (s : Session) : Session :=
  match s.drv with
  | none => s
  | some d =>
    let out := (c.perform ⟨some d.table, ⟨[], []⟩⟩).1
    ⟨some { d with table := out.drv.getD d.table },
      out.xnvme.buffers.map (Usage.map Asset.buffer) ++
        (out.xnvme.mappings.map (Usage.map Asset.mapping) ++ s.log)⟩

/-- What `stream_bounce_alloc` and the failure of `ds_stream_map_put` do to the log. -/
def registerNewLog (d : StreamTable) (stream : UInt64) (a : BounceAnswer)
    (log : List (Usage Asset)) : List (Usage Asset) :=
  match a.desc with
  | .error _ => log
  | .ok desc =>
    match a.buf with
    | none => .release (.descriptor desc.1) :: .acquire (.descriptor desc.1) :: log
    | some buf =>
      let log := .acquire (.bounce buf) :: .acquire (.descriptor desc.1) :: log
      if (dsStreamMapPut d.streamMap streamMapMask stream d.nStreams).1 < 0 then
        .release (.descriptor desc.1) :: .release (.bounce buf) :: log
      else log

/-- `opends_stream_register`, with its log. -/
def registerLog (d : StreamTable) (stream : UInt64) (a : BounceAnswer)
    (log : List (Usage Asset)) : List (Usage Asset) :=
  if stream = 0 then log
  else if d.workersReady = false then log
  else if 0 ≤ dsStreamMapGet d.streamMap streamMapMask stream then log
  else if maxStreams ≤ d.nStreams then log
  else registerNewLog d stream a log

/-- `opends_stream_register`. -/
def streamSession (stream : UInt64) (a : BounceAnswer) (s : Session) : Session :=
  match s.drv with
  | none => s
  | some d =>
    ⟨some { d with streams := (d.streams.register stream a).1 },
      registerLog d.streams stream a s.log⟩

/-- Worker `i` takes a bounce buffer for the operation in its slot `slot`, if there is none yet,
as `submit_host_bounce` does. A null pointer is 0. -/
def bounceSession (i slot answer : Nat) (s : Session) : Session :=
  match s.drv with
  | none => s
  | some d =>
    if d.state.nIoThreads ≤ i ∨ Engine.queueSize ≤ slot ∨ (d.bounceBuf i slot).isSome ∨ answer = 0
      then s
    else
      ⟨some (d.takeBounce i slot answer), .acquire (.bounce answer) :: s.log⟩

/-- What happens in a session, with what the environment answers. -/
inductive SessionCall where
  | driverOpen (a : OpenAnswers) (words : Nat → UInt32) (dptr : Nat)
  | driverClose
  | buf (c : BufCall)
  | streamRegister (stream : UInt64) (a : BounceAnswer)
  | opBounce (i s answer : Nat)

/-- A session, one call after the other. -/
def driverSession : Machine Session SessionCall where
  step s c := match c with
    | .driverOpen a words dptr => some (openSession a words dptr s)
    | .driverClose => some (closeSession s)
    | .buf c => some (bufSession c s)
    | .streamRegister stream a => some (streamSession stream a s)
    | .opBounce i slot answer => some (bounceSession i slot answer s)

/-- What the environment may answer: an allocator hands out what is not held, and where HOMI
attaches queue pairs the device can be used. -/
def Answers (s : Session) : SessionCall → Prop
  | .driverOpen a _ _ => Attaches a → Usable a
  | .driverClose => True
  | .buf (.alloc _ answer) => .buffer answer ∉ Usage.outstanding s.log
  | .buf _ => True
  | .streamRegister _ a =>
    (∀ buf, a.buf = some buf → .bounce buf ∉ Usage.outstanding s.log) ∧
      ∀ desc, a.desc = .ok desc → .descriptor desc.1 ∉ Usage.outstanding s.log
  | .opBounce _ _ answer => .bounce answer ∉ Usage.outstanding s.log

/-- What the holder of the first has to use up to its release. -/
inductive Needs : Asset → Asset → Prop where
  /-- A worker uses its queue, the device, the words and the bounce buffers. -/
  | threadQueue (i : Nat) : Needs (.opened (.thread i)) (.opened (.queue i))
  | threadWorkers (i : Nat) : Needs (.opened (.thread i)) (.opened .workers)
  | threadWords (i : Nat) : Needs (.opened (.thread i)) (.opened .words)
  | threadBounce (i p : Nat) : Needs (.opened (.thread i)) (.bounce p)
  | threadDescriptor (i p : Nat) : Needs (.opened (.thread i)) (.descriptor p)
  | threadBuffer (i p : Nat) : Needs (.opened (.thread i)) (.buffer p)
  | threadMapping (i p : Nat) : Needs (.opened (.thread i)) (.mapping p)
  /-- A queue is found through the array, and belongs to the device. -/
  | queueWorkers (i : Nat) : Needs (.opened (.queue i)) (.opened .workers)
  | queueDevice (i : Nat) : Needs (.opened (.queue i)) (.opened .device)
  /-- Buffers and mappings belong to the device, and are freed under a lock. -/
  | bounceDevice (p : Nat) : Needs (.bounce p) (.opened .device)
  | bufferDevice (p : Nat) : Needs (.buffer p) (.opened .device)
  | mappingDevice (p : Nat) : Needs (.mapping p) (.opened .device)
  | bounceLock (p : Nat) : Needs (.bounce p) (.opened .allocLock)
  | bufferLock (p : Nat) : Needs (.buffer p) (.opened .allocLock)
  /-- The device is opened on the queue pairs, and these through the connection. -/
  | deviceQpair : Needs (.opened .device) (.opened .qpair)
  | qpairConnection : Needs (.opened .qpair) (.opened .connection)
  /-- Everything is found through the driver. -/
  | driver (k : Asset) : k ≠ .opened .driver → Needs k (.opened .driver)

/-! ## What an open leaves -/

section Opening

variable {a : OpenAnswers} {held used : Set Resource} {log : OpenLog} {n i : Nat}
  {queues : Nat → Bool} {masked : Bool}

/-- The loop of `workers_setup` where it starts every worker. -/
theorem startWorkers_all (unstarted : Unstarted used) (start : Started held used i queues log)
    {out : (Nat → Bool) × OpenLog × Nat × Bool}
    (eq : startWorkers a masked n i queues log = out) (all : out.2.2.2 = true) :
    Started held used (i + n) out.1 out.2.1 := by
  induction n generalizing i queues log with
  | zero =>
      cases eq
      exact start
  | succ n ih =>
      rw [startWorkers] at eq
      by_cases refused : a.xnvmeQueueInit i < 0
      · rw [if_pos refused] at eq
        cases eq
        cases all
      · rw [if_neg refused] at eq
        by_cases created : a.pthreadCreate i = 0
        · rw [if_neg (not_not.mpr created)] at eq
          have last := ih (start.next unstarted masked created) eq
          rwa [Nat.add_right_comm] at last
        · rw [if_pos created] at eq
          cases eq
          cases all

/-- What the open driver has of its workers. -/
structure Workers (d : DriverState) : Prop where
  ready : d.workersReady = true
  queues : ∃ queues, d.workers = some queues ∧ ∀ j, queues j = true ↔ j < d.nIoThreads

/-- **Where `workers_setup` succeeds** each worker has its queue and its thread. -/
theorem workersSetup_all (d : DriverState) (once : Usage.Once held used log)
    (unstarted : Unstarted used) (words : .words ∉ used) (workers : .workers ∉ used)
    {out : DriverState × OpenLog × Int} (eq : workersSetup a d log = out)
    (worked : out.2.2 = 0) :
    Workers out.1 ∧ out.1.attachDescpath = d.attachDescpath ∧ out.1.xdev = d.xdev ∧
      ∃ used', Usage.Once (insert .workers (insert .words held) ∪ working out.1.nIoThreads 0 0)
        used' out.2.1 := by
  unfold workersSetup at eq
  split at eq
  · rename_i refused
    cases eq
    exact absurd worked refused
  · split at eq
    · rename_i refused
      cases eq
      exact absurd worked refused
    · split at eq
      · cases eq
        cases worked
      · have array := (once.acquire words).acquire (k := .workers) (by simp [workers])
        have start : Started (insert .workers (insert .words held))
            (insert .workers (insert .words used)) 0 (fun _ => false)
            (.acquire .workers :: .acquire .words :: log) := by
          refine ⟨(array.congr fun k => ?_).mono Set.subset_union_left, fun j => by simp⟩
          cases k <;> simp [working]
        have outer : Unstarted (insert .workers (insert .words used)) := by
          intro j
          simpa using unstarted j
        rcases loop : startWorkers a (d.cpuMask != 0) d.nIoThreads 0 (fun _ => false)
          (.acquire .workers :: .acquire .words :: log) with ⟨queues, log', started, all⟩
        simp only [loop] at eq
        cases all with
        | false =>
            cases eq
            cases worked
        | true =>
            have last := startWorkers_all outer start loop rfl
            rw [Nat.zero_add] at last
            cases eq
            exact ⟨⟨rfl, queues, rfl, last.queues⟩, rfl, rfl, _, last.once⟩

/-- The device is open where it can be used. -/
theorem openDevice_xdev (d : DriverState) (log : OpenLog) (attached : 0 ≤ a.homicAttachQpair)
    (usable : Usable a) : (openDevice a d log).1.xdev = true := by
  obtain ⟨opens, nonzero, power⟩ := usable
  simp [openDevice, not_lt.mpr attached, opens, nonzero, power]

/-- What an open has acquired and not released, if it succeeds. -/
def acquired (d : DriverState) : Set Resource :=
  insert .workers (insert .words (insert .device (insert .qpair
    (insert .connection locked ∪ pathSet d.attachDescpath)))) ∪ working d.nIoThreads 0 0

/-- The driver of an open that has succeeded, with its log. -/
structure Opened (d : DriverState) (log : OpenLog) : Prop where
  workers : Workers d
  xdev : d.xdev = true
  once : ∃ used, Usage.Once (acquired d) used log

/-- **An open that succeeds** has everything that the driver needs. -/
theorem opendsDriverOpen_some (a : OpenAnswers) {d : DriverState}
    (opens : (opendsDriverOpen a ⟨none, []⟩).1.drv = some d) :
    Opened d (opendsDriverOpen a ⟨none, []⟩).1.log := by
  revert opens
  unfold opendsDriverOpen
  split
  · exact fun opens => by cases opens
  split
  · exact fun opens => by cases opens
  split
  · exact fun opens => by cases opens
  have connection := locked_once.acquire (k := .connection) (by simp [locked])
  cases read : a.readEnvConfig with
  | none => exact fun opens => by cases opens
  | some config =>
      dsimp only
      split
      · exact fun opens => by cases opens
      · rcases device : openDevice a (.configured config) (.acquire .connection ::
          [.acquire .allocLock, .acquire .regLock, .acquire .submitLock, .acquire .driver])
          with ⟨d', log, orc⟩
        have spec := openDevice_spec (a := a) (.configured config) connection (by simp [locked])
          (by simp [locked]) (by simp [locked]) (by simp [locked])
        simp only [device] at spec ⊢
        obtain ⟨path, ⟨-, failed, -⟩ | ⟨-, -, failed, -⟩ | ⟨attached, usable, worked, once⟩⟩ := spec
        · rw [if_pos failed]
          exact fun opens => by cases opens
        · rw [if_pos failed]
          exact fun opens => by cases opens
        · rw [if_neg (by omega)]
          have xdev := openDevice_xdev (.configured config) (.acquire .connection ::
            [.acquire .allocLock, .acquire .regLock, .acquire .submitLock, .acquire .driver])
            attached usable
          rw [device] at xdev
          rcases set : workersSetup a d' log with ⟨d'', log', arc⟩
          dsimp only
          split
          · exact fun opens => by cases opens
          · rename_i succeeded
            intro same
            cases same
            have unstarted : Unstarted (insert .connection locked ∪
                {.descpath, .qpair, .environment, .device}) := by
              intro j
              simp [locked]
            obtain ⟨workers, path', xdev', used', all⟩ := workersSetup_all d' once unstarted
              (by simp [locked]) (by simp [locked]) set (not_not.mp succeeded)
            refine ⟨workers, xdev'.trans xdev, used', ?_⟩
            rw [acquired, path', path]
            exact all

end Opening

/-! ## What closing releases -/

/-- What the entries of the table hold. -/
def BufTable.assets (t : BufTable) : Multiset Asset :=
  (held (fun _ => true) t.bufs t.bufCount).map OpenDriver.entry

theorem BufTable.coe_assets (t : BufTable) : t.assets =
    ((List.range t.bufCount).map fun i => OpenDriver.entry (t.bufs i) : List Asset) := by
  rw [assets, held, Multiset.filter_eq_self.mpr fun _ _ => rfl, Multiset.map_map]
  rfl

theorem BufTable.assets_push (t : BufTable) (e : BufEntry) :
    (t.push e).assets = OpenDriver.entry e ::ₘ t.assets := by
  simp only [assets, push]
  rw [held_succ, Function.update_self, held_update_of_le _ _ (Nat.le_refl _),
    holding_of_pos _ rfl, Multiset.singleton_add, Multiset.map_cons]

theorem BufTable.assets_remove (t : BufTable) {i : Nat} (lt : i < t.bufCount) :
    t.assets = OpenDriver.entry (t.bufs i) ::ₘ (t.remove i).assets := by
  simp only [assets, remove]
  rw [held_replace_last _ _ lt, holding_of_pos _ rfl, Multiset.singleton_add, Multiset.map_cons]

namespace OpenDriver

variable (d : OpenDriver)

/-- What the streams have. -/
def streamBounces (t : StreamTable) : Multiset Asset :=
  contents (fun n => streamBounce (t.streams n)) t.nStreams

/-- What the workers have besides their threads. -/
def workerAssets : Multiset Asset :=
  contents (fun i => d.opBounces i ++ d.workerQueue i) d.state.nIoThreads

/-- What stays as it is from the opening to the closing. -/
def fixed (state : DriverState) : Multiset Asset :=
  ((List.range state.nIoThreads).map (fun i => Asset.opened (.thread i)) : List Asset) +
    ([.opened .workers, .opened .words] : List Asset) +
    (if state.xdev then [.opened .device] else [] : List Asset) +
    ([.opened .qpair, .opened .connection] : List Asset) +
    (if state.attachDescpath then [.opened .descpath] else [] : List Asset) +
    ([.opened .allocLock, .opened .submitLock, .opened .regLock, .opened .driver] : List Asset)

theorem closing_eq (ready : d.state.workersReady = true) :
    (d.closing : Multiset Asset) =
      fixed d.state + streamBounces d.streams + d.workerAssets + d.table.assets := by
  rw [closing, workersTeardown, if_neg (by simp [ready]), BufTable.coe_assets, fixed,
    streamBounces, workerAssets, contents, contents]
  simp only [← Multiset.coe_add]
  abel

/-- An entry comes, and closing will release it. -/
theorem closing_push (ready : d.state.workersReady = true) (e : BufEntry) :
    (({ d with table := d.table.push e } : OpenDriver).closing : Multiset Asset) =
      entry e ::ₘ d.closing := by
  rw [closing_eq d ready, ← Multiset.add_cons, ← d.table.assets_push]
  exact closing_eq { d with table := d.table.push e } ready

/-- An entry goes, and closing does not release it any more. -/
theorem closing_remove (ready : d.state.workersReady = true) {i : Nat} (lt : i < d.table.bufCount) :
    (d.closing : Multiset Asset) = entry (d.table.bufs i) ::ₘ
      (({ d with table := d.table.remove i } : OpenDriver).closing : Multiset Asset) := by
  have after := closing_eq { d with table := d.table.remove i } ready
  rw [after, closing_eq d ready, d.table.assets_remove lt, Multiset.add_cons]
  rfl

/-- A worker takes a bounce buffer for a slot that has none. -/
theorem closing_bounce (ready : d.state.workersReady = true) {i slot p : Nat}
    (worker : i < d.state.nIoThreads) (low : slot < Engine.queueSize)
    (none : d.bounceBuf i slot = none) :
    ((d.takeBounce i slot p).closing : Multiset Asset) = .bounce p ::ₘ d.closing := by
  set d' := d.takeBounce i slot p
  have own : (d'.opBounces i : Multiset Asset) = .bounce p ::ₘ d.opBounces i := by
    have taken := contents_update_cons (fun s => ((d.bounceBuf i s).map Asset.bounce).toList)
      (a := .bounce p) (l := [.bounce p]) low (by simp [none])
    have same : (fun s => ((d'.bounceBuf i s).map Asset.bounce).toList) =
        Function.update (fun s => ((d.bounceBuf i s).map Asset.bounce).toList) slot [.bounce p] := by
      funext s
      by_cases here : s = slot
      · subst here
        simp [d', takeBounce]
      · simp [d', takeBounce, here]
    rw [← same] at taken
    exact taken
  have others : (fun j => d'.opBounces j ++ d'.workerQueue j) =
      Function.update (fun j => d.opBounces j ++ d.workerQueue j) i
        (d'.opBounces i ++ d'.workerQueue i) := by
    funext j
    by_cases here : j = i
    · subst here
      rw [Function.update_self]
    · rw [Function.update_of_ne here, opBounces, opBounces]
      have untouched : d'.bounceBuf j = d.bounceBuf j := Function.update_of_ne here ..
      rw [untouched]
      rfl
  have queued : d'.workerQueue i = d.workerQueue i := rfl
  have more : d'.workerAssets = .bounce p ::ₘ d.workerAssets := by
    rw [workerAssets, others]
    refine contents_update_cons _ worker ?_
    rw [queued, ← Multiset.coe_add, own, Multiset.cons_add, Multiset.coe_add]
  rw [closing_eq d' ready, closing_eq d ready, more]
  change fixed d.state + streamBounces d.streams + _ + d.table.assets = _
  rw [Multiset.add_cons, Multiset.cons_add]

end OpenDriver

/-! ## What each call does to the log -/

section Calls

variable {l : Multiset Asset} {log : List (Usage Asset)} {t : StreamTable} {stream : UInt64}
  {a : BounceAnswer}

/-- What is stored past the registered streams is not theirs. -/
theorem records_below {t' : StreamTable}
    (records : Usage.Records (OpenDriver.streamBounces t + l) log)
    (count : t'.nStreams = t.nStreams) (below : ∀ n, n < t.nStreams → t'.streams n = t.streams n) :
    Usage.Records (OpenDriver.streamBounces t' + l) log := by
  have same : OpenDriver.streamBounces t' = OpenDriver.streamBounces t := by
    rw [OpenDriver.streamBounces, count]
    exact contents_congr _ fun n low => congrArg _ (below n low)
  rwa [same]

/-- One more stream. -/
theorem records_next {t' : StreamTable} (count : t'.nStreams = t.nStreams + 1)
    (below : ∀ n, n < t.nStreams → t'.streams n = t.streams n)
    (records : Usage.Records ((OpenDriver.streamBounce (t'.streams t.nStreams) : Multiset Asset) +
      (OpenDriver.streamBounces t + l)) log) :
    Usage.Records (OpenDriver.streamBounces t' + l) log := by
  have same : OpenDriver.streamBounces t' =
      OpenDriver.streamBounces t + OpenDriver.streamBounce (t'.streams t.nStreams) := by
    rw [OpenDriver.streamBounces, count, contents_succ]
    exact congrArg (· + _) (contents_congr _ fun n low => congrArg _ (below n low))
  rwa [same, add_comm (OpenDriver.streamBounces t), add_assoc]

/-- **A registration** gives a stream its buffer and its descriptor, and neither if it fails. -/
theorem registerNew_records (records : Usage.Records (OpenDriver.streamBounces t + l) log)
    (newBuf : ∀ buf, a.buf = some buf → .bounce buf ∉ Usage.outstanding log)
    (newDesc : ∀ desc, a.desc = .ok desc → .descriptor desc.1 ∉ Usage.outstanding log) :
    Usage.Records (OpenDriver.streamBounces (t.registerNew stream a).1 + l)
      (registerNewLog t stream a log) := by
  unfold StreamTable.registerNew registerNewLog streamBounceAlloc
  cases described : a.desc with
  | error rc =>
      simp only [rc.2, ne_eq, not_false_eq_true, if_true]
      exact records_below records rfl fun n low => by simp [Nat.ne_of_lt low]
  | ok desc =>
      have first := records.acquire (newDesc desc described)
      cases given : a.buf with
      | none =>
          simp only [ne_eq, not_false_eq_true, if_true, Int.neg_eq_zero, one_ne_zero]
          exact records_below first.release rfl fun n low => by simp [Nat.ne_of_lt low]
      | some buf =>
          have both := first.acquire (k := .bounce buf) (by simpa using newBuf buf given)
          simp only [ne_eq, not_true_eq_false, if_false]
          split
          · exact records_below both.release.release rfl fun n low => by simp [Nat.ne_of_lt low]
          · refine records_next (t := t) rfl (fun n low => by simp [Nat.ne_of_lt low]) ?_
            simpa [OpenDriver.streamBounce, ← Multiset.cons_coe] using both

/-- `opends_stream_register` keeps what is held on the list. -/
theorem register_records (records : Usage.Records (OpenDriver.streamBounces t + l) log)
    (newBuf : ∀ buf, a.buf = some buf → .bounce buf ∉ Usage.outstanding log)
    (newDesc : ∀ desc, a.desc = .ok desc → .descriptor desc.1 ∉ Usage.outstanding log) :
    Usage.Records (OpenDriver.streamBounces (t.register stream a).1 + l)
      (registerLog t stream a log) := by
  unfold StreamTable.register registerLog
  split_ifs
  · exact records
  · exact records
  · exact records
  · exact records
  · exact registerNew_records records newBuf newDesc

end Calls

/-! ## What a session keeps -/

/-- What closing the driver would release. -/
def Session.closing (s : Session) : Multiset Asset :=
  match s.drv with
  | none => 0
  | some d => d.closing

/-- What closing would release is what is held. -/
structure SessionInv (s : Session) : Prop where
  records : Usage.Records s.closing s.log
  ready : ∀ d, s.drv = some d → d.state.workersReady = true

variable {s : Session} {d : OpenDriver}

theorem Session.closing_of_some (opened : s.drv = some d) : s.closing = d.closing := by
  rw [Session.closing, opened]

theorem SessionInv.initial : SessionInv .initial := ⟨.nil, nofun⟩

theorem SessionInv.close (inv : SessionInv s) : SessionInv (closeSession s) := by
  unfold closeSession
  split
  case h_1 => exact inv
  case h_2 d opened =>
    have records := inv.records
    rw [Session.closing_of_some opened, ← add_zero (d.closing : Multiset Asset)] at records
    exact ⟨records.releaseAll, nofun⟩

/-- The list of what a driver has that has just been opened. -/
theorem start_closing {state : DriverState} {log : OpenLog} (opened : Opened state log)
    (words : Nat → UInt32) (dptr : Nat) :
    ((OpenDriver.start state words dptr).closing : Multiset Asset) =
      (Usage.outstanding log).val.map Asset.opened := by
  obtain ⟨queues, array, has⟩ := opened.workers.queues
  obtain ⟨used, once⟩ := opened.once
  have injective : Function.Injective Asset.opened := fun r r' same => Asset.opened.inj same
  have listed : (OpenDriver.start state words dptr).closing =
      (List.range state.nIoThreads).map (fun i => Asset.opened (.thread i)) ++
        (List.range state.nIoThreads).map (fun i => Asset.opened (.queue i)) ++
        [.opened .workers, .opened .words, .opened .device, .opened .qpair, .opened .connection] ++
        (if state.attachDescpath then [.opened .descpath] else []) ++
        [.opened .allocLock, .opened .submitLock, .opened .regLock, .opened .driver] := by
    have queue : ∀ i ∈ List.range state.nIoThreads,
        (OpenDriver.start state words dptr).opBounces i ++
          (OpenDriver.start state words dptr).workerQueue i = [.opened (.queue i)] := by
      intro i low
      have bounces : (OpenDriver.start state words dptr).opBounces i = [] :=
        List.flatMap_eq_nil_iff.mpr fun _ _ => rfl
      have queued := (has i).mpr (List.mem_range.mp low)
      rw [bounces, List.nil_append]
      simp [OpenDriver.workerQueue, OpenDriver.start, array, queued]
    rw [OpenDriver.closing, OpenDriver.workersTeardown]
    simp only [OpenDriver.start] at queue ⊢
    rw [List.flatMap_congr queue]
    simp [opened.workers.ready, opened.xdev, StreamTable.opened, BufTable.opened,
      ← List.map_eq_flatMap]
    rfl
  refine ((Multiset.Nodup.ext ?_ ((Finset.nodup _).map injective)).mpr fun k => ?_)
  · rw [listed, Multiset.coe_nodup]
    have threads : ((List.range state.nIoThreads).map fun i => Asset.opened (.thread i)).Nodup :=
      List.nodup_range.map fun i j same => by simpa using same
    have queues : ((List.range state.nIoThreads).map fun i => Asset.opened (.queue i)).Nodup :=
      List.nodup_range.map fun i j same => by simpa using same
    cases path : state.attachDescpath <;> simp [List.nodup_append, threads, queues]
    all_goals
      intro a low b other same
      subst same
      simp at other
  · rw [listed]
    simp only [Multiset.mem_map, Finset.mem_val, once.held, acquired, pathSet]
    cases k with
    | opened r => cases path : state.attachDescpath <;> cases r <;> simp [locked, working]
    | _ => cases path : state.attachDescpath <;> simp

theorem opendsDriverOpen_ok (a : OpenAnswers) (worked : (opendsDriverOpen a ⟨none, []⟩).2 = .ok ()) :
    (opendsDriverOpen a ⟨none, []⟩).1.drv ≠ none := by
  revert worked
  unfold opendsDriverOpen
  dsimp only
  cases a.readEnvConfig <;> dsimp only <;> split_ifs <;> simp

/-- An open that fails where the device can be used holds nothing. -/
theorem opendsDriverOpen_none (a : OpenAnswers) (condition : Attaches a → Usable a)
    (closed : (opendsDriverOpen a ⟨none, []⟩).1.drv = none) :
    Usage.Records 0 (opendsDriverOpen a ⟨none, []⟩).1.log := by
  have outcome := openOutcome a
  have worked := opendsDriverOpen_ok a
  generalize opendsDriverOpen a ⟨none, []⟩ = out at outcome closed worked ⊢
  cases outcome with
  | opened s usable => exact absurd closed (worked rfl)
  | undone used log e condition once =>
      refine ⟨?_, once.disciplined⟩
      refine (Finset.val_eq_zero.mpr (Finset.eq_empty_of_forall_notMem fun k mem => ?_)).symm
      exact Set.notMem_empty k ((once.held k).mp mem)
  | attached used log e attaches unusable once => exact absurd (condition attaches) unusable

theorem SessionInv.open (inv : SessionInv s) {a : OpenAnswers} (condition : Attaches a → Usable a)
    (words : Nat → UInt32) (dptr : Nat) : SessionInv (openSession a words dptr s) := by
  unfold openSession
  split_ifs with already
  · exact inv
  · have injective : Function.Injective Asset.opened := fun r r' same => Asset.opened.inj same
    have before := inv.records
    rw [Session.closing, Option.not_isSome_iff_eq_none.mp already] at before
    cases closed : (opendsDriverOpen a ⟨none, []⟩).1.drv with
    | none =>
        have failed := Usage.Records.map injective before (opendsDriverOpen_none a condition closed)
        rw [Multiset.map_zero] at failed
        exact ⟨by simpa [Session.closing, closed] using failed, by simp [closed]⟩
    | some state =>
        have opened := opendsDriverOpen_some a closed
        obtain ⟨used, once⟩ := opened.once
        have all := Usage.Records.map injective before ⟨rfl, once.disciplined⟩
        rw [← start_closing opened words dptr] at all
        refine ⟨by simpa [Session.closing, closed] using all, fun d same => ?_⟩
        simp only [closed, Option.map_some, Option.some.injEq] at same
        subst same
        exact opened.workers.ready

theorem OpenDriver.mem_workerQueue (d : OpenDriver) {i : Nat} {k : Asset}
    (mem : k ∈ d.workerQueue i) : k = .opened (.queue i) := by
  unfold workerQueue at mem
  split at mem
  · split_ifs at mem
    · exact List.mem_singleton.mp mem
    · simp at mem
  · simp at mem

/-- The only mappings that closing undoes are those of the table. -/
theorem mapping_mem_closing {p : Nat} (mem : .mapping p ∈ d.closing) :
    ∃ i, i < d.table.bufCount ∧ (d.table.bufs i).base = p := by
  have queues : ∀ i, .mapping p ∉ d.workerQueue i := fun i mem => nomatch d.mem_workerQueue mem
  have elsewhere : .mapping p ∉ d.workersTeardown := by
    simp [OpenDriver.workersTeardown, OpenDriver.streamBounce, OpenDriver.opBounces, queues]
  have entered : ∃ i, i < d.table.bufCount ∧ OpenDriver.entry (d.table.bufs i) = .mapping p := by
    simpa [OpenDriver.closing, elsewhere] using mem
  obtain ⟨i, lt, here⟩ := entered
  refine ⟨i, lt, ?_⟩
  unfold OpenDriver.entry at here
  split_ifs at here
  exact Asset.mapping.inj here

/-- What a call enters into the table. -/
def Enters (t : BufTable) (c : BufCall) (e : BufEntry) : Prop :=
  (∃ size, c = .alloc size e.base ∧ e.owned = true) ∨ (t.find e.base = none ∧ e.owned = false)

/-- What a call on the table does: nothing, or an entry comes, or one goes. -/
theorem perform_cases (t : BufTable) (x : Xnvme) (c : BufCall) :
    (c.perform ⟨some t, x⟩).1 = ⟨some t, x⟩ ∨
      (∃ e, Enters t c e ∧ (c.perform ⟨some t, x⟩).1 = ⟨some (t.push e), x.enter e⟩) ∨
      ∃ i, i < t.bufCount ∧ (c.perform ⟨some t, x⟩).1 = ⟨some (t.remove i), x.leave (t.bufs i)⟩ := by
  cases c with
  | alloc size answer =>
      rcases opendsAlloc_cases ⟨some t, x⟩ size answer with same | ⟨t', here, -, -, same⟩
      · exact .inl (congrArg Prod.fst same)
      · cases here
        exact .inr (.inl ⟨⟨answer, size, true⟩, .inl ⟨size, rfl, rfl⟩, congrArg Prod.fst same⟩)
  | free buf =>
      rcases opendsFree_cases ⟨some t, x⟩ buf with same | ⟨t', i, here, lt, -, -, same⟩
      · exact .inl same
      · cases here
        exact .inr (.inr ⟨i, lt, same⟩)
  | register bufBase size rc =>
      rcases opendsBufRegister_cases ⟨some t, x⟩ bufBase size rc with
        ⟨e, same⟩ | ⟨t', here, absent, -, same⟩
      · exact .inl (congrArg Prod.fst same)
      · cases here
        exact .inr (.inl ⟨⟨bufBase, size, false⟩, .inr ⟨absent, rfl⟩, congrArg Prod.fst same⟩)
  | deregister bufBase =>
      rcases opendsBufDeregister_cases ⟨some t, x⟩ bufBase with
        ⟨e, same⟩ | ⟨t', i, here, lt, -, -, same⟩
      · exact .inl (congrArg Prod.fst same)
      · cases here
        exact .inr (.inr ⟨i, lt, congrArg Prod.fst same⟩)

/-- The call, with its log. -/
theorem bufSession_cases (opened : s.drv = some d) (c : BufCall) :
    bufSession c s = s ∨
      (∃ e, Enters d.table c e ∧ bufSession c s =
        ⟨some { d with table := d.table.push e }, .acquire (OpenDriver.entry e) :: s.log⟩) ∨
      ∃ i, i < d.table.bufCount ∧ bufSession c s =
        ⟨some { d with table := d.table.remove i },
          .release (OpenDriver.entry (d.table.bufs i)) :: s.log⟩ := by
  obtain ⟨drv, log⟩ := s
  cases opened
  rcases perform_cases d.table ⟨[], []⟩ c with same | ⟨e, enters, same⟩ | ⟨i, lt, same⟩
  · exact .inl (by simp [bufSession, same])
  · refine .inr (.inl ⟨e, enters, ?_⟩)
    cases own : e.owned <;>
      simp [bufSession, same, Xnvme.enter, own, Xnvme.bufAlloc, Xnvme.memMap, OpenDriver.entry,
        Usage.map]
  · refine .inr (.inr ⟨i, lt, ?_⟩)
    cases own : (d.table.bufs i).owned <;>
      simp [bufSession, same, Xnvme.leave, own, Xnvme.bufFree, Xnvme.memUnmap, OpenDriver.entry,
        Usage.map]

/-- A call on the table. -/
theorem SessionInv.buf (inv : SessionInv s) {c : BufCall} (answers : Answers s (.buf c)) :
    SessionInv (bufSession c s) := by
  cases opened : s.drv with
  | none =>
      have same : bufSession c s = s := by rw [bufSession, opened]
      rw [same]
      exact inv
  | some d =>
      have ready := inv.ready d opened
      have records := inv.records
      rw [Session.closing_of_some opened] at records
      rcases bufSession_cases opened c with same | ⟨e, enters, same⟩ | ⟨i, lt, same⟩
      · rw [same]
        exact inv
      · have new : OpenDriver.entry e ∉ Usage.outstanding s.log := by
          rcases enters with ⟨size, rfl, owned⟩ | ⟨absent, mapped⟩
          · rw [OpenDriver.entry, if_pos owned]
            exact answers
          · rw [← records.mem_iff, OpenDriver.entry, mapped]
            intro mem
            obtain ⟨i, lt, base⟩ := mapping_mem_closing (by simpa using mem)
            exact d.table.find_eq_none absent lt base
        rw [same]
        refine ⟨?_, fun d' here => ?_⟩
        · rw [Session.closing_of_some rfl, d.closing_push ready]
          exact records.acquire new
        · cases here
          exact ready
      · rw [d.closing_remove ready lt] at records
        rw [same]
        refine ⟨?_, fun d' here => ?_⟩
        · rw [Session.closing_of_some rfl]
          exact records.release
        · cases here
          exact ready

theorem SessionInv.stream (inv : SessionInv s) {stream : UInt64} {a : BounceAnswer}
    (answers : Answers s (.streamRegister stream a)) : SessionInv (streamSession stream a s) := by
  unfold streamSession
  split
  case h_1 => exact inv
  case h_2 d opened =>
    have ready := inv.ready d opened
    have records := inv.records
    rw [Session.closing_of_some opened, d.closing_eq ready, add_assoc, add_assoc,
      add_left_comm] at records
    have after : Usage.Records (OpenDriver.streamBounces (d.streams.register stream a).1 + _)
        (registerLog d.streams stream a s.log) := register_records records answers.1 answers.2
    have list := OpenDriver.closing_eq { d with streams := (d.streams.register stream a).1 } ready
    rw [add_assoc, add_assoc, add_left_comm] at list
    refine ⟨?_, fun d' same => ?_⟩
    · rw [Session.closing_of_some rfl, list]
      exact after
    · cases same
      exact ready

theorem SessionInv.bounce (inv : SessionInv s) {i slot answer : Nat}
    (answers : Answers s (.opBounce i slot answer)) : SessionInv (bounceSession i slot answer s) := by
  unfold bounceSession
  split
  case h_1 => exact inv
  case h_2 d opened =>
    split_ifs with idle
    · exact inv
    · have ready := inv.ready d opened
      have records := inv.records
      simp only [not_or, not_le] at idle
      obtain ⟨worker, low, free, -⟩ := idle
      rw [Session.closing_of_some opened] at records
      refine ⟨?_, fun d' same => ?_⟩
      · rw [Session.closing_of_some rfl,
          d.closing_bounce ready worker low (Option.not_isSome_iff_eq_none.mp free)]
        exact records.acquire answers
      · cases same
        exact ready

theorem SessionInv.step {c : SessionCall} {s' : Session} (inv : SessionInv s) (answers : Answers s c)
    (step : driverSession.step s c = some s') : SessionInv s' := by
  cases c with
  | driverOpen a words dptr =>
      cases step
      exact inv.open answers words dptr
  | driverClose =>
      cases step
      exact inv.close
  | buf c =>
      cases step
      exact inv.buf answers
  | streamRegister stream a =>
      cases step
      exact inv.stream answers
  | opBounce i slot answer =>
      cases step
      exact inv.bounce answers

/-! ## The order of the closing -/

/-- When the closing releases it: the workers come first and the driver last. -/
def stage : Asset → Nat
  | .opened (.thread _) | .opened (.attr _) | .opened .environment => 0
  | .opened (.queue _) | .bounce _ | .descriptor _ => 1
  | .opened .workers | .opened .words => 2
  | .buffer _ | .mapping _ => 3
  | .opened .device => 4
  | .opened .qpair => 5
  | .opened .connection => 6
  | .opened .descpath => 7
  | .opened .allocLock | .opened .submitLock | .opened .regLock => 8
  | .opened .driver => 9

/-- What is needed goes at a later stage. -/
theorem Needs.stage_lt {k needed : Asset} (needs : Needs k needed) : stage k < stage needed := by
  cases needs with
  | driver k other =>
      cases k with
      | opened r =>
          cases r with
          | driver => exact absurd rfl other
          | _ => simp [stage]
      | _ => simp [stage]
  | _ => simp [stage]

/-- The stages of the list rise from the first to the second one. -/
structure Staged (first last : Nat) (l : List Asset) : Prop where
  ordered : l.Pairwise fun k k' => stage k ≤ stage k'
  within : ∀ k ∈ l, first ≤ stage k ∧ stage k ≤ last

theorem Staged.const {n : Nat} {l : List Asset} (same : ∀ k ∈ l, stage k = n) : Staged n n l where
  ordered := List.pairwise_of_forall_mem_list fun k mem k' mem' => by rw [same k mem, same k' mem']
  within k mem := by rw [same k mem]; exact ⟨Nat.le_refl n, Nat.le_refl n⟩

/-- Something that is there or not. -/
theorem Staged.ite (p : Prop) [Decidable p] (k : Asset) :
    Staged (stage k) (stage k) (if p then [k] else []) :=
  .const fun k' mem => by
    split_ifs at mem
    · rw [List.mem_singleton.mp mem]
    · simp at mem

theorem Staged.append {first mid next last : Nat} {l l' : List Asset} (front : Staged first mid l)
    (back : Staged next last l') (le : mid ≤ next) (low : first ≤ mid) (high : next ≤ last) :
    Staged first last (l ++ l') where
  ordered := List.pairwise_append.mpr ⟨front.ordered, back.ordered, fun k mem k' mem' =>
    (front.within k mem).2.trans (le.trans (back.within k' mem').1)⟩
  within k mem := by
    rcases List.mem_append.mp mem with mem | mem
    · have := front.within k mem
      omega
    · have := back.within k mem
      omega

theorem workersTeardown_staged (d : OpenDriver) : Staged 0 2 d.workersTeardown := by
  unfold OpenDriver.workersTeardown
  split_ifs with idle
  · exact ⟨.nil, nofun⟩
  · have threads : Staged 0 0
        ((List.range d.state.nIoThreads).map fun i => Asset.opened (.thread i)) :=
      .const fun k mem => by
        obtain ⟨i, -, rfl⟩ := List.mem_map.mp mem
        rfl
    have streams : Staged 1 1 ((List.range d.streams.nStreams).flatMap fun n =>
        OpenDriver.streamBounce (d.streams.streams n)) :=
      .const fun k mem => by
        obtain ⟨n, -, here⟩ := List.mem_flatMap.mp mem
        rcases List.mem_append.mp here with here | here <;>
          obtain ⟨p, -, rfl⟩ := Option.map_eq_some_iff.mp (Option.mem_toList.mp here) <;> rfl
    have workers : Staged 1 1 ((List.range d.state.nIoThreads).flatMap fun i =>
        d.opBounces i ++ d.workerQueue i) :=
      .const fun k mem => by
        obtain ⟨i, -, here⟩ := List.mem_flatMap.mp mem
        rcases List.mem_append.mp here with here | here
        · obtain ⟨slot, -, here⟩ := List.mem_flatMap.mp here
          obtain ⟨p, -, rfl⟩ := Option.map_eq_some_iff.mp (Option.mem_toList.mp here)
          rfl
        · rw [d.mem_workerQueue here, stage]
    have rest : Staged 2 2 [Asset.opened .workers, .opened .words] :=
      .const fun k mem => by
        simp only [List.mem_cons, List.not_mem_nil, or_false] at mem
        rcases mem with rfl | rfl <;> rfl
    have drained := (threads.append streams (by decide) (by decide) (by decide)).append workers
      (by decide) (by decide) (by decide)
    exact drained.append rest (by decide) (by decide) (by decide)

/-- **The closing goes from the users to what they use.** -/
theorem closing_staged (d : OpenDriver) : Staged 0 9 d.closing := by
  have table : Staged 3 3
      ((List.range d.table.bufCount).map fun i => OpenDriver.entry (d.table.bufs i)) :=
    .const fun k mem => by
      obtain ⟨i, -, rfl⟩ := List.mem_map.mp mem
      unfold OpenDriver.entry
      split_ifs <;> rfl
  have device : Staged 4 4 (if d.state.xdev then [Asset.opened .device] else []) :=
    .ite _ (.opened .device)
  have path : Staged 7 7 (if d.state.attachDescpath then [Asset.opened .descpath] else []) :=
    .ite _ (.opened .descpath)
  have homi : Staged 5 6 [Asset.opened .qpair, .opened .connection] :=
    ⟨by simp [stage], by simp [stage]⟩
  have locks : Staged 8 9
      [Asset.opened .allocLock, .opened .submitLock, .opened .regLock, .opened .driver] :=
    ⟨by simp [stage], by simp [stage]⟩
  have buffers := ((workersTeardown_staged d).append table (by decide) (by decide) (by decide)).append
    device (by decide) (by decide) (by decide)
  have disconnected := (buffers.append homi (by decide) (by decide) (by decide)).append path
    (by decide) (by decide) (by decide)
  exact disconnected.append locks (by decide) (by decide) (by decide)

/-! ## Every session -/

/-- What holds of the log of a session. -/
structure Accounted (s : Session) : Prop where
  /-- Nothing is acquired twice or released twice. -/
  disciplined : Usage.Disciplined s.log
  /-- The closing of an open driver releases all that is held. -/
  listed : ∀ d, s.drv = some d → ∀ k, k ∈ d.closing ↔ k ∈ Usage.outstanding s.log
  /-- It releases each thing once. -/
  once : ∀ d, s.drv = some d → d.closing.Nodup
  /-- It releases nothing that something needs which it has not released yet. -/
  ordered : ∀ d, s.drv = some d → d.closing.Pairwise fun first later => ¬ Needs later first
  /-- Once the driver is closed, all that has been acquired has been released. -/
  balanced : s.drv = none → ∀ k, s.log.count (.acquire k) = s.log.count (.release k)

theorem SessionInv.accounted (inv : SessionInv s) : Accounted s where
  disciplined := inv.records.disciplined
  listed d opened k := by
    have records := inv.records
    rw [Session.closing_of_some opened] at records
    exact records.mem_iff
  once d opened := by
    have records := inv.records
    rw [Session.closing_of_some opened] at records
    exact Multiset.coe_nodup.mp records.nodup
  ordered d opened :=
    (closing_staged d).ordered.imp fun le needs => absurd needs.stage_lt (Nat.not_lt.mpr le)
  balanced closed := by
    have records := inv.records
    rw [Session.closing, closed] at records
    exact records.disciplined.balanced records.nothing

/-- **Nothing is lost and nothing is released twice in any session**: what an open driver would
release at its closing is what is held, each thing once and before what it needs, and a driver
that is closed has left nothing behind. -/
theorem session_accounted {calls : List SessionCall} {s : Session}
    (answers : driverSession.Meets Answers calls .initial)
    (ran : driverSession.run calls .initial = some s) : Accounted s :=
  (Machine.run_invariant (fun _ _ _ inv answers step => inv.step answers step) SessionInv.initial
    answers ran).accounted

/-- The test of what the environment answers. -/
def answersTest (s : Session) : SessionCall → Bool
  | .driverOpen a _ _ =>
    a.xnvmeDevOpen && a.geo.lbaSize != 0 && a.geo.lbaSize &&& (a.geo.lbaSize - 1) == 0
  | .driverClose => true
  | .buf (.alloc _ answer) => decide (.buffer answer ∉ Usage.outstanding s.log)
  | .buf _ => true
  | .streamRegister _ a =>
    (a.buf.all fun buf => decide (.bounce buf ∉ Usage.outstanding s.log)) &&
      a.desc.toOption.all fun desc => decide (.descriptor desc.1 ∉ Usage.outstanding s.log)
  | .opBounce _ _ answer => decide (.bounce answer ∉ Usage.outstanding s.log)

theorem answersTest_sound (s : Session) (c : SessionCall) (passes : answersTest s c = true) :
    Answers s c := by
  cases c with
  | driverOpen a words dptr =>
      simp only [answersTest, Bool.and_eq_true, bne_iff_ne, beq_iff_eq] at passes
      exact fun _ => ⟨passes.1.1, passes.1.2, passes.2⟩
  | driverClose => trivial
  | buf c =>
      cases c with
      | alloc size answer =>
          change .buffer answer ∉ Usage.outstanding s.log
          exact of_decide_eq_true passes
      | _ => trivial
  | streamRegister stream a =>
      simp only [answersTest, Bool.and_eq_true] at passes
      refine ⟨fun buf given => ?_, fun desc given => ?_⟩
      · have first := passes.1
        rw [given] at first
        exact of_decide_eq_true first
      · have second := passes.2
        rw [given] at second
        exact of_decide_eq_true second
  | opBounce i slot answer =>
      change .bounce answer ∉ Usage.outstanding s.log
      exact of_decide_eq_true passes

/-- Everything goes well. -/
def deviceThere : OpenAnswers := { deviceGone with xnvmeDevOpen := true }

/-- A session that allocates, maps, registers a stream and reads, and a second one. -/
def twoSessions : List SessionCall :=
  [.driverOpen deviceThere (fun _ => 0) 0, .buf (.alloc 16 4096), .buf (.register 64 16 0),
    .streamRegister 5 ⟨.ok (7, 7), some 8⟩, .opBounce 0 3 9, .buf (.free 4096), .driverClose,
    .driverOpen deviceThere (fun _ => 0) 0, .driverClose]

theorem session_accounted_twoSessions :
    Accounted ((driverSession.run twoSessions .initial).get (by decide)) :=
  session_accounted (Machine.meets_of_check answersTest_sound (by decide))
    (Option.some_get _).symm

end OpenDS.Driver
