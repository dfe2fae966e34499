import OpenDS.Common.DirectWrite
import OpenDS.Library.ResourceLog

/-!
# Opening the driver

`opends_driver_open` acquires what the driver needs one after the other: the locks, the
connection to HOMI, its queue pairs, the device, the words of the streams, and a queue and a
thread for each worker. Where a step fails, three functions unwind what has been acquired so
far, each its own part.

Where the device does not open, or has a block size that the driver cannot use, the queue
pairs stay attached. At every other failure nothing is left behind (`failedOpen_iff`).
-/

set_option autoImplicit false

namespace OpenDS.Driver

open OpenDS.Library
open OpenDS.Common (eio)

/-! ## The code -/

/-- What an open acquires. -/
inductive Resource where
  /-- The `struct driver`. -/
  | driver
  | submitLock
  | regLock
  | allocLock
  /-- The connection to HOMI. -/
  | connection
  /-- The queue pairs that HOMI has attached. -/
  | qpair
  /-- The path of the attach descriptor. -/
  | descpath
  /-- `XNVME_UPCIE_ATTACH` in the environment. -/
  | environment
  | device
  /-- The mapped words of the streams. -/
  | words
  /-- The array of the workers. -/
  | workers
  | queue (i : Nat)
  | attr (i : Nat)
  | thread (i : Nat)
  deriving DecidableEq, Repr

/-- What has been acquired and released, the latest first. -/
abbrev OpenLog := List (Usage Resource)

/-- `struct xnvme_geo` -/
structure XnvmeGeo where
  lbaNbytes : Nat
  nbytes : Nat
  mdtsNbytes : Nat

/-- What `read_env_config` has found. -/
structure EnvConfig where
  nIoThreads : Nat
  cpuMask : Nat

/-- What the calls of an open answer. -/
structure OpenAnswers where
  /-- The environment names a device. -/
  homiDev : Bool
  /-- `calloc` has room for the driver. -/
  calloc : Bool
  /-- `none` if `read_env_config` refuses. -/
  readEnvConfig : Option EnvConfig
  homicConnect : Int
  homicAttachQpair : Int
  /-- `homic_attach_qpair` has handed out a path. -/
  descpath : Bool
  xnvmeDevOpen : Bool
  geo : XnvmeGeo
  ctxGet : Int
  hostAllocMapped : Int
  /-- `calloc` has room for the workers. -/
  callocWorkers : Bool
  xnvmeQueueInit : Nat → Int
  pthreadCreate : Nat → Int

/-- What `struct driver` has of an open. A worker has its `queue` where the flag is set. -/
structure DriverState where
  attachDescpath : Bool
  xdev : Bool
  lbaSize : Nat
  lbaShift : Nat
  mdtsNbytes : Nat
  nIoThreads : Nat
  cpuMask : Nat
  streamWordsHost : Bool
  workers : Option (Nat → Bool)
  stop : Bool
  workersReady : Bool

/-- The errors of `opends_driver_open`. -/
inductive OpenError where
  | driverAlreadyOpen
  | fsSetupError
  | internalError
  | deviceNotFound
  | deviceDriverError (devErr : Int)
  deriving DecidableEq, Repr

/-- `DEFAULT_BOUNCE_SIZE` -/
def defaultBounceSize : Nat := 131072

variable (a : OpenAnswers)

/-- The block size that `open_device` takes from the geometry. -/
def XnvmeGeo.lbaSize (geo : XnvmeGeo) : Nat :=
  if geo.lbaNbytes ≠ 0 then geo.lbaNbytes else geo.nbytes

/-- `open_device` -/
def openDevice (d : DriverState) (log : OpenLog) : DriverState × OpenLog × Int :=
  let d := { d with attachDescpath := a.descpath }
  let log := if a.descpath then .acquire .descpath :: log else log
  if a.homicAttachQpair < 0 then (d, log, a.homicAttachQpair)
  else
    let log := .acquire .environment :: .acquire .qpair :: log
    let log := if a.xnvmeDevOpen then .acquire .device :: log else log
    let log := .release .environment :: log
    let d := { d with xdev := a.xnvmeDevOpen }
    if a.xnvmeDevOpen = false then (d, log, -eio)
    else
      let d :=
        { d with
          lbaSize := a.geo.lbaSize
          mdtsNbytes := if a.geo.mdtsNbytes ≠ 0 then a.geo.mdtsNbytes else defaultBounceSize }
      if d.lbaSize = 0 then ({ d with xdev := false }, .release .device :: log, -eio)
      else if d.lbaSize &&& (d.lbaSize - 1) ≠ 0 then
        ({ d with xdev := false }, .release .device :: log, -eio)
      else ({ d with lbaShift := d.lbaSize.log2 }, log, 0)

/-- `pthread_create` for the worker, with the attributes it is given. -/
def createThread (masked : Bool) (i : Nat) (log : OpenLog) : OpenLog :=
  let log := if masked then .acquire (.attr i) :: log else log
  let log := if a.pthreadCreate i = 0 then .acquire (.thread i) :: log else log
  if masked then .release (.attr i) :: log else log

/-- The loop of `workers_setup` over the last `n` workers, from `i` on: the queues, the log,
how many workers have been started, and whether all have. -/
def startWorkers (masked : Bool) : (n i : Nat) → (Nat → Bool) → OpenLog →
    (Nat → Bool) × OpenLog × Nat × Bool
  | 0, i, queues, log => (queues, log, i, true)
  | n + 1, i, queues, log =>
    if a.xnvmeQueueInit i < 0 then (Function.update queues i false, log, i, false)
    else
      let queues := Function.update queues i true
      let log := createThread a masked i (.acquire (.queue i) :: log)
      if a.pthreadCreate i ≠ 0 then
        (Function.update queues i false, .release (.queue i) :: log, i, false)
      else startWorkers masked n (i + 1) queues log

/-- The loop at `fail` that joins the last `n` threads, from `i` on. They end, as `stop` is
set and they have been given nothing to do. -/
def joinWorkers : (n i : Nat) → OpenLog → OpenLog
  | 0, _, log => log
  | n + 1, i, log => joinWorkers n (i + 1) (.release (.thread i) :: log)

/-- The loop at `fail` that terminates the queues of the last `n` workers, from `i` on. -/
def termQueues (queues : Nat → Bool) : (n i : Nat) → OpenLog → OpenLog
  | 0, _, log => log
  | n + 1, i, log => termQueues queues n (i + 1) (if queues i then .release (.queue i) :: log else log)

/-- `workers_setup` -/
def workersSetup (d : DriverState) (log : OpenLog) : DriverState × OpenLog × Int :=
  if a.ctxGet ≠ 0 then (d, log, a.ctxGet)
  else if a.hostAllocMapped ≠ 0 then (d, log, a.hostAllocMapped)
  else
    let d := { d with streamWordsHost := true }
    let log := .acquire .words :: log
    if a.callocWorkers = false then
      ({ d with streamWordsHost := false }, .release .words :: log, -1)
    else
      let (queues, log, started, all) :=
        startWorkers a (d.cpuMask != 0) d.nIoThreads 0 (fun _ => false) (.acquire .workers :: log)
      if all then ({ d with workers := some queues, stop := false, workersReady := true }, log, 0)
      else
        let log := termQueues queues d.nIoThreads 0 (joinWorkers started 0 log)
        ({ d with workers := none, stop := true, streamWordsHost := false },
          .release .words :: .release .workers :: log, -1)

/-- The global `drv` and the log. -/
structure DriverProcess where
  drv : Option DriverState
  log : OpenLog

/-- The locks are destroyed and the driver is freed. -/
def freeDriver (log : OpenLog) : OpenLog :=
  .release .driver :: .release .regLock :: .release .submitLock :: .release .allocLock :: log

/-- `free(d->attach_descpath)` -/
def freeDescpath (d : DriverState) (log : OpenLog) : OpenLog :=
  if d.attachDescpath then .release .descpath :: log else log

/-- The driver that `calloc` returns, with its configuration. -/
def DriverState.configured (c : EnvConfig) : DriverState where
  attachDescpath := false
  xdev := false
  lbaSize := 0
  lbaShift := 0
  mdtsNbytes := 0
  nIoThreads := c.nIoThreads
  cpuMask := c.cpuMask
  streamWordsHost := false
  workers := none
  stop := false
  workersReady := false

/-- `opends_driver_open` -/
def opendsDriverOpen (s : DriverProcess) : DriverProcess × Except OpenError Unit :=
  if s.drv.isSome then (s, .error .driverAlreadyOpen)
  else if a.homiDev = false then (s, .error .fsSetupError)
  else if a.calloc = false then (s, .error .internalError)
  else
    let log := .acquire .driver :: s.log
    match a.readEnvConfig with
    | none => (⟨none, .release .driver :: log⟩, .error .fsSetupError)
    | some config =>
      let d := DriverState.configured config
      let log := .acquire .allocLock :: .acquire .regLock :: .acquire .submitLock :: log
      if a.homicConnect < 0 then (⟨none, freeDriver log⟩, .error .fsSetupError)
      else
        let (d, log, orc) := openDevice a d (.acquire .connection :: log)
        if orc < 0 then
          (⟨none, freeDriver (freeDescpath d (.release .connection :: log))⟩, .error .deviceNotFound)
        else
          let (d, log, arc) := workersSetup a d log
          if arc ≠ 0 then
            (⟨none, freeDriver (freeDescpath d (.release .connection :: .release .qpair ::
              .release .device :: log))⟩, .error (.deviceDriverError arc))
          else (⟨some d, log⟩, .ok ())

/-! ## The claim -/

/-- Everything that the call has acquired has been released once, and there is no driver. -/
structure LeavesNothing (s : DriverProcess) : Prop where
  drv : s.drv = none
  disciplined : Usage.Disciplined s.log
  once : ∀ k, s.log.count (.acquire k) ≤ 1
  released : ∀ k, s.log.count (.release k) = s.log.count (.acquire k)

/-- A failed open leaves nothing behind. -/
def FailsClean : Prop :=
  (opendsDriverOpen a ⟨none, []⟩).2 ≠ .ok () → LeavesNothing (opendsDriverOpen a ⟨none, []⟩).1

/-- HOMI has attached queue pairs. -/
def Attaches : Prop :=
  a.homiDev = true ∧ a.calloc = true ∧ a.readEnvConfig ≠ none ∧ 0 ≤ a.homicConnect ∧
    0 ≤ a.homicAttachQpair

/-- The device opens with a block size that is a power of two. -/
def Usable : Prop :=
  a.xnvmeDevOpen = true ∧ a.geo.lbaSize ≠ 0 ∧ a.geo.lbaSize &&& (a.geo.lbaSize - 1) = 0

/-! ## What is held -/

variable {a} {held used : Set Resource} {log : OpenLog}

/-- What `freeDriver` releases. -/
def locked : Set Resource := {.driver, .submitLock, .regLock, .allocLock}

/-- The path, if there is one. -/
def pathSet (descpath : Bool) : Set Resource := {k | k = .descpath ∧ descpath = true}

/-- What does not belong to the workers. -/
def outside : Set Resource := {k | match k with
  | .words | .workers | .queue _ | .attr _ | .thread _ => False
  | _ => True}

/-- The threads from `i` on and the queues from `j` on, of those that have been started. -/
def working (started i j : Nat) : Set Resource := {k | match k with
  | .thread m => i ≤ m ∧ m < started
  | .queue m => j ≤ m ∧ m < started
  | _ => False}

/-- What the first `i` workers have acquired. -/
def startedBy (i : Nat) : Set Resource := {k | match k with
  | .thread m | .queue m | .attr m => m < i
  | _ => False}

/-- The driver has been allocated. -/
theorem driver_once : Usage.Once {Resource.driver} {Resource.driver} [.acquire .driver] := by
  simpa using Usage.Once.nil.acquire (Set.notMem_empty Resource.driver)

/-- The locks have been made. -/
theorem locked_once : Usage.Once locked locked
    [.acquire .allocLock, .acquire .regLock, .acquire .submitLock, .acquire .driver] := by
  have all := ((driver_once.acquire (k := .submitLock) (by simp)).acquire (k := .regLock)
    (by simp)).acquire (k := .allocLock) (by simp)
  refine (all.congr fun k => ?_).mono fun k => ?_ <;> simp [locked] <;> tauto

theorem freeDriver_spec (once : Usage.Once held used log) (owned : locked ⊆ held) :
    Usage.Once (held \ locked) used (freeDriver log) := by
  have all : Resource.driver ∈ held ∧ Resource.submitLock ∈ held ∧ Resource.regLock ∈ held ∧
      Resource.allocLock ∈ held := by
    refine ⟨owned ?_, owned ?_, owned ?_, owned ?_⟩ <;> simp [locked]
  obtain ⟨driver, submit, reg, alloc⟩ := all
  have released := (((once.release alloc).release (k := .submitLock) (by simp [submit])).release
    (k := .regLock) (by simp [reg])).release (k := .driver) (by simp [driver])
  refine released.congr fun k => ?_
  simp only [locked, Set.mem_sdiff, Set.mem_singleton_iff, Set.mem_insert_iff, not_or]
  tauto

theorem freeDescpath_spec {d : DriverState} (none : .descpath ∉ held)
    (once : Usage.Once (held ∪ pathSet d.attachDescpath) used log) :
    Usage.Once held used (freeDescpath d log) := by
  unfold freeDescpath
  cases path : d.attachDescpath with
  | false =>
      rw [path] at once
      exact once.congr fun k => by simp [pathSet]
  | true =>
      rw [path] at once
      refine Usage.Once.undo (once.congr fun k => ?_) none
      simp [pathSet]

/-! ## The device -/

theorem acquireDescpath_spec (once : Usage.Once held used log) (path : .descpath ∉ used) :
    Usage.Once (held ∪ pathSet a.descpath) (used ∪ {.descpath})
      (if a.descpath then .acquire .descpath :: log else log) := by
  cases given : a.descpath with
  | false => exact (once.congr fun k => by simp [pathSet]).mono Set.subset_union_left
  | true =>
      refine ((once.acquire path).congr fun k => ?_).mono fun k => ?_
      · simp [pathSet]
      · simp

/-- **What `open_device` leaves**: the path, the queue pairs if they have been attached, and
the device if it can be used. -/
theorem openDevice_spec (d : DriverState) (once : Usage.Once held used log)
    (path : .descpath ∉ used) (qpair : .qpair ∉ used) (environment : .environment ∉ used)
    (device : .device ∉ used) :
    (openDevice a d log).1.attachDescpath = a.descpath ∧
      ((a.homicAttachQpair < 0 ∧ (openDevice a d log).2.2 < 0 ∧
          Usage.Once (held ∪ pathSet a.descpath) (used ∪ {.descpath}) (openDevice a d log).2.1) ∨
        (0 ≤ a.homicAttachQpair ∧ ¬ Usable a ∧ (openDevice a d log).2.2 < 0 ∧
          Usage.Once (insert .qpair (held ∪ pathSet a.descpath))
            (used ∪ {.descpath, .qpair, .environment, .device}) (openDevice a d log).2.1) ∨
        (0 ≤ a.homicAttachQpair ∧ Usable a ∧ (openDevice a d log).2.2 = 0 ∧
          Usage.Once (insert .device (insert .qpair (held ∪ pathSet a.descpath)))
            (used ∪ {.descpath, .qpair, .environment, .device}) (openDevice a d log).2.1)) := by
  have found := acquireDescpath_spec (a := a) once path
  by_cases attached : a.homicAttachQpair < 0
  · refine ⟨by simp [openDevice, attached], .inl ⟨attached, ?_⟩⟩
    simpa [openDevice, attached] using found
  · have within := found.subset
    have asked := (found.acquire (k := .qpair) (by simp [qpair])).acquire (k := .environment)
      (by simp [environment])
    cases opens : a.xnvmeDevOpen with
    | false =>
        have closed := asked.undo fun mem => by
          rcases Set.mem_insert_iff.mp mem with same | mem
          · cases same
          · simpa [environment] using within mem
        refine ⟨by simp [openDevice, attached, opens], .inr (.inl ⟨by omega, ?_, ?_, ?_⟩)⟩
        · simp [Usable, opens]
        · simp [openDevice, attached, opens, eio]
        · simpa [openDevice, attached, opens] using closed.mono fun k => by simp; tauto
    | true =>
        have opened := (asked.acquire (k := .device) (by simp [device])).release
          (k := .environment) (by simp)
        have kept : Usage.Once (insert .device (insert .qpair (held ∪ pathSet a.descpath)))
            (used ∪ {.descpath, .qpair, .environment, .device}) _ := (opened.congr fun k => by
          have : k ∈ held ∪ pathSet a.descpath → k ≠ .environment := by
            rintro mem rfl
            simpa [environment] using within mem
          cases k <;> (simp at this ⊢; try tauto)).mono fun k => by simp; tauto
        have lost := kept.undo fun mem => by
          rcases Set.mem_insert_iff.mp mem with same | mem
          · cases same
          · simpa [device] using within mem
        by_cases zero : a.geo.lbaSize = 0
        · refine ⟨by simp [openDevice, attached, opens, zero], .inr (.inl ⟨by omega, ?_, ?_, ?_⟩)⟩
          · simp [Usable, zero]
          · simp [openDevice, attached, opens, zero, eio]
          · simpa [openDevice, attached, opens, zero] using lost
        · by_cases power : a.geo.lbaSize &&& (a.geo.lbaSize - 1) = 0
          · refine ⟨by simp [openDevice, attached, opens, zero, power],
              .inr (.inr ⟨by omega, ⟨opens, zero, power⟩, ?_, ?_⟩)⟩
            · simp [openDevice, attached, opens, zero, power]
            · simpa [openDevice, attached, opens, zero, power] using kept
          · refine ⟨by simp [openDevice, attached, opens, zero, power],
              .inr (.inl ⟨by omega, ?_, ?_, ?_⟩)⟩
            · simp [Usable, power]
            · simp [openDevice, attached, opens, zero, power, eio]
            · simpa [openDevice, attached, opens, zero, power] using lost

/-! ## The workers -/

variable {masked : Bool} {i j n started : Nat} {queues : Nat → Bool}

theorem createThread_spec (masked : Bool) (once : Usage.Once held used log) (attr : .attr i ∉ used)
    (thread : .thread i ∉ used) :
    Usage.Once (if a.pthreadCreate i = 0 then insert (.thread i) held else held)
      (used ∪ {.attr i, .thread i}) (createThread a masked i log) := by
  have absent : Resource.attr i ∉ held := fun mem => attr (once.subset mem)
  cases masked with
  | false =>
      by_cases created : a.pthreadCreate i = 0
      · simpa [createThread, created] using (once.acquire thread).mono fun k => by simp; tauto
      · have same : Usage.Once held (used ∪ {.attr i, .thread i}) log :=
          once.mono Set.subset_union_left
        simpa [createThread, created] using same
  | true =>
      have given := once.acquire attr
      by_cases created : a.pthreadCreate i = 0
      · have both := (given.acquire (k := .thread i) (by simp [thread])).release (k := .attr i)
          (by simp)
        have last : Usage.Once (insert (.thread i) held) _ _ := both.congr fun k => by
          have : k ∈ held → k ≠ .attr i := by
            rintro mem rfl
            exact absent mem
          simp only [Set.mem_sdiff, Set.mem_insert_iff, Set.mem_singleton_iff]
          constructor
          · tauto
          · rintro (rfl | mem)
            · simp
            · exact ⟨.inr (.inr mem), this mem⟩
        simpa [createThread, created] using last.mono fun k => by simp; tauto
      · simpa [createThread, created] using (given.undo absent).mono fun k => by simp; tauto

/-- What the loop keeps: the queues and the threads of the workers that it has come past. -/
structure Started (held used : Set Resource) (i : Nat) (queues : Nat → Bool) (log : OpenLog) :
    Prop where
  once : Usage.Once (held ∪ working i 0 0) (used ∪ startedBy i) log
  queues : ∀ j, queues j = true ↔ j < i

/-- No worker has been given anything. -/
def Unstarted (used : Set Resource) : Prop :=
  ∀ j, .queue j ∉ used ∧ .attr j ∉ used ∧ .thread j ∉ used

/-- One more worker is started. -/
theorem Started.next (start : Started held used i queues log) (unstarted : Unstarted used)
    (masked : Bool) (created : a.pthreadCreate i = 0) :
    Started held used (i + 1) (Function.update queues i true)
      (createThread a masked i (.acquire (.queue i) :: log)) := by
  obtain ⟨queue, attr, thread⟩ := unstarted i
  have fresh : Resource.queue i ∉ used ∪ startedBy i := by simp [startedBy, queue]
  have begun := createThread_spec (a := a) (i := i) masked (start.once.acquire fresh)
    (by simp [startedBy, attr]) (by simp [startedBy, thread])
  rw [if_pos created] at begun
  refine ⟨(begun.congr fun k => ?_).mono fun k => ?_, fun j => ?_⟩
  · cases k <;> simp [working] <;> grind
  · cases k <;> simp [startedBy] <;> grind
  · by_cases same : j = i
    · subst same
      simp
    · simp [same, start.queues j]
      omega

/-- **The loop of `workers_setup`** has started some workers, all of them or not. -/
theorem startWorkers_spec (unstarted : Unstarted used) (start : Started held used i queues log)
    {out : (Nat → Bool) × OpenLog × Nat × Bool}
    (eq : startWorkers a masked n i queues log = out) (failed : out.2.2.2 = false) :
    out.2.2.1 ≤ i + n ∧ (∀ j, out.1 j = true ↔ j < out.2.2.1) ∧
      ∃ used', Usage.Once (held ∪ working out.2.2.1 0 0) used' out.2.1 := by
  induction n generalizing i queues log with
  | zero =>
      cases eq
      cases failed
  | succ n ih =>
      obtain ⟨queue, attr, thread⟩ := unstarted i
      have cleared : ∀ j, Function.update queues i false j = true ↔ j < i := by
        intro j
        by_cases same : j = i
        · subst same
          simp
        · simp [same, start.queues j]
      rw [startWorkers] at eq
      by_cases refused : a.xnvmeQueueInit i < 0
      · rw [if_pos refused] at eq
        cases eq
        exact ⟨Nat.le_add_right .., cleared, _, start.once⟩
      · rw [if_neg refused] at eq
        have fresh : Resource.queue i ∉ used ∪ startedBy i := by simp [startedBy, queue]
        have absent : Resource.queue i ∉ held ∪ working i 0 0 := fun mem =>
          fresh (start.once.subset mem)
        have begun := createThread_spec (a := a) (i := i) masked (start.once.acquire fresh)
          (by simp [startedBy, attr]) (by simp [startedBy, thread])
        by_cases created : a.pthreadCreate i = 0
        · rw [if_neg (not_not.mpr created)] at eq
          obtain ⟨le, rest⟩ := ih (start.next unstarted masked created) eq
          exact ⟨by omega, rest⟩
        · rw [if_neg created] at begun
          rw [if_pos created] at eq
          cases eq
          refine ⟨Nat.le_add_right .., fun j => ?_, _, begun.undo absent⟩
          simpa using cleared j

/-! ## The unwinding -/

theorem joinWorkers_spec (none : ∀ j, .thread j ∉ held)
    (once : Usage.Once (held ∪ working started i 0) used log) (all : i + n = started) :
    Usage.Once (held ∪ working started started 0) used (joinWorkers n i log) := by
  induction n generalizing i log with
  | zero =>
      cases all
      exact once
  | succ n ih =>
      have joined := once.release (k := .thread i) (by simp [working]; omega)
      refine ih (joined.congr fun k => ?_) (by omega)
      have := none i
      cases k <;> simp [working]
      grind

theorem termQueues_spec (none : ∀ j, .queue j ∉ held) (has : ∀ j, queues j = true ↔ j < started)
    (once : Usage.Once (held ∪ working started started i) used log) (all : started ≤ i + n) :
    Usage.Once held used (termQueues queues n i log) := by
  induction n generalizing i log with
  | zero =>
      refine once.congr fun k => ?_
      cases k <;> simp [working]
      grind
  | succ n ih =>
      rw [termQueues]
      have := none i
      by_cases queued : queues i = true
      · have low := (has i).mp queued
        have ended := once.release (k := .queue i) (by simp [working]; omega)
        rw [if_pos queued]
        refine ih (ended.congr fun k => ?_) (by omega)
        cases k <;> simp [working]
        grind
      · have past := mt (has i).mpr queued
        rw [if_neg queued]
        refine ih (once.congr fun k => ?_) (by omega)
        cases k <;> simp [working]
        grind

/-- **Where `workers_setup` fails** it has released what it has acquired. -/
theorem workersSetup_spec (d : DriverState) (once : Usage.Once held used log)
    (unstarted : Unstarted used) (words : .words ∉ used) (workers : .workers ∉ used)
    {out : DriverState × OpenLog × Int} (eq : workersSetup a d log = out) (failed : out.2.2 ≠ 0) :
    out.1.attachDescpath = d.attachDescpath ∧ ∃ used', Usage.Once held used' out.2.1 := by
  have free : ∀ k, k ∉ used → k ∉ held := fun k new mem => new (once.subset mem)
  unfold workersSetup at eq
  split at eq
  · cases eq
    exact ⟨rfl, used, once⟩
  · split at eq
    · cases eq
      exact ⟨rfl, used, once⟩
    · have mapped := once.acquire words
      split at eq
      · cases eq
        exact ⟨rfl, _, mapped.undo (free _ words)⟩
      · have array := mapped.acquire (k := .workers) (by simp [workers])
        have start : Started (insert .workers (insert .words held))
            (insert .workers (insert .words used)) 0 (fun _ => false)
            (.acquire .workers :: .acquire .words :: log) := by
          refine ⟨(array.congr fun k => ?_).mono Set.subset_union_left, fun j => by simp⟩
          cases k <;> simp [working]
        have outer : Unstarted (insert .workers (insert .words used)) := by
          intro j
          simpa using unstarted j
        rcases loop : startWorkers a (d.cpuMask != 0) d.nIoThreads 0 (fun _ => false)
          (.acquire .workers :: .acquire .words :: log) with ⟨queues, log', started, all⟩
        simp only [loop] at eq
        cases all with
        | true =>
          cases eq
          exact absurd rfl failed
        | false =>
          obtain ⟨le, has, used', stopped⟩ := startWorkers_spec outer start loop rfl
          have joined := joinWorkers_spec (fun j => by simpa using free _ (unstarted j).2.2) stopped
            (Nat.zero_add started)
          have ended := termQueues_spec (n := d.nIoThreads) (fun j => by simpa using free _ (unstarted j).1)
            has joined le
          cases eq
          refine ⟨rfl, used', (ended.undo ?_).undo (free _ words)⟩
          simpa using free _ workers

/-! ## Every failure -/

/-- The end of every failure past the connection. -/
theorem disconnect_spec {d : DriverState} (rest : held ⊆ {.qpair})
    (once : Usage.Once (held ∪ (insert .connection locked ∪ pathSet d.attachDescpath)) used log) :
    Usage.Once held used (freeDriver (freeDescpath d (.release .connection :: log))) := by
  have only : ∀ k, k ∈ held → k = .qpair := fun k mem => rest mem
  have disconnected := once.release (k := .connection) (by simp)
  have pathless : Usage.Once (held ∪ locked) used (freeDescpath d (.release .connection :: log)) := by
    refine freeDescpath_spec ?_ (disconnected.congr fun k => ?_)
    · simp only [Set.mem_union, locked]
      rintro (mem | mem)
      · cases only _ mem
      · simp at mem
    · have := only k
      cases k <;> simp [locked, pathSet] at this ⊢
      tauto
  refine (freeDriver_spec pathless Set.subset_union_right).congr fun k => ?_
  have := only k
  cases k <;> simp [locked] at this ⊢ <;> exact this

/-- How an open ends. -/
inductive OpenOutcome (a : OpenAnswers) : DriverProcess × Except OpenError Unit → Prop where
  | opened (s : DriverProcess) : Usable a → OpenOutcome a (s, .ok ())
  | undone (used : Set Resource) (log : OpenLog) (e : OpenError) : (Attaches a → Usable a) →
      Usage.Once ∅ used log → OpenOutcome a (⟨none, log⟩, .error e)
  | attached (used : Set Resource) (log : OpenLog) (e : OpenError) : Attaches a → ¬ Usable a →
      Usage.Once {.qpair} used log → OpenOutcome a (⟨none, log⟩, .error e)

theorem openOutcome (a : OpenAnswers) : OpenOutcome a (opendsDriverOpen a ⟨none, []⟩) := by
  unfold opendsDriverOpen
  split
  · rename_i open'
    cases open'
  split
  · rename_i unnamed
    exact .undone _ _ _ (fun attaches => absurd attaches.1 (by simp [unnamed])) .nil
  split
  · rename_i full
    exact .undone _ _ _ (fun attaches => absurd attaches.2.1 (by simp [full])) .nil
  have driver := driver_once
  split
  · rename_i refused
    exact .undone _ _ _ (fun attaches => absurd refused attaches.2.2.1)
      ((driver.congr fun k => by simp).undo (Set.notMem_empty _))
  rename_i config read
  have locks := locked_once
  split
  · rename_i refused
    refine .undone _ _ _ (fun attaches => absurd attaches.2.2.2.1 (by omega))
      ((freeDriver_spec locks Set.Subset.rfl).congr fun k => by simp)
  rename_i connected
  have connection := locks.acquire (k := .connection) (by simp [locked])
  rcases opens : openDevice a (.configured config) (.acquire .connection ::
    [.acquire .allocLock, .acquire .regLock, .acquire .submitLock, .acquire .driver])
    with ⟨d, log, orc⟩
  have device := openDevice_spec (a := a) (.configured config) connection (by simp [locked])
    (by simp [locked]) (by simp [locked]) (by simp [locked])
  simp only [opens] at device ⊢
  obtain ⟨path, ⟨refused, failed, once⟩ | ⟨attached, unusable, failed, once⟩ |
    ⟨attached, usable, worked, once⟩⟩ := device
  · rw [if_pos failed]
    refine .undone _ _ _ (fun attaches => absurd attaches.2.2.2.2 (by omega))
      (disconnect_spec (Set.empty_subset _) (once.congr fun k => ?_))
    simp [path]
  · rw [if_pos failed]
    have attaches : Attaches a := ⟨by simpa using ‹¬ a.homiDev = false›,
      by simpa using ‹¬ a.calloc = false›, by simp [read], by omega, attached⟩
    refine .attached _ _ _ attaches unusable
      (disconnect_spec Set.Subset.rfl (once.congr fun k => ?_))
    simp [path]
  · rw [if_neg (by omega)]
    rcases set : workersSetup a d log with ⟨d', log', arc⟩
    dsimp only
    split
    · rename_i failed
      have unstarted : Unstarted (insert .connection locked ∪
          {.descpath, .qpair, .environment, .device}) := by
        intro j
        simp [locked]
      obtain ⟨path', used', undone⟩ := workersSetup_spec d once unstarted (by simp [locked])
        (by simp [locked]) set failed
      dsimp only at path' undone
      have closed := (undone.undo ?_).undo ?_
      · refine .undone _ _ _ (fun _ => usable)
          (disconnect_spec (Set.empty_subset _) (closed.congr fun k => ?_))
        simp [path, path']
      · simp [locked, pathSet]
      · simp [locked, pathSet]
    · exact .opened _ usable

theorem LeavesNothing.of_once (once : Usage.Once ∅ used log) : LeavesNothing ⟨none, log⟩ := by
  have nothing : Usage.outstanding log = ∅ := by
    refine Finset.eq_empty_of_forall_notMem fun k mem => ?_
    exact absurd ((once.held k).mp mem) (Set.notMem_empty k)
  exact ⟨rfl, once.disciplined, once.once, fun k =>
    (once.disciplined.balanced nothing k).symm⟩

theorem not_leavesNothing_of_once {k : Resource} (once : Usage.Once held used log)
    (mem : k ∈ held) : ¬ LeavesNothing ⟨none, log⟩ := by
  intro clean
  have count := once.disciplined.count k
  have released : log.count (.release k) = log.count (.acquire k) := clean.released k
  rw [if_pos ((once.held k).mpr mem)] at count
  omega

/-- **A failed open leaves nothing behind, unless HOMI has attached queue pairs and the device
cannot be used.** -/
theorem failedOpen_iff (a : OpenAnswers) : FailsClean a ↔ (Attaches a → Usable a) := by
  unfold FailsClean
  have outcome := openOutcome a
  generalize opendsDriverOpen a ⟨none, []⟩ = out at outcome
  cases outcome with
  | opened s usable => exact ⟨fun _ _ => usable, fun _ failed => absurd rfl failed⟩
  | undone used log e condition once =>
      exact ⟨fun _ => condition, fun _ _ => LeavesNothing.of_once once⟩
  | attached used log e attaches unusable once =>
      refine ⟨fun clean => ?_, fun condition => absurd (condition attaches) unusable⟩
      exact absurd (clean nofun) (not_leavesNothing_of_once once (Set.mem_singleton _))

/-- Everything goes well but that the device does not open. -/
def deviceGone : OpenAnswers where
  homiDev := true
  calloc := true
  readEnvConfig := some ⟨1, 0⟩
  homicConnect := 0
  homicAttachQpair := 0
  descpath := true
  xnvmeDevOpen := false
  geo := ⟨4096, 4096, 131072⟩
  ctxGet := 0
  hostAllocMapped := 0
  callocWorkers := true
  xnvmeQueueInit _ := 0
  pthreadCreate _ := 0

/-- **Where the device does not open, the queue pairs stay attached.** -/
theorem unopened_device_keeps_qpairs : ¬ ∀ a, FailsClean a := by
  intro all
  have clean := all deviceGone (by decide)
  exact absurd (clean.released .qpair) (by decide)

end OpenDS.Driver
