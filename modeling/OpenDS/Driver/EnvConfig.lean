import OpenDS.Driver.DriverOpen
import OpenDS.Library.Numeral

/-!
# The configuration of the driver

`read_env_config` takes the number of the workers and the other settings from the environment.
It accepts exactly what is spelled as a number in range, and then has the numbers that the
variables spell (`readEnvConfig_eq_some_iff`).

`workers_setup` pins the workers to the CPUs of a mask, one after the other. Each is on a CPU of
the mask, and the CPUs have as many workers as each other, give or take one
(`workers_share_mask`).
-/

set_option autoImplicit false

namespace OpenDS.Driver

open OpenDS.Library

/-! ## The code -/

/-- `DEFAULT_IO_THREADS` -/
def defaultIoThreads : Int := 2

/-- `MAX_IO_THREADS` -/
def maxIoThreads : Int := 15

/-- `DEFAULT_QUEUE_DEPTH` -/
def defaultQueueDepth : Int := 8

/-- `MAX_QUEUE_DEPTH` -/
def maxQueueDepth : Int := 4096

/-- `DEFAULT_IDLE_SPIN_US` -/
def defaultIdleSpinUs : Int := 200

/-- `MAX_IDLE_SPIN_US` -/
def maxIdleSpinUs : Int := 1000000

/-- `env_int`, with what `getenv` returns. `none` is `-EINVAL`. -/
def envInt (v : Option (List Char)) (default' lo hi : Int) : Option Int :=
  match v with
  | none => some default'
  | some v =>
    if v = [] then some default'
    else
      let out := strtol v
      if out.2 = v ∨ out.2 ≠ [] then none
      else if out.1 < lo ∨ hi < out.1 then none
      else some out.1

/-- The variables that `read_env_config` looks up. -/
structure Environment where
  ioThreads : Option (List Char)
  queueDepth : Option (List Char)
  idleSpin : Option (List Char)
  cpuMask : Option (List Char)
  assumeAlignedOnly : Option (List Char)

/-- The operations of `ds_accel` that may be missing. -/
structure AccelOps where
  launchHostFunc : Bool
  streamWriteValue32 : Bool
  streamWaitValue32Geq : Bool

/-- What `read_env_config` stores in the driver. -/
structure Settings where
  nIoThreads : Int
  queueDepth : UInt32
  busySpin : Bool
  idleSpinUs : UInt32
  cpuMask : UInt64
  assumeAlignedOnly : Bool

/-- `mask && mask[0] ? strtoull(mask, NULL, 0) : 0` -/
def maskOf (mask : Option (List Char)) : UInt64 :=
  match mask with
  | some (c :: rest) => strtoull (c :: rest)
  | _ => 0

/-- `aligned && aligned[0] && aligned[0] != '0'` -/
def isSet (aligned : Option (List Char)) : Bool :=
  match aligned with
  | some (c :: _) => c != '0'
  | _ => false

/-- `spin && !strcmp(spin, "busy")` -/
def isBusy (spin : Option (List Char)) : Bool := spin == some ['b', 'u', 's', 'y']

/-- `read_env_config` -/
def readEnvConfig (env : Environment) (ops : AccelOps) : Option Settings :=
  match envInt env.ioThreads defaultIoThreads 1 maxIoThreads with
  | none => none
  | some nIoThreads =>
    match envInt env.queueDepth defaultQueueDepth 1 maxQueueDepth with
    | none => none
    | some queueDepth =>
      let busySpin := isBusy env.idleSpin
      let spin := if busySpin then some defaultIdleSpinUs
        else envInt env.idleSpin defaultIdleSpinUs 0 maxIdleSpinUs
      match spin with
      | none => none
      | some idleSpinUs =>
        let assumeAlignedOnly := isSet env.assumeAlignedOnly
        if assumeAlignedOnly && !ops.launchHostFunc then none
        else if !assumeAlignedOnly && (!ops.streamWriteValue32 || !ops.streamWaitValue32Geq) then
          none
        else
          some
            { nIoThreads
              queueDepth := UInt32.ofNat queueDepth.toNat
              busySpin
              idleSpinUs := UInt32.ofNat idleSpinUs.toNat
              cpuMask := maskOf env.cpuMask
              assumeAlignedOnly }

/-- The loop of `mask_nth_cpu` over the last `left` CPUs, from `cpu` on. -/
def nthCpuFrom (mask : UInt64) : (left cpu : Nat) → Int → Int
  | 0, _, _ => -1
  | left + 1, cpu, n =>
    if (mask >>> UInt64.ofNat cpu) &&& 1 ≠ 0 then
      if n = 0 then cpu else nthCpuFrom mask left (cpu + 1) (n - 1)
    else nthCpuFrom mask left (cpu + 1) n

/-- `mask_nth_cpu` -/
def maskNthCpu (mask : UInt64) (n : Int) : Int := nthCpuFrom mask 64 0 n

/-- The CPU is in the mask. -/
def InMask (mask : UInt64) (cpu : Nat) : Prop := mask.toNat.testBit cpu = true

instance decidableInMask (mask : UInt64) : DecidablePred (InMask mask) := fun _ =>
  inferInstanceAs (Decidable (_ = true))

/-- `__builtin_popcountll` -/
def popcount (mask : UInt64) : Nat := Nat.count (InMask mask) 64

/-- The CPU that `workers_setup` pins worker `i` to, if there is a mask. -/
def workerCpu (mask : UInt64) (i : Nat) : Option Int :=
  if popcount mask = 0 then none else some (maskNthCpu mask (i % popcount mask : Nat))

/-! ## What the variables spell -/

/-- The variable spells the number, or it is not set and the number is the default. -/
def Spells (v : Option (List Char)) (default' lo hi n : Int) : Prop :=
  ((v = none ∨ v = some []) ∧ n = default') ∨
    ∃ s, v = some s ∧ Numeral 10 s n ∧ lo ≤ n ∧ n ≤ hi

/-- A numeral is not empty. -/
theorem not_numeral_nil (n : Int) : ¬ Numeral 10 [] n := by
  rintro ⟨blanks, sign, digits, unit, parts, -, -, some', -⟩
  simp only [List.nil_eq, List.append_eq_nil_iff] at parts
  exact some' parts.2.2

/-- **`env_int` accepts what is spelled as a number in range, and nothing else.** A number that
does not fit into a `long` is out of range, as the bounds are. -/
theorem envInt_eq_some_iff (v : Option (List Char)) (default' : Int) {lo hi : Int}
    (low : -2 ^ 63 < lo) (high : hi < 2 ^ 63 - 1) (n : Int) :
    envInt v default' lo hi = some n ↔ Spells v default' lo hi n := by
  unfold envInt Spells
  cases v with
  | none => simp [eq_comm]
  | some s =>
      by_cases empty : s = []
      · subst empty
        simp [not_numeral_nil, eq_comm]
      · simp only [empty, if_false, reduceCtorEq, Option.some.injEq, false_or, false_and,
          exists_eq_left']
        rw [← readNumber_eq_iff (by decide), strtol]
        cases read : readNumber 10 s with
        | none => simp
        | some out =>
            obtain ⟨m, rest⟩ := out
            simp only [Option.some.injEq, Prod.mk.injEq]
            by_cases ended : rest = []
            · subst ended
              rw [if_neg (by simp [Ne.symm empty])]
              split_ifs with outside
              · simp only [false_iff]
                omega
              · simp only [Option.some.injEq, and_true]
                omega
            · simp [ended]

/-- The settings are those that the environment spells, and the accelerator can do what they
need. -/
structure Configures (env : Environment) (ops : AccelOps) (c : Settings) : Prop where
  ioThreads : Spells env.ioThreads defaultIoThreads 1 maxIoThreads c.nIoThreads
  queueDepth : Spells env.queueDepth defaultQueueDepth 1 maxQueueDepth c.queueDepth.toNat
  busySpin : c.busySpin = true ↔ env.idleSpin = some ['b', 'u', 's', 'y']
  /-- A busy worker does not look at the time. -/
  idleSpinUs : if c.busySpin then c.idleSpinUs.toNat = defaultIdleSpinUs
    else Spells env.idleSpin defaultIdleSpinUs 0 maxIdleSpinUs c.idleSpinUs.toNat
  cpuMask : c.cpuMask = maskOf env.cpuMask
  aligned : c.assumeAlignedOnly = true ↔ ∃ first rest, env.assumeAlignedOnly = some (first :: rest) ∧
    first ≠ '0'
  gates : if c.assumeAlignedOnly then ops.launchHostFunc = true
    else ops.streamWriteValue32 = true ∧ ops.streamWaitValue32Geq = true

/-- A number that is spelled is in range, as the default is. -/
theorem Spells.range {v : Option (List Char)} {default' lo hi n : Int}
    (spells : Spells v default' lo hi n) (low : lo ≤ default') (high : default' ≤ hi) :
    lo ≤ n ∧ n ≤ hi := by
  rcases spells with ⟨-, rfl⟩ | ⟨s, -, -, range⟩
  · exact ⟨low, high⟩
  · exact range

theorem toNat_ofNat_of_range {n : Int} (low : 0 ≤ n) (high : n < 2 ^ 32) :
    ((UInt32.ofNat n.toNat).toNat : Int) = n := by
  rw [UInt32.toNat_ofNat', Nat.mod_eq_of_lt (by omega)]
  omega

theorem isSet_iff (v : Option (List Char)) :
    isSet v = true ↔ ∃ first rest, v = some (first :: rest) ∧ first ≠ '0' := by
  unfold isSet
  split
  · simp
  · rename_i other
    simp only [Bool.false_eq_true, false_iff]
    rintro ⟨first, rest, rfl, -⟩
    exact absurd rfl (other first rest)

/-- What is read for the idle workers. -/
theorem spin_eq_some_iff (v : Option (List Char)) (n : Int) :
    (if isBusy v then some defaultIdleSpinUs else envInt v defaultIdleSpinUs 0 maxIdleSpinUs) =
      some n ↔ if isBusy v then n = defaultIdleSpinUs
        else Spells v defaultIdleSpinUs 0 maxIdleSpinUs n := by
  split_ifs with busy
  · simp [eq_comm]
  · exact envInt_eq_some_iff v _ (by decide) (by decide) n

/-- **The driver takes a configuration exactly where the environment spells it.** -/
theorem readEnvConfig_eq_some_iff (env : Environment) (ops : AccelOps) (c : Settings) :
    readEnvConfig env ops = some c ↔ Configures env ops c := by
  constructor
  · intro read
    unfold readEnvConfig at read
    cases threads : envInt env.ioThreads defaultIoThreads 1 maxIoThreads with
    | none => simp [threads] at read
    | some nIoThreads =>
        cases depth : envInt env.queueDepth defaultQueueDepth 1 maxQueueDepth with
        | none => simp [threads, depth] at read
        | some queueDepth =>
            cases spin : (if isBusy env.idleSpin then some defaultIdleSpinUs
                else envInt env.idleSpin defaultIdleSpinUs 0 maxIdleSpinUs) with
            | none => simp [threads, depth, spin] at read
            | some idleSpinUs =>
                simp only [threads, depth, spin] at read
                have threads := (envInt_eq_some_iff _ _ (by decide) (by decide) _).mp threads
                have depth := (envInt_eq_some_iff _ _ (by decide) (by decide) _).mp depth
                have spin := (spin_eq_some_iff _ _).mp spin
                have deep := depth.range (by decide) (by decide)
                have depthWord := toNat_ofNat_of_range (Int.le_trans (by decide) deep.1)
                  (deep.2.trans_lt (by decide))
                have short : 0 ≤ idleSpinUs ∧ idleSpinUs ≤ maxIdleSpinUs := by
                  split_ifs at spin
                  · rw [spin]
                    decide
                  · exact spin.range (by decide) (by decide)
                have spinWord := toNat_ofNat_of_range short.1 (short.2.trans_lt (by decide))
                split_ifs at read with launch gates
                cases read
                exact
                  { ioThreads := threads
                    queueDepth := by rwa [depthWord]
                    busySpin := beq_iff_eq
                    idleSpinUs := by rwa [spinWord]
                    cpuMask := rfl
                    aligned := isSet_iff _
                    gates := by
                      cases set : isSet env.assumeAlignedOnly <;> simp_all }
  · intro configures
    have threads := (envInt_eq_some_iff _ _ (by decide) (by decide) _).mpr configures.ioThreads
    have depth := (envInt_eq_some_iff _ _ (by decide) (by decide) _).mpr configures.queueDepth
    have busy : isBusy env.idleSpin = c.busySpin :=
      Bool.eq_iff_iff.mpr (beq_iff_eq.trans configures.busySpin.symm)
    have spin := (spin_eq_some_iff env.idleSpin c.idleSpinUs.toNat).mpr
      (by rw [busy]; exact configures.idleSpinUs)
    have aligned : isSet env.assumeAlignedOnly = c.assumeAlignedOnly :=
      Bool.eq_iff_iff.mpr ((isSet_iff _).trans configures.aligned.symm)
    have gates := configures.gates
    have same : some (Settings.mk c.nIoThreads (UInt32.ofNat (c.queueDepth.toNat : Int).toNat)
        c.busySpin (UInt32.ofNat (c.idleSpinUs.toNat : Int).toNat) (maskOf env.cpuMask)
        c.assumeAlignedOnly) = some c := by
      simp [← configures.cpuMask]
    unfold readEnvConfig
    simp only [threads, depth, spin, aligned]
    rw [busy, same]
    cases only : c.assumeAlignedOnly <;> simp_all

/-! ## The CPUs of the mask -/

variable {mask : UInt64}

/-- The bit that `mask_nth_cpu` looks at. -/
theorem bit_iff {cpu : Nat} (low : cpu < 64) :
    (mask >>> UInt64.ofNat cpu) &&& 1 ≠ 0 ↔ InMask mask cpu := by
  rw [InMask, ne_eq, ← UInt64.toNat_inj, UInt64.toNat_and, UInt64.toNat_shiftRight,
    UInt64.toNat_ofNat', Nat.mod_eq_of_lt (Nat.lt_of_lt_of_le low (by decide)),
    Nat.mod_eq_of_lt low, Nat.testBit, Nat.land_comm]
  simp

/-- No CPU past 64 is in a mask. -/
theorem InMask.lt {cpu : Nat} (mem : InMask mask cpu) : cpu < 64 := by
  by_contra past
  rw [InMask, Nat.testBit_lt_two_pow] at mem
  · cases mem
  · exact mask.toNat_lt.trans_le (Nat.pow_le_pow_right (by decide) (Nat.not_lt.mp past))

/-- **The loop of `mask_nth_cpu`** comes to the CPU of the mask that has so many before it. -/
theorem nthCpuFrom_eq {left cpu n : Nat} (range : cpu + left = 64)
    (few : Nat.count (InMask mask) cpu + n < popcount mask) :
    ∃ found : Nat, nthCpuFrom mask left cpu n = found ∧ InMask mask found ∧
      Nat.count (InMask mask) found = Nat.count (InMask mask) cpu + n := by
  induction left generalizing cpu n with
  | zero =>
      rw [popcount, ← range, Nat.add_zero] at few
      omega
  | succ left ih =>
      have next := Nat.count_succ (InMask mask) cpu
      by_cases mem : InMask mask cpu
      · rw [if_pos mem] at next
        rw [nthCpuFrom, if_pos ((bit_iff (by omega)).mpr mem)]
        cases n with
        | zero => exact ⟨cpu, rfl, mem, rfl⟩
        | succ m =>
            have rest : ((m + 1 : Nat) : Int) - 1 = (m : Nat) := by omega
            rw [if_neg (by omega), rest]
            have later : ∃ found : Nat, nthCpuFrom mask left (cpu + 1) m = found ∧
                InMask mask found ∧ Nat.count (InMask mask) found =
                  Nat.count (InMask mask) (cpu + 1) + m := ih (by omega) (by omega)
            obtain ⟨found, same, here, before⟩ := later
            exact ⟨found, same, here, by omega⟩
      · rw [if_neg mem] at next
        rw [nthCpuFrom, if_neg (mt (bit_iff (by omega)).mp mem), ← Nat.add_zero (Nat.count _ cpu),
          ← next]
        exact ih (by omega) (by omega)

theorem maskNthCpu_eq {n : Nat} (few : n < popcount mask) :
    ∃ found : Nat, maskNthCpu mask n = found ∧ InMask mask found ∧
      Nat.count (InMask mask) found = n := by
  obtain ⟨found, same, here, before⟩ : ∃ found : Nat, nthCpuFrom mask 64 0 n = found ∧
      InMask mask found ∧ Nat.count (InMask mask) found = Nat.count (InMask mask) 0 + n :=
    nthCpuFrom_eq (by decide) (by rw [Nat.count_zero]; omega)
  rw [Nat.count_zero, Nat.zero_add] at before
  exact ⟨found, same, here, before⟩

theorem exists_workerCpu (some' : popcount mask ≠ 0) (i : Nat) :
    ∃ cpu : Nat, workerCpu mask i = some (cpu : Int) ∧ InMask mask cpu ∧
      Nat.count (InMask mask) cpu = i % popcount mask := by
  obtain ⟨found, same, here, before⟩ := maskNthCpu_eq (Nat.mod_lt i (Nat.pos_of_ne_zero some'))
  exact ⟨found, by rw [workerCpu, if_neg some', same], here, before⟩

/-- The worker is pinned to the CPU of the mask whose turn it is. -/
theorem workerCpu_eq_some_iff {cpu : Nat} (mem : InMask mask cpu) (i : Nat) :
    workerCpu mask i = some (cpu : Int) ↔ i ≡ Nat.count (InMask mask) cpu [MOD popcount mask] := by
  have few : Nat.count (InMask mask) cpu < popcount mask := Nat.count_strict_mono mem mem.lt
  obtain ⟨found, pinned, here, before⟩ := exists_workerCpu (Nat.ne_zero_of_lt few) i
  rw [pinned, Nat.ModEq, Nat.mod_eq_of_lt few, ← before, Option.some.injEq, Int.natCast_inj]
  exact ⟨congrArg _, Nat.count_injective here mem⟩

theorem popcount_eq_zero_iff : popcount mask = 0 ↔ mask.toNat = 0 := by
  constructor
  · intro none
    by_contra some'
    obtain ⟨cpu, bit⟩ := Nat.exists_testBit_of_ne_zero some'
    have mem : InMask mask cpu := bit
    have counted := Nat.count_strict_mono mem mem.lt
    rw [popcount] at none
    omega
  · intro none
    refine Nat.count_iff_forall_not.mpr fun cpu _ => ?_
    rw [InMask, none, Nat.zero_testBit]
    exact Bool.false_ne_true

/-- What `opends_driver_open` goes on with. -/
def Settings.envConfig (c : Settings) : EnvConfig := ⟨c.nIoThreads.toNat, c.cpuMask.toNat⟩

/-- The workers are pinned exactly where `workers_setup` makes attributes for their threads. -/
theorem isSome_workerCpu (c : Settings) (i : Nat) :
    (workerCpu c.cpuMask i).isSome = (c.envConfig.cpuMask != 0) := by
  have none : popcount c.cpuMask = 0 ↔ c.cpuMask.toNat = 0 := popcount_eq_zero_iff
  rw [workerCpu]
  split_ifs with empty
  · simp [Settings.envConfig, none.mp empty]
  · simp [Settings.envConfig, mt none.mpr empty]

/-- How many of the first `n` workers are pinned to the CPU. -/
def workersOn (mask : UInt64) (n cpu : Nat) : Nat :=
  Nat.count (fun i => workerCpu mask i = some (cpu : Int)) n

/-- **The CPUs take turns.** -/
theorem workersOn_eq {cpu : Nat} (mem : InMask mask cpu) (n : Nat) :
    workersOn mask n cpu = n / popcount mask +
      if Nat.count (InMask mask) cpu % popcount mask < n % popcount mask then 1 else 0 := by
  have few : Nat.count (InMask mask) cpu < popcount mask := Nat.count_strict_mono mem mem.lt
  rw [← Nat.count_modEq_card n (Nat.zero_lt_of_lt few), workersOn]
  simp only [workerCpu_eq_some_iff mem]

/-- **The workers share the CPUs of the mask**: each worker is on one of its CPUs, and no CPU has
two workers more than another one. Where the mask is spelled as a hexadecimal number, its CPUs
are the bits of the number. -/
theorem workers_share_mask {env : Environment} {ops : AccelOps} {c : Settings}
    (read : readEnvConfig env ops = some c) (some' : c.cpuMask.toNat ≠ 0) :
    (∀ i, ∃ cpu : Nat, workerCpu c.cpuMask i = some (cpu : Int) ∧ InMask c.cpuMask cpu) ∧
      (∀ n cpu cpu', InMask c.cpuMask cpu → InMask c.cpuMask cpu' →
        workersOn c.cpuMask n cpu ≤ workersOn c.cpuMask n cpu' + 1) ∧
      ∀ m, m < 2 ^ 64 → env.cpuMask = some ('0' :: 'x' :: Nat.toDigits 16 m) →
        ∀ cpu, InMask c.cpuMask cpu ↔ m.testBit cpu = true := by
  have cpus : popcount c.cpuMask ≠ 0 := mt popcount_eq_zero_iff.mp some'
  refine ⟨fun i => ?_, fun n cpu cpu' mem mem' => ?_, fun m fits spelled cpu => ?_⟩
  · obtain ⟨cpu, pinned, here, -⟩ := exists_workerCpu cpus i
    exact ⟨cpu, pinned, here⟩
  · rw [workersOn_eq mem, workersOn_eq mem']
    split <;> split <;> omega
  · have mask := ((readEnvConfig_eq_some_iff env ops c).mp read).cpuMask
    rw [spelled, maskOf, strtoull_hex fits] at mask
    rw [InMask, mask, UInt64.toNat_ofNat', Nat.mod_eq_of_lt fits]

/-- Three workers on the CPUs 1 and 4. -/
def twoCpus : Environment where
  ioThreads := some ['3']
  queueDepth := none
  idleSpin := some ['b', 'u', 's', 'y']
  cpuMask := some ['0', 'x', '1', '2']
  assumeAlignedOnly := none

theorem workers_share_mask_twoCpus : ∀ cpu, InMask 18 cpu ↔ (18).testBit cpu = true :=
  (@workers_share_mask twoCpus ⟨false, true, true⟩ ⟨3, 8, true, 200, 18, false⟩ rfl
    (by decide)).2.2 18 (by decide) rfl

end OpenDS.Driver
