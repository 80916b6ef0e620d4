import NioApps.Lib.Word

/-!
# Checksum — the clock of `checksumbench.c`

The benchmark reads a clock before and after each of its three loops. With `__KICK13__` the reading
and the tick type are 32 bits wide. Otherwise the tick type has 64 bits; the reading is still a
32-bit sum when `timer.device` is older than version 36, and a pair of words when it is not, the
upper of which is what `ReadEClock` returns.

* `benchmarkClock` — the reading, for each build and device.
* `runCase` — the three intervals of one case.
* `runCase_exact_iff` — the intervals are right with `__KICK13__`, and otherwise exactly when the
  clock does not pass a multiple of `2 ^ 32` between the two readings.
-/

namespace NioApps.Benchmark

/-! ## The clock -/

/-- The two branches of `#ifdef __KICK13__`. -/
inductive Build where
  | kick13
  | other
  deriving DecidableEq

/-- The width of `benchmark_ticks_t`. -/
def Build.tickBits : Build → Nat
  | .kick13 => 32
  | .other => 64

/-- `timer.device`: its version, and the rate of the E clock, which `ReadEClock` returns. -/
structure TimerDevice where
  version : Nat
  frequency : Nat
  frequency_lt : frequency < 2 ^ 32

/-- A moment at which the clock is read: the system time in microseconds, the E clock in its ticks,
and what `DoIO` returns for `TR_GETSYSTIME`. -/
structure Moment where
  sysTime : Nat
  eClock : Nat
  doIo : Int

/-- `tv_secs`. -/
def Moment.tvSecs (now : Moment) : Nat := now.sysTime / 1000000 % 2 ^ 32

/-- `tv_micro`. -/
def Moment.tvMicro (now : Moment) : Nat := now.sysTime % 1000000

/-- `tr_time.tv_secs * 1000000UL + tr_time.tv_micro`, in 32-bit arithmetic. -/
def Moment.sysTicks (now : Moment) : Nat :=
  (now.tvSecs * 1000000 % 2 ^ 32 + now.tvMicro) % 2 ^ 32

/-- `ev_lo`. -/
def Moment.evLo (now : Moment) : Nat := now.eClock % 2 ^ 32

/-- `benchmark_clock`: `*ticks`, if it returns 1. The call of `ReadEClock` is made before `ev_lo` is
read. -/
def benchmarkClock (build : Build) (timer : TimerDevice) (now : Moment) : Option Nat :=
  match build with
  | .kick13 => if now.doIo ≠ 0 then none else some now.sysTicks
  | .other =>
    if timer.version < 36 then
      if now.doIo ≠ 0 then none else some now.sysTicks
    else some (timer.frequency <<< 32 ||| now.evLo)

/-- The time that the clock of a build and a device counts. -/
def clockTime (build : Build) (timer : TimerDevice) (now : Moment) : Nat :=
  match build with
  | .kick13 => now.sysTime
  | .other => if timer.version < 36 then now.sysTime else now.eClock

/-! ## One case -/

/-- A loop between two readings: the second less than `2 ^ 32` ticks after the first, and whether
every result was the expected one. -/
structure Interval (build : Build) (timer : TimerDevice) where
  start : Moment
  stop : Moment
  matched : Bool
  after : clockTime build timer start ≤ clockTime build timer stop
  within : clockTime build timer stop < clockTime build timer start + 2 ^ 32

section

variable {build : Build} {timer : TimerDevice}

/-- `elapsed = end - start` in `benchmark_ticks_t`. -/
def elapsed (build : Build) (start stop : Nat) : Nat :=
  (stop + 2 ^ build.tickBits - start) % 2 ^ build.tickBits

/-- One loop with its readings: the elapsed value, unless `run_case` returns 0 on the way. -/
def timeLoop (i : Interval build timer) : Option Nat := do
  let start ← benchmarkClock build timer i.start
  guard i.matched
  let stop ← benchmarkClock build timer i.stop
  some (elapsed build start stop)

/-- Loops timed one after another, up to the first at which `run_case` returns 0. -/
def timeLoops : List (Interval build timer) → List Nat
  | [] => []
  | i :: is =>
    match timeLoop i with
    | none => []
    | some ticks => ticks :: timeLoops is

/-- `run_case`: the elapsed values it computes for the C routine and the two assembler routines. -/
def runCase (c addx branch : Interval build timer) : List Nat := timeLoops [c, addx, branch]

/-- The true number of ticks between the two readings. -/
def Interval.ticks (i : Interval build timer) : Nat :=
  clockTime build timer i.stop - clockTime build timer i.start

/-- No multiple of `2 ^ 32` ticks lies between the two readings. -/
def Interval.NoWrap (i : Interval build timer) : Prop :=
  clockTime build timer i.start / 2 ^ 32 = clockTime build timer i.stop / 2 ^ 32

/-! ## The readings -/

/-- The 32-bit sum is the system time modulo `2 ^ 32`. -/
theorem sysTicks_eq (now : Moment) : now.sysTicks = now.sysTime % 2 ^ 32 := by
  unfold Moment.sysTicks Moment.tvSecs Moment.tvMicro
  omega

/-- The frequency as the upper word over the low word of the clock, as the code puts them together. -/
theorem eClock_eq (timer : TimerDevice) (now : Moment) :
    timer.frequency <<< 32 ||| now.evLo = now.eClock % 2 ^ 32 + 2 ^ 32 * timer.frequency := by
  have hlow : now.evLo < 2 ^ 32 := Nat.mod_lt _ (by decide)
  rw [Nat.or_comm, or_shiftLeft_eq hlow, Moment.evLo]

/-- The upper word of every reading. -/
def upperWord (build : Build) (timer : TimerDevice) : Nat :=
  match build with
  | .kick13 => 0
  | .other => if timer.version < 36 then 0 else timer.frequency

/-- What every reading is: the time modulo `2 ^ 32`, under an upper word that does not change. -/
theorem benchmarkClock_eq {now : Moment} {ticks : Nat}
    (h : benchmarkClock build timer now = some ticks) :
    ticks = clockTime build timer now % 2 ^ 32 + 2 ^ 32 * upperWord build timer := by
  unfold benchmarkClock at h
  unfold clockTime upperWord
  cases build with
  | kick13 =>
    -- without the E clock the system time has no upper word
    dsimp only at h ⊢
    split at h
    next => cases h
    next =>
      obtain rfl := Option.some.inj h
      rw [sysTicks_eq, Nat.mul_zero, Nat.add_zero]
  | other =>
    dsimp only at h ⊢
    split at h
    next hold =>
      -- a timer device of an old version is read in the same way
      rw [if_pos hold, if_pos hold]
      split at h
      next => cases h
      next =>
        obtain rfl := Option.some.inj h
        rw [sysTicks_eq, Nat.mul_zero, Nat.add_zero]
    next hnew =>
      rw [if_neg hnew, if_neg hnew]
      obtain rfl := Option.some.inj h
      exact eClock_eq timer now

/-- The upper word is the same at every reading and fits 32 bits. -/
theorem upperWord_lt : upperWord build timer < 2 ^ 32 := by
  unfold upperWord
  cases build with
  | kick13 => exact Nat.two_pow_pos 32
  | other =>
    dsimp only
    split
    next => exact Nat.two_pow_pos 32
    next => exact timer.frequency_lt

/-! ## When an interval is right -/

/-- One interval, when both its readings were made. -/
theorem timeLoop_exact_iff {i : Interval build timer} {ticks : Nat}
    (h : timeLoop i = some ticks) : ticks = i.ticks ↔ build = .kick13 ∨ i.NoWrap := by
  simp only [timeLoop, Option.bind_eq_bind, Option.bind_eq_some_iff, Option.some.injEq] at h
  obtain ⟨start, hstart, -, -, stop, hstop, rfl⟩ := h
  have hupper : upperWord build timer < 2 ^ 32 := upperWord_lt
  have hafter := i.after
  have hwithin := i.within
  -- both readings have the same upper word, which drops out of the difference
  rw [benchmarkClock_eq hstart, benchmarkClock_eq hstop, Interval.ticks, Interval.NoWrap, elapsed]
  generalize clockTime build timer i.start = t₀ at *
  generalize clockTime build timer i.stop = t₁ at *
  generalize upperWord build timer = u at *
  cases build with
  | kick13 =>
    simp only [Build.tickBits, true_or, iff_true]
    omega
  | other =>
    simp only [Build.tickBits, reduceCtorEq, false_or]
    omega

/-- Loops timed one after another: all the values computed are right exactly when each is. -/
theorem timeLoops_exact_iff (is : List (Interval build timer)) :
    timeLoops is = (is.take (timeLoops is).length).map Interval.ticks ↔
      ∀ i ∈ is.take (timeLoops is).length, build = .kick13 ∨ i.NoWrap := by
  induction is with
  | nil => simp [timeLoops]
  | cons i is ih =>
    cases hloop : timeLoop i with
    | none => simp [timeLoops, hloop]
    | some ticks =>
      have htimed : timeLoops (i :: is) = ticks :: timeLoops is := by rw [timeLoops, hloop]
      rw [htimed, List.length_cons, List.take_succ_cons, List.map_cons, List.cons.injEq,
        List.forall_mem_cons, timeLoop_exact_iff hloop, ih]

end

/-- **When the benchmark intervals are right.** With `__KICK13__` the elapsed value of every loop is
the true number of ticks. Otherwise, with the 32-bit sum and with the E clock alike, it is exactly
when no multiple of `2 ^ 32` ticks lies between the two readings; so of the values that one
`run_case` computes. -/
theorem runCase_exact_iff (build : Build) (timer : TimerDevice) :
    (∀ (i : Interval build timer) (ticks : Nat), timeLoop i = some ticks →
      (ticks = i.ticks ↔ build = .kick13 ∨ i.NoWrap)) ∧
    ∀ c addx branch : Interval build timer,
      runCase c addx branch =
          ([c, addx, branch].take (runCase c addx branch).length).map Interval.ticks ↔
        ∀ i ∈ [c, addx, branch].take (runCase c addx branch).length,
          build = .kick13 ∨ i.NoWrap :=
  ⟨fun _ _ => timeLoop_exact_iff, fun c addx branch => timeLoops_exact_iff [c, addx, branch]⟩

/-- A `timer.device` from before version 36, and one with an E clock. -/
def oldTimer : TimerDevice := ⟨34, 0, by decide⟩

def newTimer : TimerDevice := ⟨36, 709379, by decide⟩

/-- Two readings a microsecond before and a microsecond after the 32-bit sum wraps. -/
def sumAcrossWrap : Interval .other oldTimer where
  start := ⟨2 ^ 32 - 1, 0, 0⟩
  stop := ⟨2 ^ 32 + 1, 0, 0⟩
  matched := true
  after := by decide
  within := by decide

/-- Two readings of the E clock a tick before and a tick after its lower word wraps. -/
def eClockAcrossWrap : Interval .other newTimer where
  start := ⟨0, 2 ^ 32 - 1, 0⟩
  stop := ⟨0, 2 ^ 32 + 1, 0⟩
  matched := true
  after := by decide
  within := by decide

/-- Two ticks come out as `2 ^ 64 - 2 ^ 32 + 2`, from the 32-bit sum and from the E clock. -/
theorem elapsed_wrong_across_wrap :
    (sumAcrossWrap.ticks = 2 ∧ timeLoop sumAcrossWrap = some (2 ^ 64 - 2 ^ 32 + 2)) ∧
      (eClockAcrossWrap.ticks = 2 ∧ timeLoop eClockAcrossWrap = some (2 ^ 64 - 2 ^ 32 + 2)) ∧
      runCase sumAcrossWrap sumAcrossWrap sumAcrossWrap ≠
        ([sumAcrossWrap, sumAcrossWrap, sumAcrossWrap].take
          (runCase sumAcrossWrap sumAcrossWrap sumAcrossWrap).length).map Interval.ticks := by
  decide

end NioApps.Benchmark
