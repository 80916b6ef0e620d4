import Mathlib.Tactic.Ring

/-!
# Irqmon — the sampling loop of `main`

The loop of `irqmon.c` samples when `(long) (bios_ticks() - next_tick) >= 0`, on a counter that
returns to 0 at midnight. Time is counted in ticks from some midnight on.

* `due_iff` — what the test says, in terms of the times of day.
* `pass_eq` — what one pass does.
* `MainRun` — the runs of the loop, with the time at which each pass reads the counter.
* `keepsSampling_iff` — the loop keeps sampling exactly as long as no midnight lies between a sample
  and a test.
* `refuses_for_good` — after a sample in the last 18 ticks of a day no test is ever true again.
-/

namespace NioApps.Irqmon

/-- The ticks of a day: the counter at `0040:006C` runs from 0 to `0x1800AF`. -/
def dayTicks : Nat := 0x1800B0

/-- `bios_ticks()`, read at time `now`. -/
def biosTicks (now : Nat) : BitVec 32 := BitVec.ofNat 32 (now % dayTicks)

/-- `(long) (bios_ticks() - next_tick) >= 0`, with the counter read at time `now`. -/
def due (nextTick : BitVec 32) (now : Nat) : Bool := 0 ≤ (biosTicks now - nextTick).toInt

/-! ## The loop -/

/-- One pass of the loop: when the test reads the counter, when `next_tick` is set if the test is
true, and the key that `getch` returns if `kbhit` says that there is one. -/
structure Pass where
  testAt : Nat
  setAt : Nat
  key : Option Nat

/-- The variables of the loop, and the time at which `next_tick` was set by a sample. -/
structure MainState where
  nextTick : BitVec 32
  lastSample : Option Nat
  done : Bool

def MainState.start (now : Nat) : MainState := ⟨biosTicks now, none, false⟩

/-- `ch == 'q' || ch == 'Q' || ch == 27` -/
def quits (ch : Nat) : Bool := ch == 'q'.toNat || ch == 'Q'.toNat || ch == 27

def MainState.pass (s : MainState) (p : Pass) : MainState :=
  let sampled :=
    if due s.nextTick p.testAt then
      { s with nextTick := biosTicks p.setAt + 18, lastSample := some p.setAt }
    else s
  match p.key with
  | none => sampled
  | some ch => if quits ch then { sampled with done := true } else sampled

/-- The runs of `main` from time `start` on: the passes made, the state, and the time. -/
inductive MainRun (start : Nat) : List Pass → MainState → Nat → Prop where
  | start : MainRun start [] (.start start) start
  | pass {passes : List Pass} {s : MainState} {now : Nat} (run : MainRun start passes s now)
      (p : Pass) (going : s.done = false) (after : now ≤ p.testAt) (order : p.testAt ≤ p.setAt) :
      MainRun start (passes ++ [p]) (s.pass p) p.setAt

/-- In a run no test is refused 18 or more ticks after the last sample. -/
def KeepsSampling (start : Nat) (passes : List Pass) : Prop :=
  ∀ before p after s now, passes = before ++ p :: after → MainRun start before s now →
    ∀ t, s.lastSample = some t → t + 18 ≤ p.testAt → due s.nextTick p.testAt = true

/-- The test at `t + d`, after a sample at `t`, comes 18 or more ticks later on the same day, or on
another day at such a time. -/
def SameDay (t d : Nat) : Prop := 18 ≤ d % dayTicks ∧ t % dayTicks + d % dayTicks < dayTicks

/-- In a run no midnight comes between a sample and a test that is made 18 or more ticks later. -/
def NoMidnightBetween (start : Nat) (passes : List Pass) : Prop :=
  ∀ before p after s now, passes = before ++ p :: after → MainRun start before s now →
    ∀ t, s.lastSample = some t → t + 18 ≤ p.testAt → SameDay t (p.testAt - t)

/-! ## The test -/

/-- A difference of two numbers below half the range has its own sign. -/
theorem toInt_sub_small {a b : Nat} (ha : a < 2 ^ 31) (hb : b < 2 ^ 31) :
    (BitVec.ofNat 32 a - BitVec.ofNat 32 b).toInt = (a : Int) - b := by
  have hsmall : ∀ n : Int, -2 ^ 31 ≤ n → n < 2 ^ 31 → n.bmod (2 ^ 32) = n := by
    intro n hlo hhi
    apply Int.bmod_eq_of_le
    · omega
    · omega
  rw [BitVec.toInt_sub, BitVec.toInt_ofNat', BitVec.toInt_ofNat', hsmall a (by omega) (by omega),
    hsmall b (by omega) (by omega), hsmall _ (by omega) (by omega)]

/-- The test compares the times of day. -/
theorem due_iff (t now : Nat) :
    due (biosTicks t + 18) now = true ↔ t % dayTicks + 18 ≤ now % dayTicks := by
  have hday : dayTicks = 0x1800B0 := rfl
  have ht := Nat.mod_lt t (show 0 < dayTicks by decide)
  have hnow := Nat.mod_lt now (show 0 < dayTicks by decide)
  have hnext : biosTicks t + 18 = BitVec.ofNat 32 (t % dayTicks + 18) :=
    (BitVec.ofNat_add _ _).symm
  rw [due, hnext, biosTicks, decide_eq_true_iff, toInt_sub_small (by omega) (by omega)]
  omega

/-- The next sample is due where 18 or more ticks have gone by in the time of the day. -/
theorem due_iff_sameDay {t d : Nat} : due (biosTicks t + 18) (t + d) = true ↔ SameDay t d := by
  rw [due_iff, SameDay]
  unfold dayTicks
  omega

/-- Less than a day after a sample, the same day is all that matters. -/
theorem due_within_day {t d : Nat} (hlo : 18 ≤ d) (hhi : d < dayTicks) :
    due (biosTicks t + 18) (t + d) = true ↔ t % dayTicks + d < dayTicks := by
  rw [due_iff_sameDay, SameDay, Nat.mod_eq_of_lt hhi]
  exact ⟨And.right, fun hday => ⟨hlo, hday⟩⟩

/-- **Refused for good.** After a sample in the last 18 ticks of a day no reading of the counter
makes the test true. -/
theorem refuses_for_good {t : Nat} (hlate : dayTicks ≤ t % dayTicks + 18) (now : Nat) :
    due (biosTicks t + 18) now = false := by
  have hnow := Nat.mod_lt now (show 0 < dayTicks by decide)
  rw [← Bool.not_eq_true, due_iff]
  omega

/-! ## The runs -/

/-- What a pass does: a sample if the test is true, and the end of the loop if a key asks for it. -/
theorem pass_eq (s : MainState) (p : Pass) : s.pass p =
    if due s.nextTick p.testAt then
      ⟨biosTicks p.setAt + 18, some p.setAt, s.done || p.key.any quits⟩
    else ⟨s.nextTick, s.lastSample, s.done || p.key.any quits⟩ := by
  -- the key plays no part in what is sampled
  unfold MainState.pass
  cases p.key with
  | none =>
    split
    next => simp
    next => simp
  | some ch =>
    cases hquit : quits ch with
    | true =>
      split
      next => simp [hquit]
      next => simp [hquit]
    | false =>
      split
      next => simp [hquit]
      next => simp [hquit]

/-- What the last sample of a pass is: one taken in this pass, or the one before. -/
theorem pass_lastSample {s : MainState} {p : Pass} {t : Nat}
    (h : (s.pass p).lastSample = some t) :
    (t = p.setAt ∧ (s.pass p).nextTick = biosTicks t + 18) ∨
      (s.lastSample = some t ∧ (s.pass p).nextTick = s.nextTick) := by
  rw [pass_eq] at h ⊢
  split at h
  next hdue =>
    obtain rfl : p.setAt = t := Option.some.inj h
    rw [if_pos hdue]
    exact .inl ⟨rfl, rfl⟩
  next hdue =>
    rw [if_neg hdue]
    exact .inr ⟨h, rfl⟩

/-- `next_tick` is 18 ticks after the last sample, as the counter counts. -/
theorem MainRun.nextTick {start : Nat} {passes : List Pass} {s : MainState} {now : Nat}
    (run : MainRun start passes s now) {t : Nat} (ht : s.lastSample = some t) :
    s.nextTick = biosTicks t + 18 := by
  induction run generalizing t with
  | start => cases ht
  | pass run p going after order ih =>
    rcases pass_lastSample ht with ⟨-, hnext⟩ | ⟨hold, hnext⟩
    · exact hnext
    · rw [hnext]
      exact ih hold

/-- **When IRQMON keeps sampling.** A run keeps sampling exactly when no midnight comes between one
of its samples and a test made 18 or more ticks later; less than a day after a sample, at any time,
the test is true exactly when no midnight has come in between. -/
theorem keepsSampling_iff (start : Nat) (passes : List Pass) :
    (KeepsSampling start passes ↔ NoMidnightBetween start passes) ∧
    ∀ t d, 18 ≤ d → d < dayTicks →
      (due (biosTicks t + 18) (t + d) = true ↔ t % dayTicks + d < dayTicks) := by
  have htest : ∀ {before s now}, MainRun start before s now → ∀ t, s.lastSample = some t →
      ∀ testAt, t + 18 ≤ testAt → (due s.nextTick testAt = true ↔ SameDay t (testAt - t)) := by
    intro before s now run t ht testAt hlate
    rw [run.nextTick ht, ← due_iff_sameDay, Nat.add_sub_cancel' (by omega)]
  refine ⟨⟨?_, ?_⟩, fun t d => due_within_day⟩
  · intro hkeeps before p after s now hsplit run t ht hlate
    exact (htest run t ht _ hlate).mp (hkeeps before p after s now hsplit run t ht hlate)
  · intro hday before p after s now hsplit run t ht hlate
    exact (htest run t ht _ hlate).mpr (hday before p after s now hsplit run t ht hlate)

/-- A sample in the last tick of a day, and a test 18 ticks later. -/
def lateSample : Pass := ⟨dayTicks - 1, dayTicks - 1, none⟩

/-- The test refuses, and so does the run that makes it. -/
theorem midnight_stops_sampling :
    due (biosTicks (dayTicks - 1) + 18) (dayTicks - 1 + 18) = false ∧
      ¬ KeepsSampling (dayTicks - 1)
        [lateSample, ⟨dayTicks - 1 + 18, dayTicks - 1 + 18, none⟩] := by
  have hrefused : due (biosTicks (dayTicks - 1) + 18) (dayTicks - 1 + 18) = false :=
    refuses_for_good (by decide) _
  refine ⟨hrefused, fun hkeeps => ?_⟩
  -- the first sample is taken in the last tick of the day
  have hfirst : due (biosTicks (dayTicks - 1)) (dayTicks - 1) = true := by decide
  have hsampled : (MainState.start (dayTicks - 1)).pass lateSample =
      ⟨biosTicks (dayTicks - 1) + 18, some (dayTicks - 1), false⟩ := by
    unfold MainState.pass MainState.start lateSample
    dsimp only
    rw [if_pos hfirst]
  have hrun : MainRun (dayTicks - 1) [lateSample]
      ((MainState.start (dayTicks - 1)).pass lateSample) (dayTicks - 1) :=
    .pass .start lateSample rfl (Nat.le_refl _) (Nat.le_refl _)
  rw [hsampled] at hrun
  have htrue := hkeeps [lateSample] _ [] _ _ rfl hrun (dayTicks - 1) rfl (Nat.le_refl _)
  rw [hrefused] at htrue
  cases htrue

end NioApps.Irqmon
