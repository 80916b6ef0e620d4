import NioApps.Checksum.Addx
import NioApps.Checksum.Benchmark
import NioApps.Checksum.Branch

/-!
# Checksum — the program `checksumbench.c`

The benchmark times three checksum functions on six buffers: the library's, and the two of
`checksumbench_asm.s`. It exits with 0 when every case went through, and when there was no
`timer.device` to time them with.

* `Routine` — what a routine of the listing returns, with the runs of the listing that return it.
* `timeMode`, `runCase`, `main` — the program, over any library and any clock.
* `main_passes_iff` — when it exits with 0.
* `main_lines` — what the lines say that it prints, and of which calls and readings.
* `main_releases` — what it gets from Exec, it gives back.
-/

namespace NioApps.Checksumbench

open Benchmark Checksum M68k Loop

/-! ## The functions that are timed -/

/-- A routine of the listing: the value it returns for the bytes of the buffer, from whatever
registers, flags and memory it is entered with. -/
structure Routine (p : Program Label) where
  result : List UInt8 → UInt8
  returns : ∀ s, s.pc = 0 → BufferClear s →
    ∃ s', Returns (step p) s (.returned (returnAddress s) s') ∧
      low .byte (s'.d .d0) = (result (buffer s)).toNat

/-- The fold of the listing's header comment, as the byte that is returned. -/
def foldResult (bytes : List UInt8) : UInt8 := UInt8.ofNat (calcChecksum bytes)

theorem toNat_foldResult (bytes : List UInt8) : (foldResult bytes).toNat = calcChecksum bytes :=
  UInt8.toNat_ofNat_of_lt (calcChecksum_lt bytes)

def fnCalcChecksumAsm : Routine Checksum.fnCalcChecksumAsm where
  result := foldResult
  returns s hpc hclear := by
    obtain ⟨s', hreturns, hchecked⟩ := addx_returns hclear hpc
    exact ⟨s', hreturns, hchecked.chk.trans (toNat_foldResult _).symm⟩

def fnCalcChecksumAsmBranch : Routine Checksum.fnCalcChecksumAsmBranch where
  result := foldResult
  returns s hpc _ := by
    obtain ⟨s', hreturns, hchecked⟩ := branch_returns hpc
    exact ⟨s', hreturns, hchecked.chk.trans (toNat_foldResult _).symm⟩

/-- The letters in the third column. -/
inductive Mode where
  | c
  | addx
  | branch
  deriving DecidableEq

/-! ## The surroundings -/

/-- What the program asks of Exec and of `timer.device`, with the answer where there is one. -/
inductive ExecCall where
  | createPort (found : Bool)
  | createExtIo (found : Bool)
  | openDevice (error : Int)
  | getSysTime
  | readEClock
  | closeDevice
  | deleteExtIo
  | deletePort
  deriving DecidableEq

/-- The answers to the calls, with the moments at which the clock is read; the E clock has a rate.
-/
structure Exec where
  port : Bool
  request : Bool
  openError : Int
  timer : TimerDevice
  frequency_pos : 0 < timer.frequency
  moments : Nat → Moment

inductive Line where
  | unavailable
  | rate (frequency : Nat)
  | columns
  | timed (size count : Nat) (mode : Mode) (ticks perIteration microseconds : Nat)
  | mismatch (mode : Mode) (size : Nat) (expected got : UInt8)
  deriving DecidableEq

/-- What the comparison does, in order: the `n`th reading of the clock, with or without an answer,
calls of one function on the buffer of a size, and the lines. -/
inductive Event where
  | read (n : Nat)
  | calls (mode : Mode) (size count : Nat)
  | print (line : Line)
  deriving DecidableEq

section

variable (build : Build) (fnCalcChecksum : List UInt8 → UInt8) (exec : Exec)

/-- `TimerBase->dd_Library.lib_Version < 36`, or a build that does not ask. -/
def usesSysTime : Bool :=
  match build with
  | .kick13 => true
  | .other => exec.timer.version < 36

def frequency : Nat := if usesSysTime build exec then 1000000 else exec.timer.frequency

def microsecondsPerIteration (elapsed count frequency : Nat) : Nat :=
  match build with
  | .kick13 => elapsed / count
  | .other => elapsed * 1000000 % 2 ^ 64 / (frequency * count % 2 ^ 64) % 2 ^ 32

/-- `buffer[i] = (uint8_t)(i * 37U + size)`. -/
def fillBuffer (size : Nat) : List UInt8 :=
  (List.range size).map fun i => UInt8.ofNat (i * 37 + size)

def Mode.call : Mode → List UInt8 → UInt8
  | .c => fnCalcChecksum
  | .addx => fnCalcChecksumAsm.result
  | .branch => fnCalcChecksumAsmBranch.result

/-- What a part of the program leaves: whether it went through, how often it read the clock, and
what it did. -/
structure Timing where
  ok : Bool
  readings : Nat
  log : List Event

/-- The clock, read for the `n`th time. -/
def reading (n : Nat) : Option Nat := benchmarkClock build exec.timer (exec.moments n)

def timedLine (size count : Nat) (mode : Mode) (elapsed : Nat) : Line :=
  .timed size count mode (elapsed % 2 ^ 32) (elapsed / count % 2 ^ 32)
    (microsecondsPerIteration build elapsed count (frequency build exec))

/-- One of the three parts of `run_case`, after `n` readings. A result that is not the expected one
is so at the first call; the loop over the library's function leaves without a line then. -/
def timeMode (size count : Nat) (mode : Mode) (n : Nat) : Timing :=
  let expected := fnCalcChecksum (fillBuffer size)
  match reading build exec n with
  | none => ⟨false, 1, [.read n]⟩
  | some start =>
    let result := mode.call fnCalcChecksum (fillBuffer size)
    if (List.range count).all fun _ => result == expected then
      match reading build exec (n + 1) with
      | none => ⟨false, 2, [.read n, .calls mode size count, .read (n + 1)]⟩
      | some stop =>
        ⟨true, 2, [.read n, .calls mode size count, .read (n + 1),
          .print (timedLine build exec size count mode (elapsed build start stop))]⟩
    else
      ⟨false, 1, [.read n, .calls mode size 1] ++
        if mode = .c then [] else [.print (.mismatch mode size expected result)]⟩

def timeModes (size count : Nat) : List Mode → Nat → Timing
  | [], _ => ⟨true, 0, []⟩
  | mode :: modes, n =>
    let first := timeMode build fnCalcChecksum exec size count mode n
    if first.ok then
      let rest := timeModes size count modes (n + first.readings)
      ⟨rest.ok, first.readings + rest.readings, first.log ++ rest.log⟩
    else first

/-- `run_case`, which begins with one call for the value expected. -/
def runCase (size count n : Nat) : Timing :=
  let timed := timeModes build fnCalcChecksum exec size count [.c, .addx, .branch] n
  { timed with log := .calls .c size 1 :: timed.log }

/-- The loop over the cases goes on after one that failed. -/
def runCases : List (Nat × Nat) → Nat → Timing
  | [], _ => ⟨true, 0, []⟩
  | (size, count) :: cases, n =>
    let first := runCase build fnCalcChecksum exec size count n
    let rest := runCases cases (n + first.readings)
    ⟨first.ok && rest.ok, first.readings + rest.readings, first.log ++ rest.log⟩

def sizes : List Nat := [16, 64, 256, 512, 1024, 4096]

def counts : List Nat :=
  match build with
  | .kick13 => [2000, 1000, 400, 200, 100, 25]
  | .other => [20000, 10000, 4000, 2000, 1000, 250]

/-- How a run ends. -/
structure Ended where
  exitCode : Nat
  calls : List ExecCall
  log : List Event

/-- `CreateExtIO` is called with a port only, and `OpenDevice` with a request only. -/
def Exec.opened : Bool := exec.port && (exec.request && exec.openError == 0)

/-- The calls up to the comparison. -/
def Exec.acquire : List ExecCall :=
  [.createPort exec.port] ++ (if exec.port then [.createExtIo exec.request] else []) ++
    (if exec.port && exec.request then [.openDevice exec.openError] else [])

/-- The calls after `cleanup`. -/
def Exec.cleanup : List ExecCall :=
  (if exec.opened then [.closeDevice] else []) ++
    (if exec.port && exec.request then [.deleteExtIo] else []) ++
    (if exec.port then [.deletePort] else [])

def clockCall : ExecCall := if usesSysTime build exec then .getSysTime else .readEClock

def main : Ended :=
  if exec.opened then
    let timing := runCases build fnCalcChecksum exec (sizes.zip (counts build)) 0
    ⟨if timing.ok then 0 else 1,
      exec.acquire ++ (if usesSysTime build exec then [] else [.readEClock]) ++
        List.replicate timing.readings (clockCall build exec) ++ exec.cleanup,
      [.print (.rate (frequency build exec)), .print .columns] ++ timing.log⟩
  else
    -- `ok` is still 1 at `cleanup`
    ⟨0, exec.acquire ++ exec.cleanup, [.print .unavailable]⟩

end

/-! ## When a part goes through -/

section

variable {build : Build} {fnCalcChecksum : List UInt8 → UInt8} {exec : Exec}

/-- The clock answers at `k` readings in a row. -/
def Answers (build : Build) (exec : Exec) (n k : Nat) : Prop :=
  ∀ j < k, (reading build exec (n + j)).isSome

/-- A clock that answers a number of readings answers the first ones and those after them. -/
theorem answers_add {n k l : Nat} :
    Answers build exec n (k + l) ↔ Answers build exec n k ∧ Answers build exec (n + k) l := by
  constructor
  · intro h
    refine ⟨fun j hj => h j (by omega), fun j hj => ?_⟩
    rw [Nat.add_assoc]
    exact h (k + j) (by omega)
  · rintro ⟨hfirst, hrest⟩ j hj
    rcases Nat.lt_or_ge j k with hlt | hge
    · exact hfirst j hlt
    · have hj' := hrest (j - k) (by omega)
      rwa [Nat.add_assoc, Nat.add_sub_cancel' hge] at hj'

theorem answers_two {n : Nat} :
    Answers build exec n 2 ↔
      (reading build exec n).isSome ∧ (reading build exec (n + 1)).isSome := by
  constructor
  · exact fun h => ⟨h 0 (by decide), h 1 (by decide)⟩
  · rintro ⟨hfirst, hsecond⟩ j hj
    rcases (by omega : j = 0 ∨ j = 1) with rfl | rfl
    · exact hfirst
    · exact hsecond

/-- A function of the list agrees with the library's on the buffer of a case. -/
def Mode.Agrees (fnCalcChecksum : List UInt8 → UInt8) (size : Nat) (mode : Mode) : Prop :=
  mode.call fnCalcChecksum (fillBuffer size) = fnCalcChecksum (fillBuffer size)

variable (fnCalcChecksum) in
/-- A loop runs to its end exactly where the routine agrees with the library: every pass computes
the same. -/
theorem loop_all_iff (size : Nat) {count : Nat} (hcount : 0 < count) (mode : Mode) :
    ((List.range count).all fun _ =>
        mode.call fnCalcChecksum (fillBuffer size) == fnCalcChecksum (fillBuffer size)) = true ↔
      mode.Agrees fnCalcChecksum size := by
  rw [List.all_eq_true]
  constructor
  · exact fun h => eq_of_beq (h 0 (List.mem_range.mpr hcount))
  · exact fun h _ _ => beq_iff_eq.mpr h

variable (build fnCalcChecksum exec) in
/-- **One function.** It goes through where both readings are answered and it agrees with the
library; the clock has been read twice then. -/
theorem timeMode_ok_iff (size : Nat) {count : Nat} (hcount : 0 < count) (mode : Mode) (n : Nat) :
    ((timeMode build fnCalcChecksum exec size count mode n).ok = true ↔
      mode.Agrees fnCalcChecksum size ∧ Answers build exec n 2) ∧
    ((timeMode build fnCalcChecksum exec size count mode n).ok = true →
      (timeMode build fnCalcChecksum exec size count mode n).readings = 2) := by
  have hloop := loop_all_iff fnCalcChecksum size hcount mode
  rw [answers_two]
  unfold timeMode
  dsimp only
  -- without the first reading the loop is not started
  cases reading build exec n with
  | none => simp
  | some start =>
    dsimp only
    split
    next hall =>
      have hagrees := hloop.mp hall
      cases reading build exec (n + 1) with
      | none => simp
      | some stop => simp [hagrees]
    next hsome =>
      have hagrees : ¬ mode.Agrees fnCalcChecksum size := fun h => hsome (hloop.mpr h)
      simp [hagrees]

variable (build fnCalcChecksum exec) in
/-- The loops of a case all finish exactly where their routines agree and every reading is answered.
There are then two readings for each. -/
theorem timeModes_ok_iff (size : Nat) {count : Nat} (hcount : 0 < count) (modes : List Mode)
    (n : Nat) :
    ((timeModes build fnCalcChecksum exec size count modes n).ok = true ↔
      (∀ mode ∈ modes, mode.Agrees fnCalcChecksum size) ∧
        Answers build exec n (2 * modes.length)) ∧
    ((timeModes build fnCalcChecksum exec size count modes n).ok = true →
      (timeModes build fnCalcChecksum exec size count modes n).readings = 2 * modes.length) := by
  induction modes generalizing n with
  | nil => simp [timeModes, Answers]
  | cons mode modes ih =>
    obtain ⟨hok, hreadings⟩ := timeMode_ok_iff build fnCalcChecksum exec size hcount mode n
    have hlength : 2 * (mode :: modes).length = 2 + 2 * modes.length := by
      rw [List.length_cons]
      omega
    rw [timeModes, List.forall_mem_cons, hlength, answers_add]
    dsimp only
    split
    next hfirst =>
      -- the first loop is done, and the rest starts after its two readings
      rw [hreadings hfirst]
      obtain ⟨hrest, hrestReadings⟩ := ih (n + 2)
      obtain ⟨hagrees, hanswers⟩ := hok.mp hfirst
      dsimp only
      refine ⟨?_, fun h => by rw [hrestReadings h]⟩
      rw [hrest]
      tauto
    next hfirst =>
      have hnot := fun h => hfirst (hok.mpr h)
      -- the first loop failed, so that nothing comes after it
      refine ⟨⟨fun h => absurd h hfirst, ?_⟩, fun h => absurd h hfirst⟩
      exact fun h => absurd ⟨h.1.1, h.2.1⟩ hnot

variable (build fnCalcChecksum exec) in
/-- **One case.** It goes through where the library agrees with the fold, and all six readings are
answered. -/
theorem runCase_ok_iff (size : Nat) {count : Nat} (hcount : 0 < count) (n : Nat) :
    ((runCase build fnCalcChecksum exec size count n).ok = true ↔
      fnCalcChecksum (fillBuffer size) = foldResult (fillBuffer size) ∧ Answers build exec n 6) ∧
    ((runCase build fnCalcChecksum exec size count n).ok = true →
      (runCase build fnCalcChecksum exec size count n).readings = 6) := by
  have hmodes := timeModes_ok_iff build fnCalcChecksum exec size hcount [.c, .addx, .branch] n
  have hagrees : (∀ mode ∈ [Mode.c, .addx, .branch], mode.Agrees fnCalcChecksum size) ↔
      fnCalcChecksum (fillBuffer size) = foldResult (fillBuffer size) := by
    simp only [List.forall_mem_cons, List.not_mem_nil, IsEmpty.forall_iff, implies_true, and_true]
    constructor
    · exact fun h => h.2.1.symm
    · exact fun h => ⟨rfl, h.symm, h.symm⟩
  rw [hagrees] at hmodes
  exact hmodes

variable (build fnCalcChecksum exec) in
/-- All the cases finish exactly where both routines agree with the library on every size and all
six readings of each case are answered. -/
theorem runCases_ok_iff {cases : List (Nat × Nat)} (hcounts : ∀ c ∈ cases, 0 < c.2) (n : Nat) :
    ((runCases build fnCalcChecksum exec cases n).ok = true ↔
      (∀ c ∈ cases, fnCalcChecksum (fillBuffer c.1) = foldResult (fillBuffer c.1)) ∧
        Answers build exec n (6 * cases.length)) ∧
    ((runCases build fnCalcChecksum exec cases n).ok = true →
      (runCases build fnCalcChecksum exec cases n).readings = 6 * cases.length) := by
  induction cases generalizing n with
  | nil => simp [runCases, Answers]
  | cons c cases ih =>
    obtain ⟨size, count⟩ := c
    obtain ⟨hok, hreadings⟩ := runCase_ok_iff build fnCalcChecksum exec size
      (hcounts _ List.mem_cons_self) n
    have hlength : 6 * ((size, count) :: cases).length = 6 + 6 * cases.length := by
      rw [List.length_cons]
      omega
    rw [runCases, List.forall_mem_cons, hlength, answers_add]
    dsimp only
    rw [Bool.and_eq_true]
    by_cases hfirst : (runCase build fnCalcChecksum exec size count n).ok = true
    · -- the first case is done, and the rest starts after its six readings
      rw [hreadings hfirst]
      obtain ⟨hrest, hrestReadings⟩ :=
        ih (fun c hc => hcounts c (List.mem_cons_of_mem _ hc)) (n + 6)
      obtain ⟨hagrees, hanswers⟩ := hok.mp hfirst
      refine ⟨?_, fun h => by rw [hrestReadings h.2]⟩
      rw [hrest]
      tauto
    · -- the case failed: the cases after it run all the same, and the exit code stays wrong
      have hnot := fun h => hfirst (hok.mpr h)
      exact ⟨⟨fun h => absurd h.1 hfirst, fun h => absurd ⟨h.1.1, h.2.1⟩ hnot⟩,
        fun h => absurd h.1 hfirst⟩

end

theorem counts_pos (build : Build) : ∀ c ∈ sizes.zip (counts build), 0 < c.2 := by
  cases build <;> decide

theorem map_fst_cases (build : Build) : (sizes.zip (counts build)).map Prod.fst = sizes := by
  cases build <;> rfl

/-- **When the benchmark exits with 0.** For every build, library and clock: exactly when there was
no device to open, or the library agrees with the fold on all six buffers and all thirty-six
readings of the clock are answered. -/
theorem main_passes_iff (build : Build) (fnCalcChecksum : List UInt8 → UInt8) (exec : Exec) :
    (main build fnCalcChecksum exec).exitCode = 0 ↔
      (exec.opened = true →
        (∀ size ∈ sizes, fnCalcChecksum (fillBuffer size) = foldResult (fillBuffer size)) ∧
          Answers build exec 0 36) := by
  -- the counts play no part in whether the checksums agree
  have hsizes : (∀ c ∈ sizes.zip (counts build),
      fnCalcChecksum (fillBuffer c.1) = foldResult (fillBuffer c.1)) ↔
      ∀ size ∈ sizes, fnCalcChecksum (fillBuffer size) = foldResult (fillBuffer size) := by
    have hmap := List.forall_mem_map (f := Prod.fst) (l := sizes.zip (counts build))
      (P := fun size => fnCalcChecksum (fillBuffer size) = foldResult (fillBuffer size))
    rw [map_fst_cases] at hmap
    exact hmap.symm
  have hcases := (runCases_ok_iff build fnCalcChecksum exec (counts_pos build) 0).1
  have hlength : 6 * (sizes.zip (counts build)).length = 36 := by cases build <;> rfl
  rw [hsizes, hlength] at hcases
  unfold main
  split
  next hopened =>
    dsimp only
    rw [← hcases]
    cases (runCases build fnCalcChecksum exec (sizes.zip (counts build)) 0).ok <;> simp [hopened]
  next hclosed => simp [hclosed]

/-! ## What the lines say -/

section

variable {build : Build} {fnCalcChecksum : List UInt8 → UInt8} {exec : Exec}

/-- What a line says, after what was done before it. The figures of a loop stand after two readings
with the calls of the loop between them, and are those of the true interval between these two, if
the clock did not pass a multiple of `2 ^ 32` in it. A mismatch is one of the ADDX routine, and
stands after the call it is about. -/
def Line.Right (build : Build) (fnCalcChecksum : List UInt8 → UInt8) (exec : Exec)
    (before : List Event) : Line → Prop
  | .unavailable => exec.opened = false
  | .rate ticksPerSecond => ticksPerSecond = frequency build exec
  | .columns => True
  | .timed size count mode ticks perIteration microseconds =>
    (size, count) ∈ sizes.zip (counts build) ∧ mode.Agrees fnCalcChecksum size ∧
      frequency build exec * count % 2 ^ 64 ≠ 0 ∧
      ∃ n, [.read n, .calls mode size count, .read (n + 1)] <:+ before ∧ Answers build exec n 2 ∧
        ∀ i : Interval build exec.timer, i.start = exec.moments n →
          i.stop = exec.moments (n + 1) → build = .kick13 ∨ i.NoWrap →
          ticks = i.ticks ∧ perIteration = i.ticks / count ∧
            microseconds = i.ticks * 1000000 / (frequency build exec * count) % 2 ^ 32
  | .mismatch mode size expected got =>
    mode = .addx ∧ size ∈ sizes ∧ expected = fnCalcChecksum (fillBuffer size) ∧
      got = foldResult (fillBuffer size) ∧ expected ≠ got ∧
      ∃ n, [.read n, .calls .addx size 1] <:+ before

/-- What was done earlier still does not change what a line says. -/
theorem Line.Right.append {before : List Event} {line : Line}
    (h : line.Right build fnCalcChecksum exec before) (earlier : List Event) :
    line.Right build fnCalcChecksum exec (earlier ++ before) := by
  cases line with
  | unavailable => exact h
  | rate ticksPerSecond => exact h
  | columns => exact h
  | timed size count mode ticks perIteration microseconds =>
    obtain ⟨hcase, hagrees, hdivisor, n, hsuffix, hrest⟩ := h
    exact ⟨hcase, hagrees, hdivisor, n, hsuffix.trans (List.suffix_append _ _), hrest⟩
  | mismatch mode size expected got =>
    obtain ⟨hmode, hsize, hexpected, hgot, hne, n, hsuffix⟩ := h
    exact ⟨hmode, hsize, hexpected, hgot, hne, n, hsuffix.trans (List.suffix_append _ _)⟩

/-- Every line in a log is right. -/
def LinesRight (build : Build) (fnCalcChecksum : List UInt8 → UInt8) (exec : Exec)
    (log : List Event) : Prop :=
  ∀ before line after, log = before ++ .print line :: after →
    line.Right build fnCalcChecksum exec before

theorem linesRight_silent {log : List Event} (hsilent : ∀ line, .print line ∉ log) :
    LinesRight build fnCalcChecksum exec log := by
  rintro before line after rfl
  exact absurd (by simp) (hsilent line)

/-- A line after a part that prints nothing. -/
theorem linesRight_concat {log : List Event} (hsilent : ∀ line, .print line ∉ log) {line : Line}
    (hline : line.Right build fnCalcChecksum exec log) :
    LinesRight build fnCalcChecksum exec (log ++ [.print line]) := by
  intro before line' after hsplit
  rcases List.append_eq_append_iff.mp hsplit with ⟨rest, rfl, hrest⟩ | ⟨rest, rfl, hrest⟩
  · -- the line is the one that was added, as the part before it prints none
    cases rest with
    | nil =>
      obtain ⟨hhead, -⟩ := List.cons.inj hrest
      cases hhead
      rwa [List.append_nil]
    | cons event rest => simp at hrest
  · cases rest with
    | nil =>
      obtain ⟨hhead, -⟩ := List.cons.inj hrest
      cases hhead
      rwa [List.append_nil] at hline
    | cons event rest =>
      obtain ⟨rfl, -⟩ := List.cons.inj hrest
      exact absurd (by simp) (hsilent line')

theorem linesRight_single {line : Line} (hline : line.Right build fnCalcChecksum exec []) :
    LinesRight build fnCalcChecksum exec [.print line] :=
  linesRight_concat (fun _ => List.not_mem_nil) hline

/-- Two parts that are right one after another: what is done before a line does not change what it
says. -/
theorem LinesRight.append {log log' : List Event} (h : LinesRight build fnCalcChecksum exec log)
    (h' : LinesRight build fnCalcChecksum exec log') :
    LinesRight build fnCalcChecksum exec (log ++ log') := by
  intro before line after hsplit
  rcases List.append_eq_append_iff.mp hsplit with ⟨rest, rfl, hrest⟩ | ⟨rest, rfl, hrest⟩
  · exact (h' rest line after hrest).append log
  · cases rest with
    | nil =>
      have hright := (h' [] line after hrest.symm).append before
      rwa [List.append_nil] at hright
    | cons event rest =>
      obtain ⟨rfl, -⟩ := List.cons.inj hrest
      exact h before line rest rfl

/-- The frequency is a positive number of 32 bits, so that no division by it is by zero. -/
theorem frequency_bounds (build : Build) (exec : Exec) :
    0 < frequency build exec ∧ frequency build exec < 2 ^ 32 := by
  unfold frequency
  split
  next => decide
  next => exact ⟨exec.frequency_pos, exec.timer.frequency_lt⟩

/-- The elapsed value of a loop, where the clock did not wrap. -/
theorem elapsed_eq_ticks {n start stop : Nat} (hstart : reading build exec n = some start)
    (hstop : reading build exec (n + 1) = some stop) {i : Interval build exec.timer}
    (histart : i.start = exec.moments n) (histop : i.stop = exec.moments (n + 1))
    (hwrap : build = .kick13 ∨ i.NoWrap) : elapsed build start stop = i.ticks := by
  have htimed : timeLoop { i with matched := true } = some (elapsed build start stop) := by
    simp only [timeLoop, histart, histop]
    rw [show benchmarkClock build exec.timer (exec.moments n) = some start from hstart,
      show benchmarkClock build exec.timer (exec.moments (n + 1)) = some stop from hstop]
    rfl
  exact (timeLoop_exact_iff htimed).mpr hwrap

/-- An interval has less than `2 ^ 32` ticks as the code computes it. -/
theorem ticks_lt (i : Interval build exec.timer) : i.ticks < 2 ^ 32 := by
  have hwithin := i.within
  unfold Interval.ticks
  omega

theorem counts_le (build : Build) : ∀ c ∈ sizes.zip (counts build), c.2 ≤ 20000 := by
  cases build <;> decide

/-- The divisor fits its 64 bits. -/
theorem divisor_eq {size count : Nat} (hcase : (size, count) ∈ sizes.zip (counts build)) :
    frequency build exec * count % 2 ^ 64 = frequency build exec * count := by
  apply Nat.mod_eq_of_lt
  calc frequency build exec * count ≤ 2 ^ 32 * 20000 :=
        Nat.mul_le_mul (frequency_bounds build exec).2.le (counts_le build _ hcase)
    _ < 2 ^ 64 := by decide

/-- The arithmetic of `microseconds_per_iteration` does not overflow for any size and count of the
program. -/
theorem microseconds_eq {ticks size count : Nat} (hticks : ticks < 2 ^ 32)
    (hcase : (size, count) ∈ sizes.zip (counts build)) :
    microsecondsPerIteration build ticks count (frequency build exec) =
      ticks * 1000000 / (frequency build exec * count) % 2 ^ 32 := by
  have hdivisor := (divisor_eq hcase : frequency build exec * count % 2 ^ 64 = _)
  cases build with
  | kick13 =>
    show ticks / count = ticks * 1000000 / (1000000 * count) % 2 ^ 32
    have hquotient : ticks / count ≤ ticks := Nat.div_le_self _ _
    rw [Nat.mul_comm ticks, Nat.mul_div_mul_left _ _ (by decide), Nat.mod_eq_of_lt (by omega)]
  | other =>
    rw [microsecondsPerIteration, Nat.mod_eq_of_lt (show ticks * 1000000 < 2 ^ 64 by omega),
      hdivisor]

/-- The line of a loop is right after the loop's own two readings and its calls. -/
theorem timedLine_right {size count : Nat} (hcase : (size, count) ∈ sizes.zip (counts build))
    {mode : Mode} (hagrees : mode.Agrees fnCalcChecksum size) {n start stop : Nat}
    (hstart : reading build exec n = some start)
    (hstop : reading build exec (n + 1) = some stop) :
    (timedLine build exec size count mode (elapsed build start stop)).Right build fnCalcChecksum
      exec [.read n, .calls mode size count, .read (n + 1)] := by
  have hcount := counts_pos build _ hcase
  -- the divisor does not come to 0 when it is cut to 64 bits
  have hdivisor : frequency build exec * count % 2 ^ 64 ≠ 0 := by
    rw [divisor_eq hcase]
    exact (Nat.mul_pos (frequency_bounds build exec).1 hcount).ne'
  have hanswers : Answers build exec n 2 :=
    answers_two.mpr ⟨by rw [hstart]; rfl, by rw [hstop]; rfl⟩
  refine ⟨hcase, hagrees, hdivisor, n, List.suffix_refl _, hanswers, ?_⟩
  intro i histart histop hwrap
  have hlt := ticks_lt i
  have hquotient : i.ticks / count ≤ i.ticks := Nat.div_le_self _ _
  rw [elapsed_eq_ticks hstart hstop histart histop hwrap]
  -- nor are the ticks or the quotient cut to 32 bits
  exact ⟨Nat.mod_eq_of_lt hlt, Nat.mod_eq_of_lt (by omega),
    microseconds_eq hlt hcase⟩

/-- What one function does where it agrees and both readings are answered. -/
theorem timeMode_of_agrees {size count : Nat} (hcount : 0 < count) {mode : Mode}
    (hagrees : mode.Agrees fnCalcChecksum size) {n start stop : Nat}
    (hstart : reading build exec n = some start)
    (hstop : reading build exec (n + 1) = some stop) :
    timeMode build fnCalcChecksum exec size count mode n =
      ⟨true, 2, [.read n, .calls mode size count, .read (n + 1)] ++
        [.print (timedLine build exec size count mode (elapsed build start stop))]⟩ := by
  have hall := (loop_all_iff fnCalcChecksum size hcount mode).mpr hagrees
  unfold timeMode
  rw [hstart, hstop]
  dsimp only
  rw [if_pos hall]
  rfl

/-- **One function.** Its lines are right, if the branching routine is only come to where it agrees
with the library. -/
theorem timeMode_right {size count : Nat} (hcase : (size, count) ∈ sizes.zip (counts build))
    {mode : Mode} (hbranch : mode = .branch → mode.Agrees fnCalcChecksum size) (n : Nat) :
    LinesRight build fnCalcChecksum exec
      (timeMode build fnCalcChecksum exec size count mode n).log := by
  have hcount := counts_pos build _ hcase
  have hloop := loop_all_iff fnCalcChecksum size hcount mode
  have hsize : size ∈ sizes := (List.of_mem_zip hcase).1
  by_cases hagrees : mode.Agrees fnCalcChecksum size
  · cases hstart : reading build exec n with
    -- no first reading: nothing is printed
    | none =>
      unfold timeMode
      rw [hstart]
      exact linesRight_silent (by simp)
    | some start =>
      cases hstop : reading build exec (n + 1) with
      -- no second reading: the calls are made and nothing is printed
      | none =>
        unfold timeMode
        rw [hstart, hstop]
        dsimp only
        rw [if_pos (hloop.mpr hagrees)]
        exact linesRight_silent (by simp)
      | some stop =>
        rw [timeMode_of_agrees hcount hagrees hstart hstop]
        exact linesRight_concat (by simp) (timedLine_right hcase hagrees hstart hstop)
  · -- only the ADDX routine can be one that does not agree
    unfold timeMode
    split
    next => exact linesRight_silent (by simp)
    next start hstart =>
      dsimp only
      rw [if_neg fun h => hagrees (hloop.mp h)]
      cases mode with
      | c => exact absurd rfl hagrees
      | addx =>
        rw [if_neg Mode.noConfusion]
        exact linesRight_concat (by simp)
          ⟨rfl, hsize, rfl, rfl, fun heq => hagrees heq.symm, n, List.suffix_refl _⟩
      | branch => exact absurd (hbranch rfl) hagrees

/-- The functions after the first are come to where it went through. -/
theorem timeModes_right {size count n : Nat} {mode : Mode} {modes : List Mode}
    (hfirst : LinesRight build fnCalcChecksum exec
      (timeMode build fnCalcChecksum exec size count mode n).log)
    (hrest : (timeMode build fnCalcChecksum exec size count mode n).ok = true →
      ∀ n', LinesRight build fnCalcChecksum exec
        (timeModes build fnCalcChecksum exec size count modes n').log) :
    LinesRight build fnCalcChecksum exec
      (timeModes build fnCalcChecksum exec size count (mode :: modes) n).log := by
  rw [timeModes]
  dsimp only
  split
  next hok => exact hfirst.append (hrest hok _)
  next => exact hfirst

/-- **One case.** Once the ADDX routine has agreed with the library, the branching one does. -/
theorem runCase_right {size count : Nat} (hcase : (size, count) ∈ sizes.zip (counts build))
    (n : Nat) :
    LinesRight build fnCalcChecksum exec
      (runCase build fnCalcChecksum exec size count n).log := by
  have hcount := counts_pos build _ hcase
  have hmodes : LinesRight build fnCalcChecksum exec
      (timeModes build fnCalcChecksum exec size count [.c, .addx, .branch] n).log := by
    refine timeModes_right (timeMode_right hcase Mode.noConfusion n) fun _ n₁ => ?_
    refine timeModes_right (timeMode_right hcase Mode.noConfusion n₁) fun haddx n₂ => ?_
    have hbranch : Mode.Agrees fnCalcChecksum size .branch :=
      ((timeMode_ok_iff build fnCalcChecksum exec size hcount .addx n₁).1.mp haddx).1
    refine timeModes_right (timeMode_right hcase (fun _ => hbranch) n₂) fun _ _ => ?_
    exact linesRight_silent fun _ => List.not_mem_nil
  have hexpected : LinesRight build fnCalcChecksum exec [.calls .c size 1] :=
    linesRight_silent (by simp)
  exact hexpected.append hmodes

/-- By induction over the cases. -/
theorem runCases_right {cases : List (Nat × Nat)}
    (hcases : ∀ c ∈ cases, c ∈ sizes.zip (counts build)) (n : Nat) :
    LinesRight build fnCalcChecksum exec (runCases build fnCalcChecksum exec cases n).log := by
  induction cases generalizing n with
  | nil => exact linesRight_silent fun _ => List.not_mem_nil
  | cons c cases ih =>
    exact (runCase_right (hcases c List.mem_cons_self) n).append
      (ih (fun c hc => hcases c (List.mem_cons_of_mem _ hc)) _)

/-- The number of a reading. -/
def Event.reading : Event → Option Nat
  | .read n => some n
  | _ => none

/-- The readings in a log. -/
def readings (log : List Event) : List Nat := log.filterMap Event.reading

theorem readings_append (log log' : List Event) :
    readings (log ++ log') = readings log ++ readings log' :=
  List.filterMap_append

variable (build fnCalcChecksum exec)

/-- The readings of one loop are those after the ones made before. -/
theorem readings_timeMode (size count : Nat) (mode : Mode) (n : Nat) :
    readings (timeMode build fnCalcChecksum exec size count mode n).log =
      List.range' n (timeMode build fnCalcChecksum exec size count mode n).readings := by
  unfold timeMode
  split
  next => rfl
  next =>
    dsimp only
    split
    next =>
      split
      next => rfl
      next => rfl
    next =>
      split
      next => rfl
      next => rfl

/-- The readings of the loops of one case follow one another. -/
theorem readings_timeModes (size count : Nat) (modes : List Mode) (n : Nat) :
    readings (timeModes build fnCalcChecksum exec size count modes n).log =
      List.range' n (timeModes build fnCalcChecksum exec size count modes n).readings := by
  induction modes generalizing n with
  | nil => rfl
  | cons mode modes ih =>
    rw [timeModes]
    dsimp only
    split
    next => rw [readings_append, readings_timeMode, ih, List.range'_append_1]
    next => exact readings_timeMode build fnCalcChecksum exec size count mode n

/-- The clock is read for the `n`th, the next and so on to the last time. -/
theorem readings_runCases (cases : List (Nat × Nat)) (n : Nat) :
    readings (runCases build fnCalcChecksum exec cases n).log =
      List.range' n (runCases build fnCalcChecksum exec cases n).readings := by
  induction cases generalizing n with
  | nil => rfl
  | cons c cases ih =>
    have hcase : readings (runCase build fnCalcChecksum exec c.1 c.2 n).log =
        List.range' n (runCase build fnCalcChecksum exec c.1 c.2 n).readings :=
      readings_timeModes build fnCalcChecksum exec c.1 c.2 _ n
    rw [runCases]
    dsimp only
    rw [readings_append, hcase, ih, List.range'_append_1]

end

/-- A machine with a `timer.device` from before version 36, on which two seconds pass between any
two readings. -/
def steadyExec : Exec where
  port := true
  request := true
  openError := 0
  timer := ⟨34, 1, Nat.one_lt_two_pow (by decide)⟩
  frequency_pos := Nat.one_pos
  moments n := ⟨2000000 * n, 0, 0⟩

/-- What is done there up to the first line of figures. -/
theorem steadyExec_log : ∃ after, (main .other foldResult steadyExec).log =
    [.print (.rate 1000000), .print .columns, .calls .c 16 1, .read 0, .calls .c 16 20000,
      .read 1] ++ .print (.timed 16 20000 .c 2000000 100 100) :: after := by
  have hagrees : Mode.c.Agrees foldResult 16 := rfl
  have hfirst : timeMode .other foldResult steadyExec 16 20000 .c 0 = _ :=
    timeMode_of_agrees (by decide) hagrees rfl rfl
  have hcases : sizes.zip (counts .other) = (16, 20000) :: (sizes.zip (counts .other)).tail := rfl
  have hopened : steadyExec.opened = true := rfl
  unfold main
  rw [if_pos hopened, hcases, runCases, runCase, timeModes, hfirst]
  exact ⟨_, rfl⟩

/-- The port, the request and the device that the program holds. -/
structure Held where
  port : Bool
  request : Bool
  device : Bool
  deriving DecidableEq

/-- One call, where it may be made. -/
def Held.next (held : Held) : ExecCall → Option Held
  | .createPort found => if held.port then none else some { held with port := found }
  | .createExtIo found =>
    if held.port && !held.request then some { held with request := found } else none
  | .openDevice error =>
    if held.request && !held.device then some { held with device := error == 0 } else none
  | .getSysTime | .readEClock => if held.device then some held else none
  | .closeDevice => if held.device then some { held with device := false } else none
  | .deleteExtIo =>
    if held.request && !held.device then some { held with request := false } else none
  | .deletePort => if held.port && !held.request then some { held with port := false } else none

/-- Readings of the clock while the device is open. -/
theorem foldlM_clock {held : Held} (hdevice : held.device = true) {call : ExecCall}
    (hclock : call = .getSysTime ∨ call = .readEClock) (k : Nat) :
    (List.replicate k call).foldlM Held.next held = some held := by
  have hnext : held.next call = some held := by
    rcases hclock with rfl | rfl
    · exact if_pos hdevice
    · exact if_pos hdevice
  induction k with
  | zero => rfl
  | succ k ih =>
    rw [List.replicate_succ, List.foldlM_cons, hnext]
    exact ih

/-- **What the benchmark holds.** In every run the clock is read only while the device is open, and
everything that was got is given back once. -/
theorem main_releases (build : Build) (fnCalcChecksum : List UInt8 → UInt8) (exec : Exec) :
    (main build fnCalcChecksum exec).calls.foldlM Held.next ⟨false, false, false⟩ =
      some ⟨false, false, false⟩ := by
  unfold main
  split
  next hopened =>
    -- all three are held from here on
    obtain ⟨hport, hrequest, herror⟩ : exec.port = true ∧ exec.request = true ∧
        (exec.openError == 0) = true := by
      simpa [Exec.opened] using hopened
    have hacquire : exec.acquire.foldlM Held.next ⟨false, false, false⟩ =
        some ⟨true, true, true⟩ := by
      simp [Exec.acquire, Held.next, hport, hrequest, herror]
    -- what is cleaned up is what was taken
    have hcleanup : exec.cleanup.foldlM Held.next ⟨true, true, true⟩ =
        some ⟨false, false, false⟩ := by
      simp [Exec.cleanup, Held.next, hopened, hport, hrequest]
    have hclock : clockCall build exec = .getSysTime ∨ clockCall build exec = .readEClock := by
      unfold clockCall
      split
      next => exact .inl rfl
      next => exact .inr rfl
    have hreadings : ∀ k, (List.replicate k (clockCall build exec)).foldlM Held.next
        ⟨true, true, true⟩ = some ⟨true, true, true⟩ := foldlM_clock rfl hclock
    have hrate : (if usesSysTime build exec then [] else [ExecCall.readEClock]).foldlM Held.next
        ⟨true, true, true⟩ = some ⟨true, true, true⟩ := by
      split
      next => rfl
      next => rfl
    dsimp only
    rw [List.foldlM_append, List.foldlM_append, List.foldlM_append, hacquire]
    simp only [Option.bind_eq_bind, Option.bind_some, hrate, hreadings, hcleanup]
  next hclosed =>
    -- something was missing, and only what was there before it is given back
    dsimp only [Exec.acquire, Exec.cleanup]
    cases hport : exec.port with
    | false => simp [Held.next, Exec.opened, hport]
    | true =>
      cases hrequest : exec.request with
      | false => simp [Held.next, Exec.opened, hport, hrequest]
      | true =>
        have herror : (exec.openError == 0) = false := by
          simpa [Exec.opened, hport, hrequest] using hclosed
        simp [Held.next, Exec.opened, hport, hrequest, herror]

end NioApps.Checksumbench
