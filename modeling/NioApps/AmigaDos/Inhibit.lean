import NioApps.Lib.Custody

/-!
# AmigaDOS — changing the medium under an inhibited handler

`fmount_inhibit_exp_a.c` and `fmount_inhibit_exp_b.c` change the medium of unit 0 while the handler
of `DN0:` is inhibited. The second lets the handler go on itself; the first starts itself again to
do it, with the arguments `false DH0:exp-a-false.result`. `inhibitpoc.c` only inhibits the handler,
or lets it go on.

* `replaceMedia`, `expA`, `expB`, `inhibitpoc` — the programs, over the answers of the system.
* `session_safe` — in any sequence of their runs the medium is changed only while the handler is
  inhibited, and what is taken from the system is given back.
* `handler_left` — how the runs end, and how they leave the handler: the second program tells by its
  exit code whether the handler goes on, the first does not.
-/

namespace NioApps.Inhibit

open Custody

/-! ## The system -/

inductive Line where
  | inhibit (on : Bool) (result error : Int)
  | replacement (result : Int)
  deriving DecidableEq

/-- What the programs ask of the system, with the answers. -/
inductive Call where
  | openFile (name : String) (found : Bool)
  | fPrintf (line : Line)
  | closeFile
  | printf (line : Line)
  | inhibit (on : Bool) (result : Int)
  | createPort (found : Bool)
  | createExtIo (found : Bool)
  | openDevice (error : Int)
  | mountCatalog (slot writable : UInt8) (result : Int)
  | closeDevice
  | deleteExtIo
  | deletePort
  | execute
  deriving DecidableEq

/-- The answers to the calls of one run of a program, with the value `atoi` gives for its last
argument. `Inhibit` gives a result and leaves an error. -/
structure Answers where
  output : Bool
  inhibit : Bool → Int × Int
  port : Bool
  request : Bool
  openError : Int
  mounted : Int
  slot : Int

structure Outcome where
  exitCode : Nat
  calls : List Call
  deriving DecidableEq

/-! ## The programs -/

/-- The result, with the calls. -/
def replaceMedia (a : Answers) (slot : UInt8) : Int × List Call :=
  if a.port then
    if a.request then
      if a.openError = 0 then
        (a.mounted, [.createPort true, .createExtIo true, .openDevice 0,
          .mountCatalog slot 0 a.mounted, .closeDevice, .deleteExtIo, .deletePort])
      else (-102, [.createPort true, .createExtIo true, .openDevice a.openError, .deleteExtIo,
        .deletePort])
    else (-101, [.createPort true, .createExtIo false, .deletePort])
  else (-100, [.createPort false])

/-- `Inhibit`, and the line about it. -/
def inhibitCalls (a : Answers) (on : Bool) : List Call :=
  [.inhibit on (a.inhibit on).1, .fPrintf (.inhibit on (a.inhibit on).1 (a.inhibit on).2)]

/-- `replace_media`, and the line about it. -/
def replaceCalls (a : Answers) : List Call :=
  (replaceMedia a (UInt8.ofInt a.slot)).2 ++
    [.fPrintf (.replacement (replaceMedia a (UInt8.ofInt a.slot)).1)]

/-- `fmount_inhibit_exp_a`; `argv` is without the name of the program, and `started` are the calls
of what `Execute` starts. -/
def expA (a : Answers) (started : List Call) (argv : List String) : Outcome :=
  match argv with
  | [first, second] =>
    if first = "false" then
      if a.output then
        ⟨if (a.inhibit false).1 ≠ 0 then 0 else 31,
          .openFile second true :: inhibitCalls a false ++ [.closeFile]⟩
      else ⟨21, [.openFile second false]⟩
    else if a.output then
      if (a.inhibit true).1 = 0 then
        ⟨30, .openFile first true :: inhibitCalls a true ++ [.closeFile]⟩
      else
        ⟨if (replaceMedia a (UInt8.ofInt a.slot)).1 = 0 then 0 else 10,
          .openFile first true :: (inhibitCalls a true ++ replaceCalls a) ++ [.closeFile] ++
            .execute :: started⟩
    else ⟨21, [.openFile first false]⟩
  | _ => ⟨20, []⟩

/-- What `Execute` starts, where it does: the same program. -/
def executed (child : Option Answers) : List Call :=
  match child with
  | none => []
  | some a => (expA a [] ["false", "DH0:exp-a-false.result"]).calls

/-- `fmount_inhibit_exp_b`. -/
def expB (a : Answers) (argv : List String) : Outcome :=
  match argv with
  | [first, _] =>
    if a.output then
      if (a.inhibit true).1 = 0 then
        ⟨30, .openFile first true :: inhibitCalls a true ++ [.closeFile]⟩
      else
        ⟨if (replaceMedia a (UInt8.ofInt a.slot)).1 = 0 ∧ (a.inhibit false).1 ≠ 0 then 0 else 31,
          .openFile first true :: (inhibitCalls a true ++ replaceCalls a ++ inhibitCalls a false) ++
            [.closeFile]⟩
    else ⟨21, [.openFile first false]⟩
  | _ => ⟨20, []⟩

def inhibitpoc (a : Answers) (argv : List String) : Outcome :=
  match argv with
  | [first] =>
    if first.toList.head? = some '0' ∨ first.toList.head? = some '1' then
      let on := first.toList.head? == some '1'
      ⟨if (a.inhibit on).1 ≠ 0 then 0 else 1,
        [.inhibit on (a.inhibit on).1, .printf (.inhibit on (a.inhibit on).1 (a.inhibit on).2)]⟩
    else ⟨20, []⟩
  | _ => ⟨20, []⟩

/-- A run that is started, with the answers it gets; `child` are those for what `Execute` starts. -/
inductive Run where
  | expA (a : Answers) (child : Option Answers) (argv : List String)
  | expB (a : Answers) (argv : List String)
  | inhibitpoc (a : Answers) (argv : List String)

def Run.outcome : Run → Outcome
  | .expA a child argv => Inhibit.expA a (executed child) argv
  | .expB a argv => Inhibit.expB a argv
  | .inhibitpoc a argv => Inhibit.inhibitpoc a argv

/-- The calls of runs one after another. -/
def log (runs : List Run) : List Call := runs.flatMap fun run => run.outcome.calls

/-! ## Whether the handler is inhibited -/

/-- The argument of the last call of `Inhibit` that succeeded. -/
def inhibited (s : Option Bool) : Call → Option Bool
  | .inhibit on result => if result ≠ 0 then some on else s
  | _ => s

def lastInhibit (s : Option Bool) (calls : List Call) : Option Bool := calls.foldl inhibited s

/-- The medium is changed only while the handler is inhibited. -/
def Guarded : Option Bool → List Call → Prop
  | _, [] => True
  | s, .mountCatalog _ _ _ :: calls => s = some true ∧ Guarded s calls
  | s, call :: calls => Guarded (inhibited s call) calls

theorem guarded_nil (s : Option Bool) : Guarded s [] := trivial

/-- The second part of a log is judged by how the first part leaves the handler. -/
theorem guarded_append {s : Option Bool} {calls calls' : List Call} :
    Guarded s (calls ++ calls') ↔ Guarded s calls ∧ Guarded (lastInhibit s calls) calls' := by
  induction calls generalizing s with
  | nil => exact (true_and _).symm.to_iff
  | cons call calls ih =>
    cases call with
    | mountCatalog slot writable result =>
      -- the one call that asks for something; it leaves the handler as it is
      show s = some true ∧ Guarded s (calls ++ calls') ↔ _
      rw [ih, ← and_assoc]
      rfl
    | _ => exact ih

theorem lastInhibit_append (s : Option Bool) (calls calls' : List Call) :
    lastInhibit s (calls ++ calls') = lastInhibit (lastInhibit s calls) calls' :=
  List.foldl_append

theorem lastInhibit_inhibitCalls (s : Option Bool) (a : Answers) (on : Bool) :
    lastInhibit s (inhibitCalls a on) = if (a.inhibit on).1 ≠ 0 then some on else s := rfl

theorem guarded_inhibitCalls (s : Option Bool) (a : Answers) (on : Bool) :
    Guarded s (inhibitCalls a on) := trivial

/-- `replace_media` needs the handler inhibited, and leaves it so. -/
theorem guarded_replaceCalls (a : Answers) : Guarded (some true) (replaceCalls a) := by
  unfold replaceCalls
  refine guarded_append.mpr ⟨?_, trivial⟩
  unfold replaceMedia
  split
  next =>
    split
    next =>
      split
      next => exact ⟨rfl, trivial⟩
      next => trivial
    next => trivial
  next => trivial

/-- Changing the medium does not touch the handler's state. -/
theorem lastInhibit_replaceCalls (s : Option Bool) (a : Answers) :
    lastInhibit s (replaceCalls a) = s := by
  unfold replaceCalls replaceMedia
  split
  next =>
    split
    next =>
      split
      next => rfl
      next => rfl
    next => rfl
  next => rfl

/-! ## What is taken from the system -/

inductive Resource where
  | output
  | port
  | request
  | device
  deriving DecidableEq

/-- A request is sent back to its port, and a device is opened for a request. -/
def Resource.needs : Resource → List Resource
  | .output => []
  | .port => []
  | .request => [.port]
  | .device => [.request]

def Call.act : Call → Option (Act Resource)
  | .openFile _ found => if found then some (.take .output) else none
  | .fPrintf _ => some (.use .output)
  | .closeFile => some (.give .output)
  | .createPort found => if found then some (.take .port) else none
  | .createExtIo found => if found then some (.take .request) else none
  | .openDevice error => if error = 0 then some (.take .device) else none
  | .mountCatalog _ _ _ => some (.use .device)
  | .closeDevice => some (.give .device)
  | .deleteExtIo => some (.give .request)
  | .deletePort => some (.give .port)
  | .printf _ | .inhibit _ _ | .execute => none

def acts (calls : List Call) : List (Act Resource) := calls.filterMap Call.act

/-- The calls start and end with the same in hand. -/
abbrev Keeps : List Resource → List Call → Prop := Custody.Keeps Resource.needs Call.act

theorem keeps_inhibitCalls (a : Answers) (on : Bool) : Keeps [.output] (inhibitCalls a on) := rfl

/-- What is opened to change the medium is closed again. -/
theorem keeps_replaceCalls (a : Answers) : Keeps [.output] (replaceCalls a) := by
  refine Keeps.append ?_ rfl
  unfold replaceMedia
  split
  next =>
    split
    next =>
      split
      next => rfl
      next herror =>
        -- nothing is taken where OpenDevice fails: the request and the port are given back
        have hact : Call.act (.openDevice a.openError) = none := if_neg herror
        show InOrder _ _ ([Call.createPort true, .createExtIo true, .openDevice a.openError,
          .deleteExtIo, .deletePort].filterMap Call.act) _
        simp only [List.filterMap_cons, hact]
        rfl
    next => rfl
  next => rfl

/-- With the result file opened before and closed after it. -/
theorem keeps_file (name : String) {calls : List Call} (h : Keeps [.output] calls) :
    Keeps [] (.openFile name true :: calls ++ [.closeFile]) :=
  keeps_bracket_nil rfl rfl rfl h

/-! ## The programs -/

/-- The first program gives back what it takes, if what it starts does. -/
theorem keeps_expA (a : Answers) {started : List Call} (hstarted : Keeps [] started)
    (argv : List String) : Keeps [] (expA a started argv).calls := by
  unfold expA
  split
  next =>
    split
    next =>
      split
      next => exact keeps_file _ (keeps_inhibitCalls a false)
      next => rfl
    next =>
      split
      next =>
        split
        next => exact keeps_file _ (keeps_inhibitCalls a true)
        next =>
          -- the file is closed before Execute: what it starts has nothing in hand
          have hexecute : Keeps [] [.execute] := rfl
          have hfile := keeps_file ‹String›
            ((keeps_inhibitCalls a true).append (keeps_replaceCalls a))
          exact hfile.append (hexecute.append hstarted)
      next => rfl
  next => exact keeps_nil []

/-- What the first program starts is the second, or nothing. -/
theorem keeps_executed (child : Option Answers) : Keeps [] (executed child) := by
  cases child with
  | none => exact keeps_nil []
  | some a => exact keeps_expA a (keeps_nil []) _

/-- The second program gives back what it takes, on each of its ways out. -/
theorem keeps_expB (a : Answers) (argv : List String) : Keeps [] (expB a argv).calls := by
  unfold expB
  split
  next =>
    split
    next =>
      split
      next => exact keeps_file _ (keeps_inhibitCalls a true)
      next =>
        exact keeps_file _ (((keeps_inhibitCalls a true).append (keeps_replaceCalls a)).append
          (keeps_inhibitCalls a false))
    next => rfl
  next => exact keeps_nil []

/-- Each of the programs gives back what it takes. -/
theorem keeps_outcome (run : Run) : Keeps [] run.outcome.calls := by
  cases run with
  | expA a child argv => exact keeps_expA a (keeps_executed child) argv
  | expB a argv => exact keeps_expB a argv
  | inhibitpoc a argv =>
    show Keeps [] (inhibitpoc a argv).calls
    unfold inhibitpoc
    split
    next =>
      split
      next => rfl
      next => rfl
    next => rfl

/-- The medium is changed in a file's bracket, after `Inhibit` has succeeded. -/
theorem guarded_file (s : Option Bool) (name : String) (a : Answers) {rest : List Call}
    (hinhibit : (a.inhibit true).1 ≠ 0) (hrest : Guarded (some true) rest) :
    Guarded s (.openFile name true :: (inhibitCalls a true ++ replaceCalls a ++ rest)) := by
  show Guarded s (inhibitCalls a true ++ replaceCalls a ++ rest)
  rw [guarded_append, guarded_append, lastInhibit_append, lastInhibit_inhibitCalls, if_pos hinhibit,
    lastInhibit_replaceCalls]
  exact ⟨⟨guarded_inhibitCalls s a true, guarded_replaceCalls a⟩, hrest⟩

/-- The first program changes the medium only under the inhibition it asked for, if what it starts
does. -/
theorem guarded_expA (s : Option Bool) (a : Answers) {started : List Call}
    (hstarted : ∀ s, Guarded s started) (argv : List String) :
    Guarded s (expA a started argv).calls := by
  unfold expA
  split
  next =>
    split
    next =>
      split
      next => trivial
      next => trivial
    next =>
      split
      next =>
        split
        next => trivial
        next hinhibit =>
          -- the handler is still inhibited when the program is started again
          have hrest : Guarded (some true) ([.closeFile, .execute] ++ started) :=
            hstarted (some true)
          simpa using guarded_file s _ a hinhibit hrest
      next => trivial
  next => trivial

/-- What is started is guarded from any state of the handler, so that a child may be started in the
middle of a run. -/
theorem guarded_executed (s : Option Bool) (child : Option Answers) :
    Guarded s (executed child) := by
  cases child with
  | none => trivial
  | some a => exact guarded_expA s a guarded_nil _

/-- The second program changes the medium only under the inhibition it asked for. -/
theorem guarded_expB (s : Option Bool) (a : Answers) (argv : List String) :
    Guarded s (expB a argv).calls := by
  unfold expB
  split
  next =>
    split
    next =>
      split
      next => trivial
      next hinhibit =>
        have hrest : Guarded (some true) (inhibitCalls a false ++ [.closeFile]) := trivial
        simpa using guarded_file s _ a hinhibit hrest
    next => trivial
  next => trivial

/-- Each of the programs changes the medium only under its own inhibition. -/
theorem guarded_outcome (s : Option Bool) (run : Run) : Guarded s run.outcome.calls := by
  cases run with
  | expA a child argv => exact guarded_expA s a (fun s => guarded_executed s child) argv
  | expB a argv => exact guarded_expB s a argv
  | inhibitpoc a argv =>
    show Guarded s (inhibitpoc a argv).calls
    unfold inhibitpoc
    split
    next =>
      split
      next => trivial
      next => trivial
    next => trivial

/-! ## Runs one after another -/

theorem keeps_log (runs : List Run) : Keeps [] (log runs) := by
  induction runs with
  | nil => exact keeps_nil []
  | cons run runs ih => exact (keeps_outcome run).append ih

/-- By induction over the runs: each is guarded from whatever state the handler was left in. -/
theorem guarded_log (s : Option Bool) (runs : List Run) : Guarded s (log runs) := by
  induction runs generalizing s with
  | nil => trivial
  | cons run runs ih => exact guarded_append.mpr ⟨guarded_outcome s run, ih _⟩

/-- **What the programs do to the system.** In every sequence of runs, whatever the system answers:
before the medium is changed `Inhibit` has succeeded, and the handler has not been let go on since;
the device is open then; and at the end everything that was taken has been given back. -/
theorem session_safe (runs : List Run) :
    (∀ pre slot writable result post, log runs = pre ++ .mountCatalog slot writable result :: post →
      lastInhibit none pre = some true ∧ gives .device (acts pre) < takes .device (acts pre)) ∧
    ∀ r, takes r (acts (log runs)) = gives r (acts (log runs)) := by
  constructor
  · intro pre slot writable result post hsplit
    constructor
    · have hguarded := guarded_log none runs
      rw [hsplit, guarded_append] at hguarded
      exact hguarded.2.1
    · have hkeeps := keeps_log runs
      rw [hsplit, Keeps, Custody.Keeps, List.filterMap_append] at hkeeps
      exact InOrder.held_of_use hkeeps
  · intro r
    simpa [acts] using InOrder.count (keeps_log runs) r

/-! ## How the runs end -/

/-- The medium has been changed. -/
def Answers.Replaced (a : Answers) : Prop :=
  a.port = true ∧ a.request = true ∧ a.openError = 0 ∧ a.mounted = 0

/-- The medium is changed exactly where the port, the request and the device are there and the mount
is accepted. -/
theorem replaceMedia_eq_zero_iff (a : Answers) (slot : UInt8) :
    (replaceMedia a slot).1 = 0 ↔ a.Replaced := by
  unfold replaceMedia Answers.Replaced
  split
  next hport =>
    split
    next hrequest =>
      split
      next hopen => simp [hport, hrequest, hopen]
      next hopen => simp [hopen]
    next hrequest => simp [hrequest]
  next hport => simp [hport]

/-- The result file is there, and `Inhibit` with `DOSTRUE` succeeds. -/
def Answers.Inhibits (a : Answers) : Prop := a.output = true ∧ (a.inhibit true).1 ≠ 0

instance (a : Answers) : Decidable a.Inhibits := inferInstanceAs (Decidable (_ ∧ _))

/-- `Inhibit` with `DOSFALSE` succeeds in what `Execute` starts. -/
def letsGo : Option Answers → Bool
  | none => false
  | some a => a.output && (a.inhibit false).1 != 0

/-- What is started leaves the handler inhibited unless it lets it go. -/
theorem lastInhibit_executed (s : Option Bool) (child : Option Answers) :
    lastInhibit s (executed child) = if letsGo child then some false else s := by
  cases child with
  | none => rfl
  | some a =>
    show lastInhibit s (expA a [] ["false", _]).calls = if a.output && _ then _ else _
    cases houtput : a.output with
    | false => simp [expA, houtput, lastInhibit, inhibited]
    | true =>
      by_cases hinhibit : (a.inhibit false).1 = 0
      · simp [expA, houtput, lastInhibit, inhibited, inhibitCalls, hinhibit]
      · simp [expA, houtput, lastInhibit, inhibited, inhibitCalls, hinhibit]

/-- After the medium has been changed the rest decides about the handler. -/
theorem lastInhibit_file (s : Option Bool) (name : String) (a : Answers) (rest : List Call)
    (hinhibit : (a.inhibit true).1 ≠ 0) :
    lastInhibit s (.openFile name true :: (inhibitCalls a true ++ replaceCalls a ++ rest)) =
      lastInhibit (some true) rest := by
  show lastInhibit s (inhibitCalls a true ++ replaceCalls a ++ rest) = _
  rw [lastInhibit_append, lastInhibit_append, lastInhibit_inhibitCalls, if_pos hinhibit,
    lastInhibit_replaceCalls]

/-- Where `Inhibit` fails the handler is left as it was. -/
theorem lastInhibit_failed (s : Option Bool) (name : String) {a : Answers}
    (hinhibit : (a.inhibit true).1 = 0) :
    lastInhibit s (.openFile name true :: inhibitCalls a true ++ [.closeFile]) = s := by
  show lastInhibit s (inhibitCalls a true) = s
  rw [lastInhibit_inhibitCalls, if_neg (not_not_intro hinhibit)]

/-- How the second program ends, and how it leaves the handler. -/
theorem expB_outcome (s : Option Bool) (a : Answers) (first second : String) :
    ((expB a [first, second]).exitCode = 0 ↔
      a.Inhibits ∧ a.Replaced ∧ (a.inhibit false).1 ≠ 0) ∧
    lastInhibit s (expB a [first, second]).calls =
      if a.Inhibits then some (decide ((a.inhibit false).1 = 0)) else s := by
  unfold expB
  dsimp only
  split
  next houtput =>
    split
    next hinhibit =>
      have hnot : ¬ a.Inhibits := fun h => h.2 hinhibit
      rw [if_neg hnot]
      exact ⟨iff_of_false (Nat.succ_ne_zero 29) fun h => hnot h.1,
        lastInhibit_failed s first hinhibit⟩
    next hinhibit =>
      have hyes : a.Inhibits := ⟨houtput, hinhibit⟩
      -- the last call of Inhibit decides
      have hleft : lastInhibit s (.openFile first true :: (inhibitCalls a true ++ replaceCalls a ++
          inhibitCalls a false) ++ [.closeFile]) =
          lastInhibit (some true) (inhibitCalls a false ++ [.closeFile]) := by
        rw [← lastInhibit_file s first a _ hinhibit]
        simp only [List.cons_append, List.append_assoc]
      dsimp only
      rw [if_pos hyes, hleft, Ne.ite_eq_left_iff (by decide), replaceMedia_eq_zero_iff,
        and_iff_right hyes]
      refine ⟨Iff.rfl, ?_⟩
      show lastInhibit (some true) (inhibitCalls a false) = _
      rw [lastInhibit_inhibitCalls]
      by_cases hlet : (a.inhibit false).1 = 0
      · rw [if_neg (not_not_intro hlet), decide_eq_true hlet]
      · rw [if_pos hlet, decide_eq_false hlet]
  next houtput =>
    have hnot : ¬ a.Inhibits := fun h => houtput h.1
    rw [if_neg hnot]
    exact ⟨iff_of_false (Nat.succ_ne_zero 20) fun h => hnot h.1, rfl⟩

/-- How the first program ends, and how it leaves the handler: the exit code does not depend on what
was started. -/
theorem expA_outcome (s : Option Bool) (a : Answers) (child : Option Answers)
    {first : String} (hfirst : first ≠ "false") (second : String) :
    ((expA a (executed child) [first, second]).exitCode = 0 ↔ a.Inhibits ∧ a.Replaced) ∧
    lastInhibit s (expA a (executed child) [first, second]).calls =
      if a.Inhibits then some (!letsGo child) else s := by
  unfold expA
  dsimp only
  rw [if_neg hfirst]
  split
  next houtput =>
    split
    next hinhibit =>
      have hnot : ¬ a.Inhibits := fun h => h.2 hinhibit
      rw [if_neg hnot]
      exact ⟨iff_of_false (Nat.succ_ne_zero 29) fun h => hnot h.1,
        lastInhibit_failed s first hinhibit⟩
    next hinhibit =>
      have hyes : a.Inhibits := ⟨houtput, hinhibit⟩
      -- what Execute starts decides
      have hleft : lastInhibit s (.openFile first true :: (inhibitCalls a true ++ replaceCalls a) ++
          [.closeFile] ++ .execute :: executed child) =
          lastInhibit (some true) (.closeFile :: .execute :: executed child) := by
        rw [← lastInhibit_file s first a _ hinhibit]
        simp only [List.cons_append, List.append_assoc, List.nil_append]
      dsimp only
      rw [if_pos hyes, hleft, Ne.ite_eq_left_iff (by decide), replaceMedia_eq_zero_iff,
        and_iff_right hyes]
      refine ⟨Iff.rfl, ?_⟩
      show lastInhibit (some true) (executed child) = _
      rw [lastInhibit_executed]
      cases letsGo child with
      | false => rfl
      | true => rfl
  next houtput =>
    have hnot : ¬ a.Inhibits := fun h => houtput h.1
    rw [if_neg hnot]
    exact ⟨iff_of_false (Nat.succ_ne_zero 20) fun h => hnot h.1, rfl⟩

/-- **How the handler is left.** For all answers of the system. The second program exits with 0
where the medium has been changed and the handler goes on, and leaves it inhibited only where the
system refuses to let it go on. The first exits with 0 where the medium has been changed, and leaves
it inhibited where what it starts does not let it go on. -/
theorem handler_left (s : Option Bool) (a : Answers) (child : Option Answers)
    (first second : String) :
    ((expB a [first, second]).exitCode = 0 ↔
      a.Inhibits ∧ a.Replaced ∧ (a.inhibit false).1 ≠ 0) ∧
    lastInhibit s (expB a [first, second]).calls =
      (if a.Inhibits then some (decide ((a.inhibit false).1 = 0)) else s) ∧
    (first ≠ "false" →
      ((expA a (executed child) [first, second]).exitCode = 0 ↔ a.Inhibits ∧ a.Replaced) ∧
      lastInhibit s (expA a (executed child) [first, second]).calls =
        if a.Inhibits then some (!letsGo child) else s) :=
  ⟨(expB_outcome s a first second).1, (expB_outcome s a first second).2,
    fun hfirst => expA_outcome s a child hfirst second⟩

end NioApps.Inhibit
