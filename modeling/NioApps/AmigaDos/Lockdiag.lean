import NioApps.Lib.Links

/-!
# AmigaDOS — the program `lockdiag.c`

Before a handler can be taken away nothing may refer to it any more. `lockdiag` lists the public
references: the directory locks and the standard streams of every process, and the locks that hang
from the volumes. It marks those whose message port is that of the handler of `DN0:` or `DN2:`. It
looks at 64 processes and at 64 locks of a volume at most.

* `snapshotProcesses`, `printLock`, `printStream`, `volumeLocks`, `report` — the program, over the
  lists and the memory it reads.
* `Refers` — a port is referred to, wherever in the lists or along the links of the locks.
* `report_references` — the marks are right, and a report that does not say that it is cut short
  shows every reference.
-/

namespace NioApps.Lockdiag

open Links

/-! ## What the program reads -/

/-- A pointer that counts long words. -/
abbrev Bptr := UInt32

/-- `BADDR`. -/
def baddr (b : Bptr) : UInt32 := b <<< 2

structure FileLock where
  flLink : Bptr
  flKey : Int
  flTask : UInt32
  flVolume : Bptr
  deriving DecidableEq

structure FileHandle where
  fhType : UInt32
  deriving DecidableEq

/-- A task of the lists of Exec, with the fields of a process behind it. -/
structure Process where
  address : UInt32
  lnType : Nat
  lnName : Option (List UInt8)
  tcState : Int
  prCurrentDir : Bptr
  prHomeDir : Bptr
  prCis : Bptr
  prCos : Bptr
  prCes : Bptr
  deriving DecidableEq

structure ExecBase where
  thisTask : Process
  taskReady : List Process
  taskWait : List Process

/-- An entry of the list of volumes. -/
structure Volume where
  address : UInt32
  dolTask : UInt32
  dolName : Bptr
  dolLockList : Bptr
  deriving DecidableEq

inductive Drive where
  | dn0
  | dn2
  deriving DecidableEq

/-- The machine while the program runs. `LockDosList` may give nothing; `FindDosEntry` gives an entry
with its port, or nothing. -/
structure Machine where
  sysBase : ExecBase
  devices : Drive → Option (Option UInt32)
  volumes : Option (List Volume)
  fileLock : UInt32 → FileLock
  fileHandle : UInt32 → FileHandle
  byte : UInt32 → UInt8

/-! ## What it prints -/

inductive Match where
  | drive (d : Drive)
  | other
  deriving DecidableEq

inductive LockField where
  | currentDir
  | homeDir
  deriving DecidableEq

inductive StreamField where
  | cis
  | cos
  | ces
  deriving DecidableEq

inductive Line where
  | handler (dn0 dn2 : UInt32) (processes : Nat)
  | process (address : UInt32) (name : Option (List UInt8)) (state : Int)
  | noLock (field : LockField)
  | lock (field : LockField) (value handler : UInt32) (found : Match) (key : Int)
  | noStream (field : StreamField)
  | stream (field : StreamField) (value handler : UInt32) (found : Match)
  | volumesUnavailable
  | volume (node handler : UInt32) (found : Match) (name : List UInt8) (nameBptr lockList : Bptr)
  | volumeLock (index : Nat) (address : UInt32) (next : Bptr) (handler : UInt32) (found : Match)
      (key : Int) (volume : Bptr)
  | truncatedAfter (locks : Nat)
  deriving DecidableEq

/-! ## The program -/

def maxProcesses : Nat := 64

def maxVolumeLocks : Nat := 64

def ntProcess : Nat := 13

/-- 0 where the list is not there, the entry is not in it or it has no port. -/
def Machine.deviceTask (m : Machine) (d : Drive) : UInt32 :=
  match m.devices d with
  | none => 0
  | some none => 0
  | some (some task) => task

def appendProcesses (capacity : Nat) (tasks : List Process) (list : List Process) : List Process :=
  list.foldl
    (fun tasks node =>
      if node.lnType = ntProcess ∧ tasks.length < capacity then tasks ++ [node] else tasks)
    tasks

def snapshotProcesses (sysBase : ExecBase) (capacity : Nat) : List Process :=
  let tasks := appendProcesses capacity [] [sysBase.thisTask]
  let tasks := appendProcesses capacity tasks sysBase.taskReady
  appendProcesses capacity tasks sysBase.taskWait

def matchHandler (port dn0 dn2 : UInt32) : Match :=
  if port = dn0 ∧ port ≠ 0 then .drive .dn0
  else if port = dn2 ∧ port ≠ 0 then .drive .dn2
  else .other

namespace Machine

variable (m : Machine)

def dn0 : UInt32 := m.deviceTask .dn0

def dn2 : UInt32 := m.deviceTask .dn2

def found (port : UInt32) : Match := matchHandler port m.dn0 m.dn2

def printLock (field : LockField) (b : Bptr) : Line :=
  let lock := baddr b
  if lock = 0 then .noLock field
  else .lock field lock (m.fileLock lock).flTask (m.found (m.fileLock lock).flTask)
    (m.fileLock lock).flKey

def printStream (field : StreamField) (b : Bptr) : Line :=
  let handle := baddr b
  if handle = 0 then .noStream field
  else .stream field handle (m.fileHandle handle).fhType (m.found (m.fileHandle handle).fhType)

/-- What `volume_name` puts into a buffer of that capacity. -/
def volumeName (b : Bptr) (capacity : Nat) : List UInt8 :=
  let source := baddr b
  if source = 0 ∨ capacity = 0 then
    if capacity ≠ 0 then [0] else []
  else
    let length := (m.byte source).toNat
    let length := if length ≥ capacity then capacity - 1 else length
    (List.range length).map (fun i => m.byte (source + 1 + UInt32.ofNat i)) ++ [0]

/-- The loop over the locks of a volume, with the passes left: the lines, and the link it is left
with. -/
def volumeLocks : Nat → Nat → Bptr → List Line × Bptr
  | 0, _, b => ([], b)
  | n + 1, index, b =>
    if b = 0 then ([], b)
    else
      let lock := baddr b
      if lock = 0 then ([], b)
      else
        let l := m.fileLock lock
        let rest := volumeLocks n (index + 1) l.flLink
        (.volumeLock index lock l.flLink l.flTask (m.found l.flTask) l.flKey l.flVolume :: rest.1,
          rest.2)

def printVolume (v : Volume) : List Line :=
  let name := (m.volumeName v.dolName 64).takeWhile (· ≠ 0)
  let locks := m.volumeLocks maxVolumeLocks 0 v.dolLockList
  .volume v.address v.dolTask (m.found v.dolTask) name v.dolName v.dolLockList :: locks.1 ++
    if locks.2 ≠ 0 then [.truncatedAfter maxVolumeLocks] else []

def printVolumeLocks : List Line :=
  match m.volumes with
  | none => [.volumesUnavailable]
  | some volumes => volumes.flatMap m.printVolume

def printProcess (p : Process) : List Line :=
  [.process p.address p.lnName p.tcState, m.printLock .currentDir p.prCurrentDir,
    m.printLock .homeDir p.prHomeDir, m.printStream .cis p.prCis, m.printStream .cos p.prCos,
    m.printStream .ces p.prCes]

/-- What `main` prints. -/
def report : List Line :=
  let tasks := snapshotProcesses m.sysBase maxProcesses
  .handler m.dn0 m.dn2 tasks.length :: tasks.flatMap m.printProcess ++ m.printVolumeLocks

end Machine

/-! ## The processes -/

/-- A list is appended up to the capacity, and tasks that are no processes are passed over. -/
theorem appendProcesses_eq {capacity : Nat} {tasks : List Process} (h : tasks.length ≤ capacity)
    (list : List Process) :
    appendProcesses capacity tasks list =
      (tasks ++ list.filter (·.lnType = ntProcess)).take capacity := by
  unfold appendProcesses
  induction list generalizing tasks with
  | nil =>
    rw [List.foldl_nil, List.filter_nil, List.append_nil, List.take_of_length_le h]
  | cons node list ih =>
    rw [List.foldl_cons]
    by_cases htype : node.lnType = ntProcess
    · rw [List.filter_cons_of_pos (by simpa using htype)]
      by_cases hroom : tasks.length < capacity
      · rw [if_pos ⟨htype, hroom⟩, ih (by simpa using Nat.succ_le_of_lt hroom),
          List.append_assoc, List.singleton_append]
      · -- the table is full, and stays as it is
        have hfull : tasks.length = capacity := by omega
        rw [if_neg fun hand => hroom hand.2, ih h, List.take_left' hfull, List.take_left' hfull]
    · rw [List.filter_cons_of_neg (by simpa using htype), if_neg fun hand => htype hand.1, ih h]

/-- The tasks of the machine that are processes. -/
def ExecBase.processes (sysBase : ExecBase) : List Process :=
  (sysBase.thisTask :: (sysBase.taskReady ++ sysBase.taskWait)).filter (·.lnType = ntProcess)

/-- The snapshot is the processes of the exec in its order, as many as there is room for. -/
theorem snapshotProcesses_eq (sysBase : ExecBase) (capacity : Nat) :
    snapshotProcesses sysBase capacity = sysBase.processes.take capacity := by
  have hthis : appendProcesses capacity [] [sysBase.thisTask] =
      ([sysBase.thisTask].filter (·.lnType = ntProcess)).take capacity :=
    appendProcesses_eq (Nat.zero_le capacity) [sysBase.thisTask]
  have htake : ∀ {s t : List Process},
      ((s.take capacity) ++ t).take capacity = (s ++ t).take capacity := by
    intro s t
    rw [List.take_append, List.take_append, List.take_take, Nat.min_self, List.length_take]
    congr 2
    omega
  show appendProcesses capacity (appendProcesses capacity
    (appendProcesses capacity [] [sysBase.thisTask]) sysBase.taskReady) sysBase.taskWait = _
  rw [hthis, appendProcesses_eq (List.length_take_le _ _), htake,
    appendProcesses_eq (List.length_take_le _ _), htake, ← List.filter_append,
    ← List.filter_append, List.singleton_append, List.cons_append, ExecBase.processes]

/-! ## The name of a volume -/

/-- A name is never longer than the buffer it is copied to. -/
theorem length_volumeName_le (m : Machine) (b : Bptr) (capacity : Nat) :
    (m.volumeName b capacity).length ≤ capacity := by
  unfold Machine.volumeName
  dsimp only
  split
  next =>
    split
    next hne => exact Nat.pos_of_ne_zero hne
    next => exact Nat.zero_le _
  next hsource =>
    have hpos : 0 < capacity := Nat.pos_of_ne_zero fun h => hsource (.inr h)
    rw [List.length_append, List.length_map, List.length_range, List.length_singleton]
    split
    next => omega
    next => omega

/-- The buffer holds a string. -/
theorem nul_mem_volumeName (m : Machine) (b : Bptr) {capacity : Nat} (h : capacity ≠ 0) :
    0 ∈ m.volumeName b capacity := by
  unfold Machine.volumeName
  dsimp only
  rw [if_pos h]
  split
  next => exact List.mem_cons_self
  next => exact List.mem_append_right _ List.mem_cons_self

/-! ## References -/

/-- The lock, or the handle, that a pointer leads to. -/
def target (b : Bptr) : Option UInt32 := if baddr b = 0 then none else some (baddr b)

theorem target_zero : target 0 = none := rfl

def Process.locks (p : Process) : List Bptr := [p.prCurrentDir, p.prHomeDir]

def Process.streams (p : Process) : List Bptr := [p.prCis, p.prCos, p.prCes]

/-- The link from a lock to the next. -/
def Machine.nextLock (m : Machine) (lock : UInt32) : Option UInt32 :=
  target (m.fileLock lock).flLink

/-- Something refers to the port: a lock or a stream of a process, a volume, or a lock that the
links of a volume lead to. -/
inductive Refers (m : Machine) : UInt32 → Prop where
  | lock {p : Process} (hp : p ∈ m.sysBase.processes) {b : Bptr} (hb : b ∈ p.locks) {l : UInt32}
      (hl : target b = some l) : Refers m (m.fileLock l).flTask
  | stream {p : Process} (hp : p ∈ m.sysBase.processes) {b : Bptr} (hb : b ∈ p.streams)
      {h : UInt32} (hh : target b = some h) : Refers m (m.fileHandle h).fhType
  | volume {volumes : List Volume} (hvolumes : m.volumes = some volumes) {v : Volume}
      (hv : v ∈ volumes) : Refers m v.dolTask
  | volumeLock {volumes : List Volume} (hvolumes : m.volumes = some volumes) {v : Volume}
      (hv : v ∈ volumes) {l : UInt32} (hl : Linked m.nextLock (target v.dolLockList) l) :
      Refers m (m.fileLock l).flTask

/-! ## What the lines show -/

/-- The port in a line, with the mark that stands beside it. -/
def Line.sighting : Line → Option (UInt32 × Match)
  | .lock _ _ port found _ => some (port, found)
  | .stream _ _ port found => some (port, found)
  | .volume _ port found _ _ _ => some (port, found)
  | .volumeLock _ _ _ port found _ _ => some (port, found)
  | _ => none

def sightings (lines : List Line) : List (UInt32 × Match) := lines.filterMap Line.sighting

theorem sightings_append (s t : List Line) : sightings (s ++ t) = sightings s ++ sightings t :=
  List.filterMap_append

theorem sightings_flatMap {α : Type} (lines : α → List Line) (as : List α) :
    sightings (as.flatMap lines) = as.flatMap fun a => sightings (lines a) :=
  List.filterMap_flatMap

namespace Machine

variable (m : Machine)

/-- A port with its mark. -/
def seen (port : UInt32) : UInt32 × Match := (port, m.found port)

def lockPort (l : UInt32) : UInt32 := (m.fileLock l).flTask

def streamPort (h : UInt32) : UInt32 := (m.fileHandle h).fhType

/-- The ports a process refers to, in the order in which its lines show them. -/
def processReferences (p : Process) : List UInt32 :=
  (p.locks.filterMap target).map m.lockPort ++ (p.streams.filterMap target).map m.streamPort

/-- The ports a volume refers to, up to that many locks. -/
def volumeReferences (locks : Nat) (v : Volume) : List UInt32 :=
  v.dolTask :: (walk m.nextLock locks (target v.dolLockList)).1.map m.lockPort

/-- All references, one after another: those of the first `processes` processes, and those of each
volume up to `locks` locks. A port that is referred to twice stands there twice. -/
def references (processes locks : Nat) : List UInt32 :=
  (m.sysBase.processes.take processes).flatMap m.processReferences ++
    (m.volumes.getD []).flatMap (m.volumeReferences locks)

/-- A lock that is null shows nothing; any other shows its port. -/
theorem sighting_printLock (field : LockField) (b : Bptr) :
    (m.printLock field b).sighting = (target b).map (m.seen ∘ m.lockPort) := by
  unfold printLock target
  dsimp only
  split
  next => rfl
  next => rfl

/-- A stream that is null shows nothing; any other shows its port. -/
theorem sighting_printStream (field : StreamField) (b : Bptr) :
    (m.printStream field b).sighting = (target b).map (m.seen ∘ m.streamPort) := by
  unfold printStream target
  dsimp only
  split
  next => rfl
  next => rfl

/-- The lines of a process are those of its references, in order. -/
theorem sightings_printProcess (p : Process) :
    sightings (m.printProcess p) = (m.processReferences p).map m.seen := by
  -- the two locks of the process, and then its three streams
  have hlocks : sightings [m.printLock .currentDir p.prCurrentDir,
      m.printLock .homeDir p.prHomeDir] =
        (p.locks.filterMap target).map (m.seen ∘ m.lockPort) := by
    rw [List.map_filterMap]
    simp only [sightings, Process.locks, List.filterMap_cons, List.filterMap_nil,
      sighting_printLock]
  have hstreams : sightings [m.printStream .cis p.prCis, m.printStream .cos p.prCos,
      m.printStream .ces p.prCes] =
        (p.streams.filterMap target).map (m.seen ∘ m.streamPort) := by
    rw [List.map_filterMap]
    simp only [sightings, Process.streams, List.filterMap_cons, List.filterMap_nil,
      sighting_printStream]
  rw [processReferences, List.map_append, List.map_map, List.map_map, ← hlocks, ← hstreams,
    ← sightings_append]
  rfl

/-- The loop over the locks shows the ports of those it passes. -/
theorem sightings_volumeLocks (n index : Nat) (b : Bptr) :
    sightings (m.volumeLocks n index b).1 =
      (walk m.nextLock n (target b)).1.map (m.seen ∘ m.lockPort) := by
  -- by induction on the limit, as the loop counts down
  induction n generalizing index b with
  | zero => rfl
  | succ n ih =>
    rw [volumeLocks]
    by_cases hb : b = 0
    · rw [if_pos hb, hb, target_zero, walk_none]
      rfl
    · rw [if_neg hb]
      by_cases haddr : baddr b = 0
      · -- a pointer that is not null but leads to address 0 also ends the loop
        rw [if_pos haddr, target, if_pos haddr, walk_none]
        rfl
      · rw [if_neg haddr, target, if_neg haddr]
        exact congrArg (m.seen (m.lockPort (baddr b)) :: ·)
          (ih (index + 1) (m.fileLock (baddr b)).flLink)

/-- The lines of a volume are those of its own port and of the locks its links lead to. -/
theorem sightings_printVolume (v : Volume) :
    sightings (m.printVolume v) = (m.volumeReferences maxVolumeLocks v).map m.seen := by
  rw [volumeReferences, List.map_cons, List.map_map, ← sightings_volumeLocks m maxVolumeLocks 0]
  have htruncated : ∀ b : Bptr,
      sightings (if b ≠ 0 then [.truncatedAfter maxVolumeLocks] else []) = [] := by
    intro b
    split
    next => rfl
    next => rfl
  unfold printVolume
  rw [sightings_append, htruncated, List.append_nil]
  rfl

/-! ## Whether the report is cut short -/

/-- The pointer after that many links. -/
def pointerAfter : Nat → Bptr → Bptr
  | 0, b => b
  | n + 1, b => pointerAfter n (m.fileLock (baddr b)).flLink

/-- A null pointer comes after at most `n` locks. -/
def EndsWithin (n : Nat) (b : Bptr) : Prop :=
  ∃ k ≤ n, m.pointerAfter k b = 0 ∧ ∀ j < k, baddr (m.pointerAfter j b) ≠ 0

/-- Within no locks only a null pointer ends the list. -/
theorem endsWithin_zero (b : Bptr) : m.EndsWithin 0 b ↔ b = 0 := by
  constructor
  · rintro ⟨k, hk, hzero, -⟩
    obtain rfl : k = 0 := by omega
    exact hzero
  · intro hb
    exact ⟨0, Nat.le_refl 0, hb, fun j hj => absurd hj (Nat.not_lt_zero j)⟩

/-- One lock more is the lock itself and what its link leads to. -/
theorem endsWithin_succ {n : Nat} {b : Bptr} (hb : b ≠ 0) :
    m.EndsWithin (n + 1) b ↔ baddr b ≠ 0 ∧ m.EndsWithin n (m.fileLock (baddr b)).flLink := by
  constructor
  · rintro ⟨k, hk, hzero, hlinks⟩
    cases k with
    | zero => exact absurd hzero hb
    | succ k =>
      exact ⟨hlinks 0 (Nat.succ_pos k), k, by omega, hzero, fun j hj => hlinks (j + 1) (by omega)⟩
  · rintro ⟨haddr, k, hk, hzero, hlinks⟩
    refine ⟨k + 1, by omega, hzero, fun j hj => ?_⟩
    cases j with
    | zero => exact haddr
    | succ j => exact hlinks j (by omega)

/-- The loop over the locks is left with a null pointer exactly where the list ends within its
limit. -/
theorem volumeLocks_ends_iff (n index : Nat) (b : Bptr) :
    (m.volumeLocks n index b).2 = 0 ↔ m.EndsWithin n b := by
  induction n generalizing index b with
  | zero => exact (m.endsWithin_zero b).symm
  | succ n ih =>
    rw [volumeLocks]
    by_cases hb : b = 0
    · rw [if_pos hb]
      exact ⟨fun _ => ⟨0, Nat.zero_le _, hb, fun j hj => absurd hj (Nat.not_lt_zero j)⟩,
        fun _ => hb⟩
    · rw [if_neg hb, m.endsWithin_succ hb]
      by_cases haddr : baddr b = 0
      · rw [if_pos haddr]
        exact ⟨fun hzero => absurd hzero hb, fun hand => absurd haddr hand.1⟩
      · rw [if_neg haddr]
        exact (ih _ _).trans ⟨fun h => ⟨haddr, h⟩, And.right⟩

/-- Where the loop ends with a null pointer it has followed the links to their end. -/
theorem EndsWithin.walk {m : Machine} {n : Nat} {b : Bptr} (h : m.EndsWithin n b) :
    (walk m.nextLock n (target b)).2 = none := by
  induction n generalizing b with
  | zero =>
    rw [(m.endsWithin_zero b).mp h]
    rfl
  | succ n ih =>
    by_cases hb : b = 0
    · rw [hb, target_zero, walk_none]
    · obtain ⟨haddr, hrest⟩ := (m.endsWithin_succ hb).mp h
      rw [target, if_neg haddr]
      exact ih hrest

end Machine

/-- A line that says that something may be left out. -/
def Line.Cut : Line → Prop
  | .handler _ _ processes => maxProcesses ≤ processes
  | .volumesUnavailable => True
  | .truncatedAfter _ => True
  | _ => False

/-- Lines that do not say that something is left out. -/
def Whole (lines : List Line) : Prop := ∀ line ∈ lines, ¬ line.Cut

theorem whole_append {s t : List Line} : Whole (s ++ t) ↔ Whole s ∧ Whole t :=
  List.forall_mem_append

theorem whole_cons {line : Line} {lines : List Line} :
    Whole (line :: lines) ↔ ¬ line.Cut ∧ Whole lines :=
  List.forall_mem_cons

theorem whole_nil : Whole [] := fun _ hline => absurd hline List.not_mem_nil

/-- A report made of parts is whole if each of them is. -/
theorem whole_flatMap {α : Type} {lines : α → List Line} {as : List α} :
    Whole (as.flatMap lines) ↔ ∀ a ∈ as, Whole (lines a) := by
  constructor
  · intro h a ha line hline
    exact h line (List.mem_flatMap.mpr ⟨a, ha, hline⟩)
  · intro h line hline
    obtain ⟨a, ha, hline⟩ := List.mem_flatMap.mp hline
    exact h a ha line hline

namespace Machine

variable (m : Machine)

/-- Nothing that is printed of a process says that something was cut short. -/
theorem whole_printProcess (p : Process) : Whole (m.printProcess p) := by
  -- neither a lock nor a stream is a line about a limit
  have hlock : ∀ field b, ¬ (m.printLock field b).Cut := by
    intro field b
    unfold printLock
    dsimp only
    split
    next => exact not_false
    next => exact not_false
  have hstream : ∀ field b, ¬ (m.printStream field b).Cut := by
    intro field b
    unfold printStream
    dsimp only
    split
    next => exact not_false
    next => exact not_false
  simp only [printProcess, whole_cons, hlock, hstream, not_false_eq_true, true_and]
  exact ⟨not_false, whole_nil⟩

/-- The lines of the locks themselves say nothing of the kind: the line about it comes after them.
-/
theorem whole_volumeLocks (n index : Nat) (b : Bptr) : Whole (m.volumeLocks n index b).1 := by
  induction n generalizing index b with
  | zero => exact whole_nil
  | succ n ih =>
    rw [volumeLocks]
    split
    next => exact whole_nil
    next =>
      dsimp only
      split
      next => exact whole_nil
      next => exact whole_cons.mpr ⟨not_false, ih _ _⟩

/-- A volume is cut short exactly where its locks do not end within the limit. -/
theorem whole_printVolume (v : Volume) :
    Whole (m.printVolume v) ↔ m.EndsWithin maxVolumeLocks v.dolLockList := by
  rw [← m.volumeLocks_ends_iff maxVolumeLocks 0]
  unfold printVolume
  rw [whole_append, whole_cons]
  constructor
  · intro h
    by_contra hleft
    rw [if_pos hleft] at h
    exact (whole_cons.mp h.2).1 trivial
  · intro h
    rw [if_neg (not_not_intro h)]
    exact ⟨⟨not_false, m.whole_volumeLocks _ _ _⟩, whole_nil⟩

/-- When nothing in the report says that it is cut short. -/
theorem whole_report_iff :
    Whole m.report ↔ m.sysBase.processes.length < maxProcesses ∧
      ∃ volumes, m.volumes = some volumes ∧
        ∀ v ∈ volumes, m.EndsWithin maxVolumeLocks v.dolLockList := by
  have hprocesses : Whole ((snapshotProcesses m.sysBase maxProcesses).flatMap m.printProcess) :=
    whole_flatMap.mpr fun p _ => m.whole_printProcess p
  have hvolumes : Whole m.printVolumeLocks ↔ ∃ volumes, m.volumes = some volumes ∧
      ∀ v ∈ volumes, m.EndsWithin maxVolumeLocks v.dolLockList := by
    unfold printVolumeLocks
    cases hlist : m.volumes with
    | none =>
      -- the line that says so is a cut
      exact ⟨fun h => absurd trivial (h _ List.mem_cons_self), fun h => nomatch h.choose_spec.1⟩
    | some volumes =>
      rw [whole_flatMap]
      simp only [whole_printVolume]
      constructor
      · intro h
        exact ⟨volumes, rfl, h⟩
      · rintro ⟨_, heq, h⟩
        cases heq
        exact h
  show Whole (.handler m.dn0 m.dn2 _ :: _ ++ m.printVolumeLocks) ↔ _
  rw [whole_append, whole_cons, hvolumes, and_iff_left hprocesses]
  refine and_congr_left' ?_
  show ¬ maxProcesses ≤ _ ↔ _
  rw [snapshotProcesses_eq, List.length_take]
  omega

/-! ## The report -/

/-- **One line for each reference.** The report shows the references within its two limits, in
their order. -/
theorem sightings_report :
    sightings m.report = (m.references maxProcesses maxVolumeLocks).map m.seen := by
  -- the report is the processes and then the volumes
  have hprocesses : sightings ((snapshotProcesses m.sysBase maxProcesses).flatMap
      m.printProcess) =
        ((m.sysBase.processes.take maxProcesses).flatMap m.processReferences).map m.seen := by
    rw [snapshotProcesses_eq, sightings_flatMap, List.map_flatMap]
    exact List.flatMap_congr fun p _ => m.sightings_printProcess p
  have hvolumes : sightings m.printVolumeLocks =
      ((m.volumes.getD []).flatMap (m.volumeReferences maxVolumeLocks)).map m.seen := by
    unfold printVolumeLocks
    cases m.volumes with
    | none => rfl
    | some volumes =>
      rw [sightings_flatMap]
      exact (List.flatMap_congr fun v _ => m.sightings_printVolume v).trans
        List.map_flatMap.symm
  rw [references, List.map_append, ← hprocesses, ← hvolumes, ← sightings_append]
  rfl

/-- What is listed is there, whatever the limits. -/
theorem refers_of_mem_references {processes locks : Nat} {port : UInt32}
    (h : port ∈ m.references processes locks) : Refers m port := by
  rcases List.mem_append.mp h with h | h
  · -- a reference of a process is one of its locks or one of its streams
    obtain ⟨p, hp, h⟩ := List.mem_flatMap.mp h
    have hp := List.mem_of_mem_take hp
    rcases List.mem_append.mp h with h | h
    · obtain ⟨l, hl, rfl⟩ := List.mem_map.mp h
      obtain ⟨b, hb, hl⟩ := List.mem_filterMap.mp hl
      exact .lock hp hb hl
    · obtain ⟨handle, hhandle, rfl⟩ := List.mem_map.mp h
      obtain ⟨b, hb, hhandle⟩ := List.mem_filterMap.mp hhandle
      exact .stream hp hb hhandle
  · -- a reference of a volume is its own port or that of a lock of it
    obtain ⟨v, hv, h⟩ := List.mem_flatMap.mp h
    obtain ⟨volumes, hvolumes⟩ : ∃ volumes, m.volumes = some volumes := by
      cases hlist : m.volumes with
      | none => rw [hlist] at hv; cases hv
      | some volumes => exact ⟨volumes, rfl⟩
    rw [hvolumes] at hv
    rcases List.mem_cons.mp h with rfl | h
    · exact .volume hvolumes hv
    · obtain ⟨l, hl, rfl⟩ := List.mem_map.mp h
      exact .volumeLock hvolumes hv (mem_walk hl)

/-- What the report shows is there. -/
theorem refers_of_mem_sightings {port : UInt32} {found : Match}
    (h : (port, found) ∈ sightings m.report) :
    found = matchHandler port m.dn0 m.dn2 ∧ Refers m port := by
  rw [sightings_report] at h
  obtain ⟨port', hport, heq⟩ := List.mem_map.mp h
  cases heq
  exact ⟨rfl, m.refers_of_mem_references hport⟩

/-- A report that is not cut short shows what is there. -/
theorem mem_sightings_of_refers (hwhole : Whole m.report) {port : UInt32} (h : Refers m port) :
    m.seen port ∈ sightings m.report := by
  obtain ⟨hcount, volumes, hvolumes, hends⟩ := m.whole_report_iff.mp hwhole
  rw [sightings_report]
  refine List.mem_map_of_mem ?_
  rw [references, List.take_of_length_le (Nat.le_of_lt hcount), hvolumes]
  rw [List.mem_append, List.mem_flatMap, List.mem_flatMap]
  -- each reference has its place in the lines
  cases h with
  | lock hp hb hl =>
    refine .inl ⟨_, hp, List.mem_append_left _ (List.mem_map.mpr ⟨_, ?_, rfl⟩)⟩
    exact List.mem_filterMap.mpr ⟨_, hb, hl⟩
  | stream hp hb hh =>
    refine .inl ⟨_, hp, List.mem_append_right _ (List.mem_map.mpr ⟨_, ?_, rfl⟩)⟩
    exact List.mem_filterMap.mpr ⟨_, hb, hh⟩
  | volume hlist hv =>
    cases hvolumes.symm.trans hlist
    exact .inr ⟨_, hv, List.mem_cons_self⟩
  | volumeLock hlist hv hl =>
    cases hvolumes.symm.trans hlist
    -- the loop has got to the end of this volume's locks
    have hwalk := (mem_walk_iff (hends _ hv).walk _).mpr hl
    exact .inr ⟨_, hv, List.mem_cons_of_mem _ (List.mem_map.mpr ⟨_, hwalk, rfl⟩)⟩

/-- With larger limits a report that is not cut short would show nothing more. -/
theorem references_of_whole (hwhole : Whole m.report) {processes locks : Nat}
    (hprocesses : maxProcesses ≤ processes) (hlocks : maxVolumeLocks ≤ locks) :
    m.references processes locks = m.references maxProcesses maxVolumeLocks := by
  obtain ⟨hcount, volumes, hvolumes, hends⟩ := m.whole_report_iff.mp hwhole
  rw [references, references, List.take_of_length_le (Nat.le_of_lt hcount),
    List.take_of_length_le (by omega), hvolumes]
  congr 1
  refine List.flatMap_congr fun v hv => ?_
  rw [volumeReferences, volumeReferences, walk_of_ends (hends v hv).walk hlocks]

end Machine

/-- **What `lockdiag` finds.** It shows one line for each reference within its two limits, in order;
every port it shows is that of a reference, with the right mark. A report in which nothing says that
it is cut short shows them all, with larger limits it would show nothing more, and it is so exactly
where there are fewer than 64 processes, the volumes can be looked at, and a null pointer comes
after at most 64 locks of each. -/
theorem report_references (m : Machine) :
    sightings m.report = (m.references maxProcesses maxVolumeLocks).map m.seen ∧
    (∀ port found, (port, found) ∈ sightings m.report →
      found = matchHandler port m.dn0 m.dn2 ∧ Refers m port) ∧
    (Whole m.report →
      (∀ port, Refers m port → (port, matchHandler port m.dn0 m.dn2) ∈ sightings m.report) ∧
      ∀ processes locks, maxProcesses ≤ processes → maxVolumeLocks ≤ locks →
        m.references processes locks = m.references maxProcesses maxVolumeLocks) ∧
    (Whole m.report ↔ m.sysBase.processes.length < maxProcesses ∧
      ∃ volumes, m.volumes = some volumes ∧
        ∀ v ∈ volumes, m.EndsWithin maxVolumeLocks v.dolLockList) :=
  ⟨m.sightings_report, fun _ _ h => m.refers_of_mem_sightings h,
    fun hwhole => ⟨fun _ h => m.mem_sightings_of_refers hwhole h,
      fun _ _ => m.references_of_whole hwhole⟩,
    m.whole_report_iff⟩

end NioApps.Lockdiag
