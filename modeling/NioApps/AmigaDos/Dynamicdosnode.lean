import Mathlib.Logic.Relation
import NioApps.Lib.Custody

/-!
# AmigaDOS — the program `dynamicdosnode.c`

The program makes the DOS node `DY0` and changes its geometry between that of a DD and of an HD
disk. The handler of the node starts when it is first used and may go away again, so the runs of
the program have those of the system in between.

* `actionDieProbe`, `switchToHd`, `switchToDd`, `addNode`, `main` — the program, over the entries of
  the name `DY0` and the answers of the system.
* `Reachable` — what runs of the program, handlers and removals make of the list.
* `geometry_run` — the node always has one of the two geometries, that of the last switch that could
  be made, and no run of the program touches a node whose handler is there.
* `main_gives_back` — the list is not left locked, nor the library open.
-/

namespace NioApps.Dynamicdosnode

open Custody

/-! ## The node -/

/-- The longwords 0 to 19 of the environment. -/
structure DosEnvec where
  deTableSize : UInt32
  deSizeBlock : UInt32
  deSecOrg : UInt32
  deSurfaces : UInt32
  deSectorPerBlock : UInt32
  deBlocksPerTrack : UInt32
  deReserved : UInt32
  dePreAlloc : UInt32
  deInterleave : UInt32
  deLowCyl : UInt32
  deHighCyl : UInt32
  deNumBuffers : UInt32
  deBufMemType : UInt32
  deMaxTransfer : UInt32
  deMask : UInt32
  deBootPri : Int
  deDosType : UInt32
  deBaud : UInt32
  deControl : UInt32
  deBootBlocks : UInt32
  deriving DecidableEq

/-- How a handler is to be started. -/
structure HandlerFields where
  stackSize : Int
  priority : Int
  globVec : Int
  deriving DecidableEq

structure Startup where
  unit : UInt32
  flags : UInt32
  environ : Option DosEnvec
  deriving DecidableEq

/-- An entry of the list of devices. Its task is 0 while no handler is there. -/
structure Node where
  dolTask : UInt32
  dolStartup : Option Startup
  handler : HandlerFields
  deriving DecidableEq

/-- `build_envec`, with the file system `FUJINET_AMIGA_DOS_OFS`. -/
def buildEnvec (ofs : UInt32) : DosEnvec where
  deTableSize := 19
  deSizeBlock := 128
  deSecOrg := 0
  deSurfaces := 2
  deSectorPerBlock := 1
  deBlocksPerTrack := 11
  deReserved := 2
  dePreAlloc := 0
  deInterleave := 0
  deLowCyl := 0
  deHighCyl := 79
  deNumBuffers := 5
  deBufMemType := 1
  deMaxTransfer := 0x7FFFFFFF
  deMask := 0xFFFFFFFE
  deBootPri := 0
  deDosType := ofs
  deBaud := 1200
  deControl := 0
  deBootBlocks := 0

def buildHandler : HandlerFields := ⟨32768, 5, -1⟩

/-! ## The system -/

/-- What the program asks of the system, as far as it has to give something back. -/
inductive Call where
  | openLibrary (found : Bool)
  | closeLibrary
  | lockDosList (found : Bool)
  | unLockDosList
  deriving DecidableEq

inductive Mode where
  | hd
  | dd
  deriving DecidableEq

inductive Line where
  | openFailed
  | preLockFailed
  | pre (present : Bool) (task : UInt32)
  | actionResult (result error : Int)
  | pollLockFailed
  | poll (attempt : Nat) (present : Bool) (task : UInt32)
  | notInactive (mode : Mode)
  | updated (mode : Mode) (env : DosEnvec)
  | builder (env : DosEnvec) (handler : HandlerFields)
  | makeFailed
  | node (phase : String) (node : Node)
  | handlerFieldsApplied
  | addFailed
  | added
  deriving DecidableEq

/-- The answers to the calls of one run. While `--die` polls, the list is seen as other programs and
the handler leave it: `observed` is the entry at each attempt, where the list can be locked. The
node is added at a place in the list. -/
structure Answers where
  library : Bool
  lock : Bool
  action : Int × Int
  observed : Nat → Option (Option Node)
  addDosNode : Bool
  place : Nat

structure Outcome where
  exitCode : Nat
  nodes : List Node
  calls : List Call
  lines : List Line

/-! ## The program -/

/-- The loop after `ACTION_DIE`, with the attempts that are left. -/
def pollTask (a : Answers) : Nat → Nat → Nat × List Call × List Line
  | 0, _ => (0, [], [])
  | n + 1, attempt =>
    match a.observed attempt with
    | none => (20, [.lockDosList false], [.pollLockFailed])
    | some entry =>
      let task := (entry.map Node.dolTask).getD 0
      let line := Line.poll attempt entry.isSome task
      if entry = none ∨ task = 0 then (0, [.lockDosList true, .unLockDosList], [line])
      else
        let rest := pollTask a n (attempt + 1)
        (rest.1, [.lockDosList true, .unLockDosList] ++ rest.2.1, line :: rest.2.2)

def actionDieProbe (a : Answers) (nodes : List Node) : Nat × List Call × List Line :=
  if a.lock then
    let task := (nodes.head?.map Node.dolTask).getD 0
    let line := Line.pre nodes.head?.isSome task
    if task = 0 then (20, [.lockDosList true, .unLockDosList], [line])
    else
      let polled := pollTask a 20 0
      (polled.1, [.lockDosList true, .unLockDosList] ++ polled.2.1,
        [line, .actionResult a.action.1 a.action.2] ++ polled.2.2)
  else (20, [.lockDosList false], [.preLockFailed])

/-- The six fields that `switch_to_hd` and `switch_to_dd` set. -/
def setGeometry (ofs blocksPerTrack : UInt32) (env : DosEnvec) : DosEnvec :=
  { env with
    deSurfaces := 2
    deSectorPerBlock := 1
    deBlocksPerTrack := blocksPerTrack
    deLowCyl := 0
    deHighCyl := 79
    deDosType := ofs }

/-- The startup message of a node whose handler is not there. -/
def Node.inactive (node : Node) : Option Startup :=
  if node.dolTask = 0 then node.dolStartup else none

def switchTo (mode : Mode) (ofs blocksPerTrack : UInt32) (a : Answers) (nodes : List Node) :
    Outcome :=
  if a.lock then
    match nodes with
    | [] => ⟨20, nodes, [.lockDosList true, .unLockDosList], [.notInactive mode]⟩
    | node :: rest =>
      match node.inactive with
      | none => ⟨20, nodes, [.lockDosList true, .unLockDosList], [.notInactive mode]⟩
      | some startup =>
        match startup.environ with
        | none => ⟨20, nodes, [.lockDosList true, .unLockDosList], []⟩
        | some env =>
          let env := setGeometry ofs blocksPerTrack env
          ⟨0, { node with dolStartup := some { startup with environ := some env } } :: rest,
            [.lockDosList true, .unLockDosList], [.updated mode env]⟩
  else ⟨20, nodes, [.lockDosList false], []⟩

def switchToHd (ofs : UInt32) : Answers → List Node → Outcome := switchTo .hd ofs 22

def switchToDd (ofs : UInt32) : Answers → List Node → Outcome := switchTo .dd ofs 11

/-- The rest of `main`, where it is started without an option; `make` is `MakeDosNode` for the
environment in the packet. -/
def addNode (make : DosEnvec → Option Node) (ofs : UInt32) (a : Answers) (nodes : List Node) :
    Outcome :=
  let builder := Line.builder (buildEnvec ofs) buildHandler
  match make (buildEnvec ofs) with
  | none => ⟨20, nodes, [], [builder, .makeFailed]⟩
  | some node =>
    let configured := { node with handler := buildHandler }
    let lines := [builder, .node "BEFORE_ADD" node, .handlerFieldsApplied,
      .node "CONFIGURED" configured]
    if a.addDosNode then
      ⟨0, nodes.insertIdx (min a.place nodes.length) configured, [],
        lines ++ [.added, .node "AFTER_ADD" configured]⟩
    else ⟨20, nodes, [], lines ++ [.addFailed]⟩

/-- `main` between opening the library and closing it; `argv` is without the name of the program. -/
def command (make : DosEnvec → Option Node) (ofs : UInt32) (a : Answers) (argv : List String)
    (nodes : List Node) : Outcome :=
  if argv.head? = some "--die" then
    let probed := actionDieProbe a nodes
    ⟨probed.1, nodes, probed.2.1, probed.2.2⟩
  else if argv.head? = some "--switch-hd" then switchToHd ofs a nodes
  else if argv.head? = some "--switch-dd" then switchToDd ofs a nodes
  else addNode make ofs a nodes

def main (make : DosEnvec → Option Node) (ofs : UInt32) (a : Answers) (argv : List String)
    (nodes : List Node) : Outcome :=
  if a.library then
    let ran := command make ofs a argv nodes
    { ran with calls := .openLibrary true :: ran.calls ++ [.closeLibrary] }
  else ⟨20, nodes, [.openLibrary false], [.openFailed]⟩

/-! ## Runs -/

/-- What may happen to the entries: the program runs, the handler of an entry comes or goes, or an
entry is taken out of the list. -/
inductive Step (make : DosEnvec → Option Node) (ofs : UInt32) : List Node → List Node → Prop where
  | run (a : Answers) (argv : List String) (nodes : List Node) :
      Step make ofs nodes (main make ofs a argv nodes).nodes
  | handler (i : Nat) (task : UInt32) (nodes : List Node) :
      Step make ofs nodes (nodes.modify i fun node => { node with dolTask := task })
  | removed (i : Nat) (nodes : List Node) : Step make ofs nodes (nodes.eraseIdx i)

/-- What becomes of a list without an entry. -/
def Reachable (make : DosEnvec → Option Node) (ofs : UInt32) (nodes : List Node) : Prop :=
  Relation.ReflTransGen (Step make ofs) [] nodes

/-! ## The geometry -/

def Node.environ (node : Node) : Option DosEnvec := node.dolStartup.bind Startup.environ

/-- The environment that the program builds, with its number of blocks in a track or with another. -/
def geometry (ofs blocksPerTrack : UInt32) : DosEnvec :=
  { buildEnvec ofs with deBlocksPerTrack := blocksPerTrack }

/-- As built it is that of a DD disk. -/
theorem buildEnvec_eq (ofs : UInt32) : buildEnvec ofs = geometry ofs 11 := rfl

/-- A second geometry replaces the first whole. -/
theorem setGeometry_geometry (ofs before after : UInt32) :
    setGeometry ofs after (geometry ofs before) = geometry ofs after := rfl

/-- The geometry of a DD or of an HD disk. -/
def Node.Formed (ofs : UInt32) (node : Node) : Prop :=
  node.environ = some (geometry ofs 11) ∨ node.environ = some (geometry ofs 22)

/-- Every entry is formed, and a node is not touched while its handler is there. -/
structure Kept (ofs : UInt32) (nodes nodes' : List Node) : Prop where
  formed : ∀ node ∈ nodes', node.Formed ofs
  active : ∀ node ∈ nodes, node.dolTask ≠ 0 → node ∈ nodes'

theorem Kept.refl {ofs : UInt32} {nodes : List Node} (h : ∀ node ∈ nodes, node.Formed ofs) :
    Kept ofs nodes nodes :=
  ⟨h, fun _ hnode _ => hnode⟩

theorem inactive_eq_some_iff {node : Node} {startup : Startup} :
    node.inactive = some startup ↔ node.dolTask = 0 ∧ node.dolStartup = some startup := by
  unfold Node.inactive
  split
  next h => exact (and_iff_right h).symm
  next h => exact iff_of_false (Option.some_ne_none startup).symm fun hand => h hand.1

/-- A switch leaves every entry formed and touches none whose handler is there. -/
theorem kept_switchTo {mode : Mode} {ofs blocksPerTrack : UInt32}
    (hblocks : blocksPerTrack = 11 ∨ blocksPerTrack = 22) (a : Answers) {nodes : List Node}
    (h : ∀ node ∈ nodes, node.Formed ofs) :
    Kept ofs nodes (switchTo mode ofs blocksPerTrack a nodes).nodes := by
  unfold switchTo
  split
  next =>
    split
    next => exact .refl h
    next node rest =>
      split
      next => exact .refl h
      next startup hinactive =>
        obtain ⟨htask, hstartup⟩ := inactive_eq_some_iff.mp hinactive
        split
        next => exact .refl h
        next env henv =>
          -- what is set is the geometry, whichever was there before
          have hset : setGeometry ofs blocksPerTrack env = geometry ofs blocksPerTrack := by
            have hformed := h node List.mem_cons_self
            rw [Node.Formed, Node.environ, hstartup, Option.bind_some, henv] at hformed
            rcases hformed with heq | heq
            · cases heq
              exact setGeometry_geometry ofs 11 blocksPerTrack
            · cases heq
              exact setGeometry_geometry ofs 22 blocksPerTrack
          constructor
          · rw [List.forall_mem_cons]
            refine ⟨?_, fun node hnode => h node (List.mem_cons_of_mem _ hnode)⟩
            show some (setGeometry _ _ _) = _ ∨ some (setGeometry _ _ _) = _
            rw [hset]
            rcases hblocks with rfl | rfl
            · exact .inl rfl
            · exact .inr rfl
          · -- the entry that is changed has no handler
            intro other hother hactive
            rcases List.mem_cons.mp hother with rfl | hother
            · exact absurd htask hactive
            · exact List.mem_cons_of_mem _ hother
  next => exact .refl h

section

variable {make : DosEnvec → Option Node}
  (hmake : ∀ env node, make env = some node → node.environ = some env)
  {ofs : UInt32} {nodes : List Node}

include hmake

/-- Adding a node leaves those that are there as they are, and the new one is formed. -/
theorem kept_addNode (a : Answers) (h : ∀ node ∈ nodes, node.Formed ofs) :
    Kept ofs nodes (addNode make ofs a nodes).nodes := by
  unfold addNode
  dsimp only
  split
  next => exact .refl h
  next node hnode =>
    split
    next =>
      have hplace : min a.place nodes.length ≤ nodes.length := Nat.min_le_right _ _
      constructor
      · -- the node that is added has the environment it was made from
        intro other hother
        rcases (List.mem_insertIdx hplace).mp hother with rfl | hother
        · rw [buildEnvec_eq] at hnode
          exact .inl (hmake _ node hnode)
        · exact h other hother
      · intro other hother _
        exact (List.mem_insertIdx hplace).mpr (.inr hother)
    next => exact .refl h

/-- One run of the program. -/
theorem kept_main (a : Answers) (argv : List String) (h : ∀ node ∈ nodes, node.Formed ofs) :
    Kept ofs nodes (main make ofs a argv nodes).nodes := by
  unfold main
  split
  next =>
    show Kept ofs nodes (command make ofs a argv nodes).nodes
    unfold command
    split
    -- probing the handler does not touch the list
    next => exact .refl h
    next =>
      split
      next => exact kept_switchTo (.inr rfl) a h
      next =>
        split
        next => exact kept_switchTo (.inl rfl) a h
        next => exact kept_addNode hmake a h
  next => exact .refl h

/-- One step keeps every entry formed, whichever program takes it. -/
theorem formed_step {nodes' : List Node} (hstep : Step make ofs nodes nodes')
    (h : ∀ node ∈ nodes, node.Formed ofs) : ∀ node ∈ nodes', node.Formed ofs := by
  cases hstep with
  | run a argv => exact (kept_main hmake a argv h).formed
  | handler i task =>
    -- only a task changes
    intro node hnode
    obtain ⟨j, hj⟩ := List.mem_iff_getElem?.mp hnode
    rw [List.getElem?_modify] at hj
    obtain ⟨before, hbefore, heq⟩ := Option.map_eq_some_iff.mp hj
    have hformed := h before (List.mem_of_getElem? hbefore)
    rw [← heq]
    split
    next => exact hformed
    next => exact hformed
  | removed i => exact fun node hnode => h node (List.mem_of_mem_eraseIdx hnode)

theorem formed_reachable (h : Reachable make ofs nodes) : ∀ node ∈ nodes, node.Formed ofs := by
  induction h with
  | refl => exact fun node hnode => absurd hnode List.not_mem_nil
  | tail _ hstep ih => exact formed_step hmake hstep ih

end

/-! ## Switching -/

/-- The node with another number of blocks in a track. -/
def Node.formatted (ofs blocksPerTrack : UInt32) (node : Node) : Node :=
  { node with
    dolStartup := node.dolStartup.map fun startup =>
      { startup with environ := some (geometry ofs blocksPerTrack) } }

/-- Of two formattings of a node the last counts. -/
theorem formatted_formatted (ofs before after : UInt32) (node : Node) :
    (node.formatted ofs before).formatted ofs after = node.formatted ofs after := by
  unfold Node.formatted
  rw [Option.map_map]
  rfl

/-- A formed node has a startup message with the geometry of some disk. -/
theorem Node.Formed.startup {ofs : UInt32} {node : Node} (h : node.Formed ofs) :
    ∃ startup blocks, node.dolStartup = some startup ∧
      startup.environ = some (geometry ofs blocks) := by
  rcases h with h | h
  · obtain ⟨startup, hstartup, henv⟩ := Option.bind_eq_some_iff.mp h
    exact ⟨startup, 11, hstartup, henv⟩
  · obtain ⟨startup, hstartup, henv⟩ := Option.bind_eq_some_iff.mp h
    exact ⟨startup, 22, hstartup, henv⟩

/-- Whether the first entry is there, and its handler is not. -/
def idle (nodes : List Node) : Bool := (nodes.head?.map fun node => node.dolTask == 0).getD false

/-- What switching does to a list whose entries are formed. -/
theorem switchTo_formed (mode : Mode) (ofs blocksPerTrack : UInt32) (a : Answers)
    {nodes : List Node} (h : ∀ node ∈ nodes, node.Formed ofs) :
    (switchTo mode ofs blocksPerTrack a nodes).exitCode =
      (if (a.lock && idle nodes) = true then 0 else 20) ∧
    (switchTo mode ofs blocksPerTrack a nodes).nodes =
      if (a.lock && idle nodes) = true then nodes.modify 0 (Node.formatted ofs blocksPerTrack)
      else nodes := by
  unfold switchTo
  cases hlock : a.lock with
  | false => exact ⟨rfl, rfl⟩
  | true =>
    cases nodes with
    | nil => exact ⟨rfl, rfl⟩
    | cons node rest =>
      -- a formed entry has a startup message and an environment, so only its task decides
      obtain ⟨startup, blocks, hstartup, henv⟩ := (h node List.mem_cons_self).startup
      have hidle : idle (node :: rest) = (node.dolTask == 0) := rfl
      by_cases htask : node.dolTask = 0
      · have hinactive : node.inactive = some startup :=
          inactive_eq_some_iff.mpr ⟨htask, hstartup⟩
        have hyes : (node.dolTask == 0) = true := beq_iff_eq.mpr htask
        simp only [hidle, hyes, hinactive, henv, Bool.true_and, if_true, List.modify_zero_cons,
          Node.formatted, hstartup, Option.map_some, setGeometry_geometry, true_and]
      · have hinactive : node.inactive = none := if_neg htask
        have hno : (node.dolTask == 0) = false := beq_eq_false_iff_ne.mpr htask
        simp only [hidle, hno, hinactive, Bool.and_false, Bool.false_eq_true, if_false, if_true,
          true_and]

/-- The option that asks for a switch. -/
def Mode.option : Mode → String
  | .hd => "--switch-hd"
  | .dd => "--switch-dd"

/-- The blocks in a track. -/
def Mode.blocks : Mode → UInt32
  | .hd => 22
  | .dd => 11

/-- The library is there, the list can be locked, and the first entry has no handler. -/
def Answers.switches (a : Answers) (nodes : List Node) : Bool := a.library && (a.lock && idle nodes)

/-- **One switch.** A run with one of the two options on a list whose entries are formed. -/
theorem main_switch (make : DosEnvec → Option Node) (ofs : UInt32) (a : Answers) (mode : Mode)
    (argv : List String) {nodes : List Node} (h : ∀ node ∈ nodes, node.Formed ofs) :
    (main make ofs a (mode.option :: argv) nodes).exitCode =
      (if a.switches nodes = true then 0 else 20) ∧
    (main make ofs a (mode.option :: argv) nodes).nodes =
      if a.switches nodes = true then nodes.modify 0 (Node.formatted ofs mode.blocks)
      else nodes := by
  have hcommand : command make ofs a (mode.option :: argv) nodes =
      switchTo mode ofs mode.blocks a nodes := by
    cases mode with
    | hd => rfl
    | dd => rfl
  have hswitch := switchTo_formed mode ofs mode.blocks a h
  unfold main Answers.switches
  -- without the library nothing is done to the list
  cases a.library with
  | false => exact ⟨rfl, rfl⟩
  | true =>
    rw [if_pos rfl, hcommand, Bool.true_and]
    exact hswitch

/-- What is left by runs that switch, one after another. -/
def afterSwitches (make : DosEnvec → Option Node) (ofs : UInt32)
    (switches : List (Answers × Mode)) (nodes : List Node) : List Node :=
  switches.foldl (fun nodes s => (main make ofs s.1 [s.2.option] nodes).nodes) nodes

theorem afterSwitches_concat (make : DosEnvec → Option Node) (ofs : UInt32)
    (switches : List (Answers × Mode)) (s : Answers × Mode) (nodes : List Node) :
    afterSwitches make ofs (switches ++ [s]) nodes =
      (main make ofs s.1 [s.2.option] (afterSwitches make ofs switches nodes)).nodes := by
  rw [afterSwitches, List.foldl_append]
  rfl

/-- Formatting the first entry does not bring a handler to life, so that the next switch can be made
as well. -/
theorem idle_formatted (ofs blocks : UInt32) (nodes : List Node) :
    idle (nodes.modify 0 (Node.formatted ofs blocks)) = idle nodes := by
  cases nodes with
  | nil => rfl
  | cons node rest => rfl

/-- Of two formattings of the first entry the last counts. -/
theorem formatted_twice (ofs before after : UInt32) (nodes : List Node) :
    (nodes.modify 0 (Node.formatted ofs before)).modify 0 (Node.formatted ofs after) =
      nodes.modify 0 (Node.formatted ofs after) := by
  cases nodes with
  | nil => rfl
  | cons node rest =>
    simp only [List.modify_zero_cons, formatted_formatted]

/-- The last switch that can be made. -/
def lastSwitch (switches : List (Answers × Mode)) (nodes : List Node) :
    Option (Answers × Mode) :=
  (switches.filter fun s => s.1.switches nodes).getLast?

/-- **Several switches.** The list is formatted by the last of them that can be made; none of them
makes another one possible, or impossible. -/
theorem afterSwitches_eq {make : DosEnvec → Option Node}
    (hmake : ∀ env node, make env = some node → node.environ = some env) {ofs : UInt32}
    {nodes : List Node} (h : ∀ node ∈ nodes, node.Formed ofs)
    (switches : List (Answers × Mode)) :
    (∀ node ∈ afterSwitches make ofs switches nodes, node.Formed ofs) ∧
    idle (afterSwitches make ofs switches nodes) = idle nodes ∧
    afterSwitches make ofs switches nodes = ((lastSwitch switches nodes).map fun s =>
      nodes.modify 0 (Node.formatted ofs s.2.blocks)).getD nodes := by
  induction switches using List.reverseRecOn with
  | nil => exact ⟨h, rfl, rfl⟩
  | append_singleton switches s ih =>
    obtain ⟨hformed, hidle, heq⟩ := ih
    have hnodes := (main_switch make ofs s.1 s.2 [] hformed).2
    -- a switch does not change whether the first entry has a handler, so that each of the switches
    -- can be made here exactly where it could be made at the start
    have hsame : s.1.switches (afterSwitches make ofs switches nodes) = s.1.switches nodes := by
      rw [Answers.switches, hidle, Answers.switches]
    rw [hsame] at hnodes
    rw [afterSwitches_concat]
    refine ⟨(kept_main hmake s.1 _ hformed).formed, ?_, ?_⟩
    · rw [hnodes]
      split
      next => rw [idle_formatted, hidle]
      next => exact hidle
    · rw [hnodes, lastSwitch, List.filter_append]
      cases hcan : s.1.switches nodes with
      | false =>
        have hnone : ([s].filter fun s => s.1.switches nodes) = [] :=
          List.filter_cons_of_neg (by rw [hcan]; exact Bool.false_ne_true)
        -- the last switch is not made, and the ones before it stand
        rw [if_neg Bool.false_ne_true, hnone, List.append_nil]
        exact heq
      | true =>
        have hone : ([s].filter fun s => s.1.switches nodes) = [s] :=
          List.filter_cons_of_pos hcan
        -- the last switch is made, and replaces what the one before it left
        rw [if_pos rfl, hone, List.getLast?_concat, heq]
        cases lastSwitch switches nodes with
        | none => rfl
        | some before => exact formatted_twice ofs before.2.blocks s.2.blocks nodes

/-- **The geometry of the node.** Whatever the program, handlers and other programs have done to the
list so far, every entry has the geometry of a DD or of an HD disk, and no run of the program
touches an entry whose handler is there. A run that switches exits with 0 exactly where the library
is there, the list can be locked and the first entry has no handler; the environment of this entry
is then the one built, with the blocks in a track of the disk asked for, and the rest of the list
is as it was; otherwise all of it is. Of several switches the last that can be made counts. -/
theorem geometry_run (make : DosEnvec → Option Node)
    (hmake : ∀ env node, make env = some node → node.environ = some env) {ofs : UInt32}
    {nodes : List Node} (hreachable : Reachable make ofs nodes) :
    (∀ node ∈ nodes, node.Formed ofs) ∧
    (∀ a argv, ∀ node ∈ nodes, node.dolTask ≠ 0 → node ∈ (main make ofs a argv nodes).nodes) ∧
    (∀ a (mode : Mode) argv, let ran := main make ofs a (mode.option :: argv) nodes
      (ran.exitCode = 0 ↔ a.library = true ∧ a.lock = true ∧ idle nodes = true) ∧
      (ran.exitCode = 0 → ∃ first rest, nodes = first :: rest ∧
        ran.nodes = first.formatted ofs mode.blocks :: rest ∧
        (first.formatted ofs mode.blocks).environ =
          some { buildEnvec ofs with deBlocksPerTrack := mode.blocks }) ∧
      (ran.exitCode ≠ 0 → ran.nodes = nodes)) ∧
    ∀ switches, afterSwitches make ofs switches nodes =
      ((lastSwitch switches nodes).map fun s =>
        (main make ofs s.1 [s.2.option] nodes).nodes).getD nodes := by
  have hformed := formed_reachable hmake hreachable
  refine ⟨hformed, fun a argv => (kept_main hmake a argv hformed).active, ?_, ?_⟩
  · intro a mode argv
    dsimp only
    obtain ⟨hexit, hnodes⟩ := main_switch make ofs a mode argv hformed
    rw [hexit, hnodes]
    have hcan : a.switches nodes = true ↔ a.library = true ∧ a.lock = true ∧ idle nodes = true := by
      rw [Answers.switches, Bool.and_eq_true, Bool.and_eq_true]
    rw [← hcan]
    cases hswitches : a.switches nodes with
    | false =>
      refine ⟨by decide, fun hzero => absurd hzero (by decide), fun _ => if_neg Bool.false_ne_true⟩
    | true =>
      refine ⟨by decide, fun _ => ?_, fun hne => absurd (if_pos rfl) hne⟩
      cases nodes with
      -- an empty list has no entry to be idle
      | nil => exact absurd (hcan.mp hswitches).2.2 Bool.false_ne_true
      | cons first rest =>
        obtain ⟨startup, blocks, hstartup, -⟩ := (hformed first List.mem_cons_self).startup
        refine ⟨first, rest, rfl, by rw [if_pos rfl, List.modify_zero_cons], ?_⟩
        rw [Node.environ, Node.formatted, hstartup]
        rfl
  · intro switches
    -- the last switch that can be made does alone what all of them do
    rw [(afterSwitches_eq hmake hformed switches).2.2]
    cases hlast : lastSwitch switches nodes with
    | none => rfl
    | some s =>
      have hmem := List.mem_of_getLast? hlast
      have hcan := (List.mem_filter.mp hmem).2
      have hnodes := (main_switch make ofs s.1 s.2 [] hformed).2
      rw [if_pos hcan] at hnodes
      exact hnodes.symm

/-- `MakeDosNode` as it gives a node for unit 0. -/
def makeUnit0 (env : DosEnvec) : Option Node := some ⟨0, some ⟨0, 0, some env⟩, ⟨0, 0, 0⟩⟩

/-- A run in which nothing fails. -/
def quietAnswers : Answers where
  library := true
  lock := true
  action := (-1, 0)
  observed _ := some none
  addDosNode := true
  place := 0

/-- The node is made, switched to DD and to HD, and then the list cannot be locked. -/
theorem geometry_run_switched :
    let nodes := (main makeUnit0 0 quietAnswers [] []).nodes
    let switches := [(quietAnswers, Mode.dd), (quietAnswers, .hd),
      ({ quietAnswers with lock := false }, .dd)]
    (main makeUnit0 0 quietAnswers ["--switch-hd"] nodes).exitCode = 0 ∧
      afterSwitches makeUnit0 0 switches nodes =
        [⟨0, some ⟨0, 0, some (geometry 0 22)⟩, buildHandler⟩] := by
  obtain ⟨-, -, hswitch, hseveral⟩ := geometry_run makeUnit0 (fun env node h => by cases h; rfl)
    (Relation.ReflTransGen.refl.tail (.run quietAnswers [] []) : Reachable makeUnit0 0 _)
  exact ⟨(hswitch quietAnswers .hd []).1.mpr ⟨rfl, rfl, rfl⟩, hseveral _⟩

/-! ## What the program holds -/

inductive Resource where
  | library
  | list
  deriving DecidableEq

def Resource.needs : Resource → List Resource
  | .library => []
  | .list => [.library]

def Call.act : Call → Option (Act Resource)
  | .openLibrary found => if found then some (.take .library) else none
  | .closeLibrary => some (.give .library)
  | .lockDosList found => if found then some (.take .list) else none
  | .unLockDosList => some (.give .list)

/-- The calls start and end with the same in hand. -/
abbrev Keeps : List Resource → List Call → Prop := Custody.Keeps Resource.needs Call.act

theorem keeps_locked : Keeps [.library] [.lockDosList true, .unLockDosList] := rfl

/-- Polling locks the list and unlocks it again each time, under the library that is held. -/
theorem keeps_pollTask (a : Answers) (n attempt : Nat) :
    Keeps [.library] (pollTask a n attempt).2.1 := by
  induction n generalizing attempt with
  | zero => rfl
  | succ n ih =>
    rw [pollTask]
    split
    next => rfl
    next entry =>
      dsimp only
      split
      next => exact keeps_locked
      next => exact keeps_locked.append (ih (attempt + 1))

/-- Every command gives back what it takes, whatever the answers: one case for each way through it.
-/
theorem keeps_command (make : DosEnvec → Option Node) (ofs : UInt32) (a : Answers)
    (argv : List String) (nodes : List Node) :
    Keeps [.library] (command make ofs a argv nodes).calls := by
  -- each way through a switch either cannot lock the list or locks it once
  have hswitch : ∀ mode blocks, Keeps [.library] (switchTo mode ofs blocks a nodes).calls := by
    intro mode blocks
    unfold switchTo
    split
    next =>
      split
      next => exact keeps_locked
      next =>
        split
        next => exact keeps_locked
        next =>
          split
          next => exact keeps_locked
          next => exact keeps_locked
    next => rfl
  unfold command
  split
  next =>
    dsimp only
    -- the probe
    unfold actionDieProbe
    split
    next =>
      dsimp only
      split
      next => exact keeps_locked
      next => exact keeps_locked.append (keeps_pollTask a 20 0)
    next => rfl
  next =>
    split
    next => exact hswitch .hd 22
    -- the two switches, and then the node that is added
    next =>
      split
      next => exact hswitch .dd 11
      next =>
        unfold addNode
        dsimp only
        split
        next => rfl
        next =>
          split
          next => rfl
          next => rfl

/-- In every run the list is unlocked as often as it is locked, and before the library is closed. -/
theorem main_gives_back (make : DosEnvec → Option Node) (ofs : UInt32) (a : Answers)
    (argv : List String) (nodes : List Node) :
    Keeps [] (main make ofs a argv nodes).calls := by
  unfold main
  split
  next =>
    exact keeps_bracket_nil rfl rfl rfl (keeps_command make ofs a argv nodes)
  next => rfl

/-! ## Waiting for the handler to go -/

/-- A poll that shows that the handler is there, and one that shows that it is not. -/
def Line.There : Line → Prop
  | .poll _ present task => present = true ∧ task ≠ 0
  | _ => False

def Line.Gone : Line → Prop
  | .poll _ present task => present = false ∨ task = 0
  | _ => False

/-- `--die` succeeds where a poll shows that the handler has gone, and also where it is there at
every attempt. -/
theorem pollTask_lines (a : Answers) (n attempt : Nat) (h : (pollTask a n attempt).1 = 0) :
    ((pollTask a n attempt).2.2.length = n ∧ ∀ line ∈ (pollTask a n attempt).2.2, line.There) ∨
      ∃ init last, (pollTask a n attempt).2.2 = init ++ [last] ∧ last.Gone ∧
        ∀ line ∈ init, line.There := by
  induction n generalizing attempt with
  | zero => exact .inl ⟨rfl, fun line hline => absurd hline List.not_mem_nil⟩
  | succ n ih =>
    rw [pollTask] at h ⊢
    cases hentry : a.observed attempt with
    | none =>
      rw [hentry] at h
      cases h
    | some entry =>
      rw [hentry] at h
      dsimp only at h ⊢
      split at h
      next hgone =>
        -- this poll is the last one
        rw [if_pos hgone]
        refine .inr ⟨[], _, rfl, ?_, fun line hline => absurd hline List.not_mem_nil⟩
        rcases hgone with rfl | htask
        · exact .inl rfl
        · exact .inr htask
      next hthere =>
        -- the attempts that are left come after this poll
        rw [if_neg hthere]
        have hfirst : (Line.poll attempt entry.isSome
            ((entry.map Node.dolTask).getD 0)).There := by
          obtain ⟨hpresent, htask⟩ := not_or.mp hthere
          exact ⟨Option.isSome_iff_ne_none.mpr hpresent, htask⟩
        rcases ih (attempt + 1) h with ⟨hlength, hall⟩ | ⟨init, last, heq, hlast, hall⟩
        · exact .inl ⟨congrArg (· + 1) hlength, List.forall_mem_cons.mpr ⟨hfirst, hall⟩⟩
        · exact .inr ⟨_ :: init, last, congrArg _ heq, hlast,
            List.forall_mem_cons.mpr ⟨hfirst, hall⟩⟩

end NioApps.Dynamicdosnode
