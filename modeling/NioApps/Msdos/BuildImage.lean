import NioApps.Lib.Script
import NioApps.Msdos.CaseFolding

/-!
# Msdos — the script from its arguments to the image

`main` and `create_msdos_img` of `create_msdos_img.py`: the parameters, the checks, and then what is
done to the output file, one action after another until one fails. `mkfs.fat`, `mcopy`, `mmd` and
`mdir` are programs of their own, and the file system may refuse what is asked of it: a `Toolbox` is
any such surroundings. Reading the input folder and resolving the two paths go through.

* `makeImageKb`, `createMsdosImg`, `buildMain` — the code, with the actions it takes.
* `buildMain_actions` — nothing is touched before every check passed, and then the actions of the
  plan are taken in order up to the first that fails.
* `Mirrors`, `buildMain_mirrors` — with tools that do what they are for, a build goes through, and
  the finished image holds the visible folders and files of the input, under their upper-cased
  names, and nothing else.
-/

namespace NioApps.Msdos

open Script (Trail Takes act completed takes_act takes_forM takes_ite)

/-! ## The surroundings -/

inductive Tool where
  | mkfsFat
  | mcopy
  | mdir
  | mmd
  deriving DecidableEq

/-- A program run by `run_checked`. -/
inductive ToolCall where
  | mkfsFat (fatBits : Nat) (label : PyStr) (clusterSectors : Option Int)
  | populate (command : Command)
  | mdir

/-- What the script itself asks of the file system for the output file. -/
inductive FileCall where
  | mkdirParents
  | unlink
  | openOutput
  | truncate (bytes : Nat)

/-- What is done to the output file or its folder. -/
inductive Action where
  | file (call : FileCall)
  | tool (call : ToolCall)

/-- What stands at the output path: nothing, what was there before, a file of zeros, or an image. -/
inductive OutFile (σ : Type) where
  | missing
  | old
  | zeros (bytes : Nat)
  | image (s : σ)

/-- The exceptions by kind; `osError` is any `OSError` but `FileNotFoundError`. -/
inductive Exn where
  | fileNotFoundError
  | runtimeError
  | valueError
  | calledProcessError
  | osError
  | overflowError
  deriving DecidableEq

/-- The `except` clause of `main`. -/
def Exn.caught : Exn → Bool
  | .fileNotFoundError | .runtimeError | .valueError | .calledProcessError => true
  | .osError | .overflowError => false

/-- What is on the `PATH`, what the programs do (`mkfs.fat` to a file of zeros, the others to an
image it made), which calls the file system lets through, and what an action raises that fails:
`CalledProcessError` where a program exits with an error, an `OSError` where it cannot be started or
the file system refuses, `OverflowError` for a size that is too large. What a failed action leaves
at the output path is not modelled. -/
structure Toolbox (σ : Type) where
  which : Tool → Bool
  mkfs : (bytes fatBits : Nat) → (label : PyStr) → (clusterSectors : Option Int) → Option σ
  exec : Command → σ → Option σ
  mdir : σ → Option PyStr
  files : FileCall → Bool
  raises : Action → Exn

/-- The file a call of the file system leaves. -/
def FileCall.leaves {σ : Type} : FileCall → OutFile σ → OutFile σ
  | .mkdirParents, file => file
  | .unlink, _ => .missing
  | .openOutput, _ => .zeros 0
  | .truncate bytes, _ => .zeros bytes

/-- One action on what stands at the output path; none where it fails. -/
def Toolbox.perform {σ : Type} (tools : Toolbox σ) : Action → OutFile σ → Option (OutFile σ)
  | .file call, file => if tools.files call then some (call.leaves file) else none
  | .tool (.mkfsFat fatBits label clusterSectors), .zeros bytes =>
    (tools.mkfs bytes fatBits label clusterSectors).map .image
  | .tool (.populate command), .image s => (tools.exec command s).map .image
  | .tool .mdir, .image s => (tools.mdir s).map fun _ => .image s
  | .tool _, _ => none

/-- The exceptions a build ends with: those of the checks, and what a failed action raises. -/
inductive BuildError where
  | missingTools (missing : List Tool)
  | inputNotFound
  | sizeNotPositive
  | fatSize
  | clusterSectors
  | value (error : ValueError)
  | action (action : Action)

/-- The kind of exception it is. -/
def BuildError.exn {σ : Type} (tools : Toolbox σ) : BuildError → Exn
  | .missingTools _ => .runtimeError
  | .inputNotFound => .fileNotFoundError
  | .sizeNotPositive | .fatSize | .clusterSectors | .value _ => .valueError
  | .action failed => tools.raises failed

/-! ## The code -/

/-- The arguments of `create_msdos_img`, with what is found at the two paths: `inputDir` is there if
it is a directory, `outputExists` says whether there is an output file already. -/
structure CreateArgs where
  inputDir : Option HostDir
  output : PyStr
  outputExists : Bool
  sizeKb : Int
  fatBits : Nat
  label : PyStr
  clusterSectors : Option Int
  showListing : Bool

/-- A part of the script. -/
abbrev Build (σ : Type) := EStateM BuildError (Trail Action (OutFile σ))

def requireTools {σ : Type} (tools : Toolbox σ) : List Tool :=
  [.mkfsFat, .mcopy, .mdir, .mmd].filter fun tool => !tools.which tool

/-- The clusters that are allowed. -/
def clusterSizes : List Int := [1, 2, 4, 8, 16, 32, 64]

section

variable {σ : Type} (tools : Toolbox σ)

def perform (action : Action) : Build σ Unit := act tools.perform .action action

def runChecked (call : ToolCall) : Build σ Unit := perform tools (.tool call)

def makeImageKb (args : CreateArgs) (label : PyStr) : Build σ Unit := do
  perform tools (.file .mkdirParents)
  (if args.outputExists then perform tools (.file .unlink) else pure ())
  perform tools (.file .openOutput)
  perform tools (.file (.truncate (args.sizeKb.toNat * 1024)))
  runChecked tools (.mkfsFat args.fatBits label args.clusterSectors)

/-- `populate_image`, which runs the commands of `populateImage`. -/
def runPopulate (image : PyStr) (entries : List ImageEntry) : Build σ Unit :=
  (populateImage image entries).forM fun command => runChecked tools (.populate command)

def listImage : Build σ Unit := runChecked tools .mdir

/-- `create_msdos_img` from the checks on: the image made, filled and listed. -/
def buildImage (args : CreateArgs) (label : PyStr) (entries : List ImageEntry) : Build σ Unit := do
  makeImageKb tools args label
  runPopulate tools args.output entries
  if args.showListing then listImage tools

def createMsdosImg (py : StrCase) (args : CreateArgs) : Build σ Unit :=
  let missing := requireTools tools
  if missing ≠ [] then throw (.missingTools missing)
  else
    match args.inputDir with
    | none => throw .inputNotFound
    | some inputDir =>
      if args.sizeKb ≤ 0 then throw .sizeNotPositive
      else if args.fatBits ∉ [12, 16] then throw .fatSize
      else if args.clusterSectors.any fun n => n ∉ clusterSizes then throw .clusterSectors
      else
        match validateLabel py args.label with
        | .error error => throw (.value error)
        | .ok label =>
          match collectEntries py inputDir.children with
          | .error error => throw (.value error)
          | .ok entries => buildImage tools args label entries

end

/-- The choices of `--preset`. -/
inductive Preset where
  | floppy1440
  | floppy2880

def Preset.kib : Preset → Int
  | .floppy1440 => 1440
  | .floppy2880 => 2880

/-- The choices of `--fat`. -/
inductive FatType where
  | fat12
  | fat16

def FatType.bits : FatType → Nat
  | .fat12 => 12
  | .fat16 => 16

/-- What `parse_args` gives, with what is found at the two paths. -/
structure ParsedArgs where
  inputDir : Option HostDir
  output : PyStr
  outputExists : Bool
  sizeMb : Option Int
  preset : Preset
  fat : Option FatType
  clusterSectors : Option Int
  label : PyStr
  noList : Bool

/-- The arguments that `main` hands to `create_msdos_img`. -/
def ParsedArgs.create (args : ParsedArgs) : CreateArgs :=
  let sizeKb :=
    match args.sizeMb with
    | none => args.preset.kib
    | some mb => mb * 1024
  let fatBits := (args.fat.map FatType.bits).getD (if args.sizeMb.isNone then 12 else 16)
  let clusterSectors :=
    if args.clusterSectors.isNone && args.sizeMb.isSome && fatBits == 16 then some 8
    else args.clusterSectors
  { inputDir := args.inputDir
    output := args.output
    outputExists := args.outputExists
    sizeKb := sizeKb
    fatBits := fatBits
    label := args.label
    clusterSectors := clusterSectors
    showListing := !args.noList }

/-- How `main` ends: with an exit code, or with an exception that it does not catch. -/
inductive MainEnd where
  | exit (code : Nat)
  | raised (error : BuildError)

/-- What the script finds, before it does anything. -/
def CreateArgs.start (σ : Type) (args : CreateArgs) : Trail Action (OutFile σ) :=
  ⟨if args.outputExists then .old else .missing, []⟩

/-- `main`: how it ends, with the actions that were taken and what stands at the output path. -/
def buildMain {σ : Type} (py : StrCase) (tools : Toolbox σ) (args : ParsedArgs) :
    MainEnd × Trail Action (OutFile σ) :=
  match createMsdosImg tools py args.create (args.create.start σ) with
  | .error error left => (if (error.exn tools).caught then .exit 1 else .raised error, left)
  | .ok () left => (.exit 0, left)

/-! ## The actions of a build -/

/-- The actions of `make_image_kb`. -/
def makeActions (args : CreateArgs) (label : PyStr) : List Action :=
  .file .mkdirParents :: ((if args.outputExists then [.file .unlink] else []) ++
    [.file .openOutput, .file (.truncate (args.sizeKb.toNat * 1024)),
      .tool (.mkfsFat args.fatBits label args.clusterSectors)])

/-- The actions of a build none of which fails. -/
def plan (args : CreateArgs) (label : PyStr) (entries : List ImageEntry) : List Action :=
  makeActions args label ++
    ((populateImage args.output entries).map (fun command => .tool (.populate command)) ++
      (if args.showListing then [.tool .mdir] else []))

/-- Every check passes: the tools are there, the parameters are in range, and the label and every
name that is met are accepted. -/
structure Passes {σ : Type} (py : StrCase) (tools : Toolbox σ) (args : CreateArgs)
    (label : PyStr) (entries : List ImageEntry) : Prop where
  tools : ∀ tool, tools.which tool = true
  size : 0 < args.sizeKb
  fat : args.fatBits = 12 ∨ args.fatBits = 16
  cluster : ∀ n, args.clusterSectors = some n → n ∈ clusterSizes
  label : validateLabel py args.label = .ok label
  input : ∃ inputDir, args.inputDir = some inputDir ∧
    collectEntries py inputDir.children = .ok entries

section

variable {σ : Type} {py : StrCase} {tools : Toolbox σ} {args : CreateArgs} {label : PyStr}
  {entries : List ImageEntry}

/-- No tool is missing exactly where each is found. -/
theorem requireTools_eq_nil : requireTools tools = [] ↔ ∀ tool, tools.which tool = true := by
  rw [requireTools, List.filter_eq_nil_iff]
  constructor
  · intro hall tool
    cases tool with
    | mkfsFat => simpa using hall .mkfsFat (by simp)
    | mcopy => simpa using hall .mcopy (by simp)
    | mdir => simpa using hall .mdir (by simp)
    | mmd => simpa using hall .mmd (by simp)
  · intro hall tool _
    simp [hall tool]

/-- **The checks.** A build is refused with nothing done, or every check passes and the image is
made. -/
theorem createMsdosImg_cases (tools : Toolbox σ) (py : StrCase) (args : CreateArgs) :
    ((¬ ∃ label entries, Passes py tools args label entries) ∧
      ∃ error : BuildError, (error.exn tools).caught = true ∧
        createMsdosImg tools py args = throw error) ∨
    (∃ label entries, Passes py tools args label entries ∧
      createMsdosImg tools py args = buildImage tools args label entries) := by
  unfold createMsdosImg
  dsimp only
  split
  -- one case for each check: if it fails, it is the condition of that name that does not hold
  next hmissing =>
    refine .inl ⟨?_, .missingTools _, rfl, rfl⟩
    rintro ⟨label, entries, hpasses⟩
    exact hmissing (requireTools_eq_nil.mpr hpasses.tools)
  next hmissing =>
  have htools := requireTools_eq_nil.mp (not_not.mp hmissing)
  cases hinput : args.inputDir with
  | none =>
    refine .inl ⟨?_, .inputNotFound, rfl, rfl⟩
    rintro ⟨label, entries, hpasses⟩
    obtain ⟨inputDir, hsome, -⟩ := hpasses.input
    rw [hinput] at hsome
    cases hsome
  | some inputDir =>
  dsimp only
  split
  next hsize =>
    refine .inl ⟨?_, .sizeNotPositive, rfl, rfl⟩
    rintro ⟨label, entries, hpasses⟩
    exact absurd hpasses.size (by omega)
  next hsize =>
  split
  next hfat =>
    refine .inl ⟨?_, .fatSize, rfl, rfl⟩
    rintro ⟨label, entries, hpasses⟩
    exact hfat (by simpa using hpasses.fat)
  next hfat =>
  split
  next hcluster =>
    refine .inl ⟨?_, .clusterSectors, rfl, rfl⟩
    rintro ⟨label, entries, hpasses⟩
    cases hn : args.clusterSectors with
    | none => simp [hn] at hcluster
    | some n =>
      have hbad : n ∉ clusterSizes := by simpa [hn] using hcluster
      exact hbad (hpasses.cluster n hn)
  next hcluster =>
  cases hlabel : validateLabel py args.label with
  | error error =>
    refine .inl ⟨?_, .value _, rfl, rfl⟩
    rintro ⟨label, entries, hpasses⟩
    have hok := hpasses.label
    rw [hlabel] at hok
    cases hok
  | ok label =>
  cases hentries : collectEntries py inputDir.children with
  | error error =>
    refine .inl ⟨?_, .value _, rfl, rfl⟩
    rintro ⟨label, entries, hpasses⟩
    obtain ⟨inputDir', hsome, hok⟩ := hpasses.input
    rw [hinput] at hsome
    obtain rfl := Option.some.inj hsome
    rw [hentries] at hok
    cases hok
  | ok entries =>
    refine .inr ⟨label, entries, ⟨htools, by omega, by simp at hfat; omega, ?_, hlabel, inputDir,
      hinput, hentries⟩, rfl⟩
    intro n hn
    simpa [hn] using hcluster

/-- **The actions.** They are those of the plan, in its order: all of them if the build returns, and
otherwise up to the one that failed. -/
theorem takes_buildImage :
    Takes tools.perform .action (buildImage tools args label entries)
      (plan args label entries) := by
  have hmake : Takes tools.perform .action (makeImageKb tools args label)
      (makeActions args label) :=
    (takes_act _).bind ((takes_ite (takes_act _)).bind ((takes_act _).bind ((takes_act _).bind
      (takes_act (Action.tool (.mkfsFat args.fatBits label args.clusterSectors))))))
  exact hmake.bind ((takes_forM _ _).bind (takes_ite (takes_act _)))

end

inductive ImageNode where
  | dir
  | file (bytes : List UInt8)
  deriving DecidableEq

/-- What an image holds, by the names on the way to it. -/
abbrev ImageMap := List PyStr → Option ImageNode

/-- The names on a path of mtools. -/
def imageKey (target : PyStr) : List PyStr := (target.drop (lit "::/").length).splitOn 47

/-- The root, or a directory. -/
def HasDir (m : ImageMap) (key : List PyStr) : Prop := key = [] ∨ m key = some .dir

/-- What the tools are documented to do, where they succeed: `mkfs.fat` makes an empty image, `mmd`
makes a directory in one that is there, under a name that is free, and `mcopy -o` copies a host file
into a directory that is there, if its name is not that of a directory. -/
structure Lawful {σ : Type} (tools : Toolbox σ) (host : HostPath → List UInt8)
    (contents : σ → ImageMap) : Prop where
  mkfs_empty : ∀ bytes fatBits label clusterSectors s,
    tools.mkfs bytes fatBits label clusterSectors = some s → contents s = fun _ => none
  mmd_made : ∀ image target s s', tools.exec (.mmd image target) s = some s' →
    HasDir (contents s) (imageKey target).dropLast → contents s (imageKey target) = none →
    contents s' = Function.update (contents s) (imageKey target) (some .dir)
  mcopy_copied : ∀ image source target s s', tools.exec (.mcopy image source target) s = some s' →
    HasDir (contents s) (imageKey target).dropLast → contents s (imageKey target) ≠ some .dir →
    contents s' = Function.update (contents s) (imageKey target) (some (.file (host source)))

/-- What a command of the script needs: its directory is there, and its name is free. -/
def Ready (m : ImageMap) (command : Command) : Prop :=
  HasDir m (imageKey command.target).dropLast ∧ m (imageKey command.target) = none

instance (m : ImageMap) (command : Command) : Decidable (Ready m command) :=
  inferInstanceAs (Decidable ((_ ∨ _) ∧ _))

/-- An image with the visible directories and regular files of a host folder, under their
upper-cased names, and nothing else. -/
structure Mirrors (py : StrCase) (host : HostPath → List UInt8) (inputDir : List Node)
    (m : ImageMap) : Prop where
  dir_iff : ∀ key, m key = some .dir ↔ ∃ path node, Visible py inputDir path node ∧
    node.isDir = true ∧ path.map py.upper = key
  file_iff : ∀ key bytes, m key = some (.file bytes) ↔ ∃ path node,
    Visible py inputDir path node ∧ node.isFile = true ∧ path.map py.upper = key ∧
      host path = bytes

/-! ### The entries as keys and values -/

/-- The command of `populate_image` for an entry. -/
def command (image : PyStr) (entry : ImageEntry) : Command :=
  if entry.isDir then .mmd image (mtoolsPath entry.imagePath)
  else .mcopy image entry.source (mtoolsPath entry.imagePath)

theorem populateImage_eq (image : PyStr) (entries : List ImageEntry) :
    populateImage image entries = entries.map (command image) := rfl

def entryKey (py : StrCase) (entry : ImageEntry) : List PyStr := entry.source.map py.upper

def entryNode (host : HostPath → List UInt8) (entry : ImageEntry) : ImageNode :=
  if entry.isDir then .dir else .file (host entry.source)

section

variable {py : StrCase} {host : HostPath → List UInt8} {inputDir : HostDir}
  {entries : List ImageEntry}

theorem Visible.path_ne_nil {children : List Node} {path : HostPath} {node : Node}
    (h : Visible py children path node) : path ≠ [] := by
  cases h with
  | child => exact List.cons_ne_nil _ _
  | deeper => exact List.cons_ne_nil _ _

/-- The names of an entry are got back from the target of its command. -/
theorem imageKey_command (hok : collectEntries py inputDir.children = .ok entries)
    {image : PyStr} {entry : ImageEntry} (hmem : entry ∈ entries) :
    imageKey (command image entry).target = entryKey py entry := by
  have horder := walk_inOrder inputDir.distinct [] [] entries (imageDirOf_top py) hok
  have hall : AllAccepted py inputDir.children := (walk_ok_iff py _ [] []).mp ⟨entries, hok⟩
  obtain ⟨node, hvisible, -, -, hpath⟩ := (horder.creatable.mem_iff entry).mp hmem
  have hsplit : (slashJoined py entry.source).splitOn 47 = entry.source.map py.upper := by
    apply List.splitOn_intercalate
    · intro part hpart
      obtain ⟨name, hname, rfl⟩ := List.mem_map.mp hpart
      exact slash_notMem_of_accepted (hvisible.names_accepted hall name hname)
    · exact fun hnil => hvisible.path_ne_nil (List.map_eq_nil_iff.mp hnil)
  rw [command, target_populate, imageKey, mtoolsPath, List.drop_left, hpath, hsplit, entryKey]

/-- Where names fold apart, no two entries have a key. -/
theorem entryKey_nodup (hok : collectEntries py inputDir.children = .ok entries)
    (hapart : FoldsApart py inputDir.children) : (entries.map (entryKey py)).Nodup := by
  have hcreatable := (walk_inOrder inputDir.distinct [] [] entries (imageDirOf_top py)
    hok).creatable
  apply List.Nodup.map_on _ (List.Nodup.of_map _ hcreatable.once)
  intro e he e' he' hkey
  obtain ⟨node, hvisible, hcollected, -⟩ := (hcreatable.mem_iff e).mp he
  obtain ⟨node', hvisible', hcollected', -⟩ := (hcreatable.mem_iff e').mp he'
  have hsource := hapart.path_unique hvisible hvisible' hcollected hcollected' hkey
  exact List.inj_on_of_nodup_map hcreatable.once he he' hsource

/-- A directory is made for the entry of a directory. -/
theorem entryNode_eq_dir {entry : ImageEntry} :
    entryNode host entry = .dir ↔ entry.isDir = true := by
  unfold entryNode
  split
  next h => exact iff_of_true rfl h
  next h => exact iff_of_false nofun h

/-- A file is made for the entry of a file, with its bytes. -/
theorem entryNode_eq_file {entry : ImageEntry} {bytes : List UInt8} :
    entryNode host entry = .file bytes ↔ entry.isDir = false ∧ host entry.source = bytes := by
  unfold entryNode
  split
  next h => simp [h]
  next h => simp [h]

/-- An entry finds its directory among those before it, and its own name free. -/
theorem ready_placed (hok : collectEntries py inputDir.children = .ok entries)
    (hapart : FoldsApart py inputDir.children) {image : PyStr} {before after : List ImageEntry}
    {entry : ImageEntry} (hsplit : entries = before ++ entry :: after) :
    Ready (Script.placed (entryKey py) (entryNode host) before) (command image entry) := by
  have hcreatable := (walk_inOrder inputDir.distinct [] [] entries (imageDirOf_top py)
    hok).creatable
  have hmem : entry ∈ entries := by simp [hsplit]
  have hkeys := entryKey_nodup hok hapart
  -- no two entries have the same key
  rw [hsplit, List.map_append, List.map_cons, List.nodup_append] at hkeys
  obtain ⟨hbefore, -, hfresh⟩ := hkeys
  rw [Ready, imageKey_command hok hmem]
  constructor
  · -- the parent stands before it in the walk, and so its directory is made
    obtain ⟨node, hvisible, -⟩ := (hcreatable.mem_iff entry).mp hmem
    rcases List.eq_nil_or_concat entry.source with hnil | ⟨parent, name, hsource⟩
    · exact absurd hnil hvisible.path_ne_nil
    rw [List.concat_eq_append] at hsource
    have hdrop : (entryKey py entry).dropLast = parent.map py.upper := by
      rw [entryKey, hsource, List.map_append, List.map_singleton, List.dropLast_concat]
    rw [hdrop]
    rcases eq_or_ne parent [] with rfl | hne
    · exact .inl rfl
    · obtain ⟨d, hd, hparent, hdir⟩ :=
        hcreatable.parents before entry after hsplit parent name hsource hne
      refine .inr ((Script.placed_eq_some_iff hbefore).mpr ⟨d, hd, ?_, entryNode_eq_dir.mpr hdir⟩)
      rw [entryKey, hparent]
  · -- the name is free: no entry before has this key
    refine Script.placed_eq_none fun e he heq => ?_
    exact hfresh _ (List.mem_map_of_mem he) _ List.mem_cons_self heq

end

section

variable {σ : Type} {py : StrCase} {tools : Toolbox σ} {host : HostPath → List UInt8}
  {contents : σ → ImageMap} {inputDir : HostDir} {entries : List ImageEntry} {image : PyStr}
  {blank : σ}

/-- After every part of the script the image holds the entries of that part. -/
theorem completed_placed (hlaw : Lawful tools host contents)
    (hok : collectEntries py inputDir.children = .ok entries)
    (hapart : FoldsApart py inputDir.children) (hblank : contents blank = fun _ => none)
    {before after : List ImageEntry} (hsplit : entries = before ++ after) {s : σ}
    (hdone : Script.completed tools.exec (populateImage image before) blank = some s) :
    contents s = Script.placed (entryKey py) (entryNode host) before := by
  -- by induction on the script: each command puts the node of its entry under its key
  rw [populateImage_eq, Script.completed_map] at hdone
  refine Script.completed_invariant
    (fun done s => contents s = Script.placed (entryKey py) (entryNode host) done)
    (fun before entry after s s' hsplit hs hexec => ?_) hblank hsplit hdone
  have hmem : entry ∈ entries := by simp [hsplit]
  have hready : Ready (contents s) (command image entry) := by
    rw [hs]
    exact ready_placed hok hapart hsplit
  have hkey : imageKey (command image entry).target = entryKey py entry :=
    imageKey_command hok hmem
  obtain ⟨hdir, hfree⟩ := hready
  rw [Script.placed_concat, ← hs, ← hkey]
  -- an `mmd` for a directory, an `mcopy` for a file
  cases hkind : entry.isDir with
  | true =>
    have hcommand : command image entry = .mmd image (mtoolsPath entry.imagePath) :=
      if_pos hkind
    rw [hcommand] at hexec hdir hfree ⊢
    rw [hlaw.mmd_made _ _ _ _ hexec hdir hfree, entryNode_eq_dir.mpr hkind]
    rfl
  | false =>
    have hcommand : command image entry =
        .mcopy image entry.source (mtoolsPath entry.imagePath) :=
      if_neg (by simp [hkind])
    rw [hcommand] at hexec hdir hfree ⊢
    have hnotDir : contents s (imageKey (mtoolsPath entry.imagePath)) ≠ some .dir := by
      intro h
      rw [show contents s (imageKey (mtoolsPath entry.imagePath)) = none from hfree] at h
      cases h
    rw [hlaw.mcopy_copied _ _ _ _ _ hexec hdir hnotDir, entryNode_eq_file.mpr ⟨hkind, rfl⟩]
    rfl

/-- A completed script leaves the input folder in the image. -/
theorem completed_mirrors (hlaw : Lawful tools host contents)
    (hok : collectEntries py inputDir.children = .ok entries)
    (hapart : FoldsApart py inputDir.children) (hblank : contents blank = fun _ => none) {s : σ}
    (hdone : Script.completed tools.exec (populateImage image entries) blank = some s) :
    Mirrors py host inputDir.children (contents s) := by
  have hcreatable := (walk_inOrder inputDir.distinct [] [] entries (imageDirOf_top py)
    hok).creatable
  have hkeys := entryKey_nodup hok hapart
  rw [completed_placed hlaw hok hapart hblank (List.append_nil entries).symm hdone]
  constructor
  · -- the keys that were filled are those of the entries, which are the visible nodes
    intro key
    rw [Script.placed_eq_some_iff hkeys]
    constructor
    · rintro ⟨e, he, hkey, hnode⟩
      obtain ⟨node, hvisible, -, hdir, -⟩ := (hcreatable.mem_iff e).mp he
      exact ⟨e.source, node, hvisible, hdir ▸ entryNode_eq_dir.mp hnode, hkey⟩
    · rintro ⟨path, node, hvisible, hdir, hkey⟩
      refine ⟨⟨path, slashJoined py path, node.isDir⟩, ?_, hkey, entryNode_eq_dir.mpr hdir⟩
      exact (hcreatable.mem_iff _).mpr ⟨node, hvisible, by rw [Node.collected, hdir]; rfl, rfl, rfl⟩
  · intro key bytes
    rw [Script.placed_eq_some_iff hkeys]
    constructor
    · rintro ⟨e, he, hkey, hnode⟩
      obtain ⟨node, hvisible, hcollected, hdir, -⟩ := (hcreatable.mem_iff e).mp he
      obtain ⟨hnotDir, hbytes⟩ := entryNode_eq_file.mp hnode
      refine ⟨e.source, node, hvisible, ?_, hkey, hbytes⟩
      rw [Node.collected, ← hdir, hnotDir, Bool.false_or] at hcollected
      exact hcollected
    · -- a file is no directory
      rintro ⟨path, node, hvisible, hfile, hkey, hbytes⟩
      have hnotDir : node.isDir = false := by
        cases node with
        | dir => cases hfile
        | file => rfl
        | other => rfl
      refine ⟨⟨path, slashJoined py path, node.isDir⟩, ?_, hkey,
        entryNode_eq_file.mpr ⟨hnotDir, hbytes⟩⟩
      refine (hcreatable.mem_iff _).mpr ⟨node, hvisible, ?_, rfl, rfl⟩
      rw [Node.collected, hfile, Bool.or_true]

/-! ### The plan and the image -/

/-- A file call either leaves what it says or raises. -/
theorem perform_file {call : FileCall} {file file' : OutFile σ} :
    tools.perform (.file call) file = some file' ↔
      tools.files call = true ∧ call.leaves file = file' := by
  show (if tools.files call then some (call.leaves file) else none) = some file' ↔ _
  split
  next h => simp [h]
  next h => simp [h]

/-- The commands of the script on an image. -/
theorem completed_commands (commands : List Command) (s : σ) :
    completed tools.perform (commands.map fun command => .tool (.populate command)) (.image s) =
      (completed tools.exec commands s).map .image := by
  induction commands generalizing s with
  | nil => rfl
  | cons command commands ih =>
    rw [List.map_cons, completed, completed, Toolbox.perform]
    cases tools.exec command s with
    | none => rfl
    | some s' => exact ih s'

/-- The calls of the file system that a build makes all go through. -/
structure FilesPass (tools : Toolbox σ) (args : CreateArgs) : Prop where
  mkdirParents : tools.files .mkdirParents = true
  unlink : args.outputExists = true → tools.files .unlink = true
  openOutput : tools.files .openOutput = true
  truncate : tools.files (.truncate (args.sizeKb.toNat * 1024)) = true

/-- The part of the plan that makes the image. -/
theorem completed_made {args : CreateArgs} {label : PyStr} {start file : OutFile σ} :
    completed tools.perform (makeActions args label) start = some file ↔
      FilesPass tools args ∧ ∃ blank,
        tools.mkfs (args.sizeKb.toNat * 1024) args.fatBits label args.clusterSectors =
          some blank ∧ .image blank = file := by
  -- the image file itself is made whatever was there
  unfold makeActions
  have hmkfs : completed tools.perform [.tool (.mkfsFat args.fatBits label args.clusterSectors)]
      (.zeros (args.sizeKb.toNat * 1024)) = some file ↔ ∃ blank,
        tools.mkfs (args.sizeKb.toNat * 1024) args.fatBits label args.clusterSectors =
          some blank ∧ .image blank = file := by
    rw [Script.completed_cons_eq_some]
    simp [completed, Toolbox.perform]
  -- an old image is removed first
  cases hexists : args.outputExists with
  | false =>
    simp only [Bool.false_eq_true, if_false, List.nil_append, Script.completed_cons_eq_some,
      perform_file, FileCall.leaves] at hmkfs ⊢
    constructor
    · rintro ⟨-, ⟨hdirs, rfl⟩, -, ⟨hopen, rfl⟩, -, ⟨htruncate, rfl⟩, hrest⟩
      exact ⟨⟨hdirs, fun h => absurd (hexists.symm.trans h) Bool.false_ne_true, hopen,
        htruncate⟩, hmkfs.mp hrest⟩
    · rintro ⟨hfiles, hblank⟩
      exact ⟨_, ⟨hfiles.mkdirParents, rfl⟩, _, ⟨hfiles.openOutput, rfl⟩, _,
        ⟨hfiles.truncate, rfl⟩, hmkfs.mpr hblank⟩
  | true =>
    simp only [if_true, List.nil_append, List.cons_append,
      Script.completed_cons_eq_some, perform_file, FileCall.leaves] at hmkfs ⊢
    constructor
    · rintro ⟨-, ⟨hdirs, rfl⟩, -, ⟨hunlink, rfl⟩, -, ⟨hopen, rfl⟩, -, ⟨htruncate, rfl⟩, hrest⟩
      exact ⟨⟨hdirs, fun _ => hunlink, hopen, htruncate⟩, hmkfs.mp hrest⟩
    · rintro ⟨hfiles, hblank⟩
      exact ⟨_, ⟨hfiles.mkdirParents, rfl⟩, _, ⟨hfiles.unlink hexists, rfl⟩, _,
        ⟨hfiles.openOutput, rfl⟩, _, ⟨hfiles.truncate, rfl⟩, hmkfs.mpr hblank⟩

/-- The listing at the end changes nothing. -/
theorem completed_listing {showListing : Bool} {s : σ} {file : OutFile σ} :
    completed tools.perform (if showListing then [.tool .mdir] else []) (.image s) = some file ↔
      (showListing = true → (tools.mdir s).isSome) ∧ .image s = file := by
  cases showListing with
  | false => simp [completed]
  | true =>
    rw [if_pos rfl, Script.completed_cons_eq_some]
    cases hlist : tools.mdir s with
    | none => simp [completed, Toolbox.perform, hlist]
    | some listing => simp [completed, Toolbox.perform, hlist]

/-- **A build that goes through.** It leaves the image that `mkfs.fat` makes and the commands of the
script fill. -/
theorem completed_plan {args : CreateArgs} {label : PyStr} {start file : OutFile σ} :
    completed tools.perform (plan args label entries) start = some file ↔
      FilesPass tools args ∧ ∃ blank s,
        tools.mkfs (args.sizeKb.toNat * 1024) args.fatBits label args.clusterSectors =
          some blank ∧
        completed tools.exec (populateImage args.output entries) blank = some s ∧
        (args.showListing = true → (tools.mdir s).isSome) ∧ .image s = file := by
  rw [plan, Script.completed_append, Option.bind_eq_some_iff]
  simp only [Script.completed_append, Option.bind_eq_some_iff, completed_made]
  constructor
  · -- the file is made, then filled, and then perhaps listed
    rintro ⟨-, ⟨hfiles, blank, hmkfs, rfl⟩, mid, hfilled, hlisted⟩
    rw [completed_commands] at hfilled
    obtain ⟨s, hdone, rfl⟩ := Option.map_eq_some_iff.mp hfilled
    exact ⟨hfiles, blank, s, hmkfs, hdone, completed_listing.mp hlisted⟩
  · rintro ⟨hfiles, blank, s, hmkfs, hdone, hlisted⟩
    refine ⟨_, ⟨hfiles, blank, hmkfs, rfl⟩, .image s, ?_, completed_listing.mpr hlisted⟩
    rw [completed_commands, hdone]
    rfl

/-- The tools do their part in a build: the calls of the file system go through, `mkfs.fat` makes an
image, every command of the script succeeds that finds its directory made and its name free (there
is room for it), and so does `mdir`. -/
structure Capable (tools : Toolbox σ) (contents : σ → ImageMap) (args : CreateArgs)
    (label : PyStr) (entries : List ImageEntry) : Prop where
  files : ∀ call, tools.files call = true
  mkfs : (tools.mkfs (args.sizeKb.toNat * 1024) args.fatBits label args.clusterSectors).isSome
  ready : ∀ command ∈ populateImage args.output entries, ∀ s,
    Ready (contents s) command → (tools.exec command s).isSome
  mdir : ∀ s, (tools.mdir s).isSome

/-- Every command of the script finds its directory made and its name free. -/
theorem ready_of_completed (hlaw : Lawful tools host contents)
    (hok : collectEntries py inputDir.children = .ok entries)
    (hapart : FoldsApart py inputDir.children) (hblank : contents blank = fun _ => none)
    {before after : List Command} {c : Command}
    (hsplit : populateImage image entries = before ++ c :: after) {s : σ}
    (hdone : completed tools.exec before blank = some s) : Ready (contents s) c := by
  -- the commands before and after are those of entries before and after
  obtain ⟨front, rest, hentries, rfl, hrest⟩ := List.map_eq_append_iff.mp hsplit
  obtain ⟨entry, back, rfl, rfl, -⟩ := List.map_eq_cons_iff.mp hrest
  rw [completed_placed hlaw hok hapart hblank hentries hdone]
  exact ready_placed hok hapart hentries

/-- With tools that can do it a build goes through. -/
theorem plan_completed_of_capable (hlaw : Lawful tools host contents)
    (hok : collectEntries py inputDir.children = .ok entries)
    (hapart : FoldsApart py inputDir.children) {args : CreateArgs} {label : PyStr}
    (hcapable : Capable tools contents args label entries) (start : OutFile σ) :
    ∃ file, completed tools.perform (plan args label entries) start = some file := by
  obtain ⟨blank, hmkfs⟩ := Option.isSome_iff_exists.mp hcapable.mkfs
  obtain ⟨s, hdone⟩ : ∃ s, completed tools.exec (populateImage args.output entries) blank =
      some s := by
    refine Script.completed_of_succeeds fun before c after s hsplit hdone => ?_
    refine hcapable.ready c (by simp [hsplit]) s ?_
    exact ready_of_completed hlaw hok hapart (hlaw.mkfs_empty _ _ _ _ _ hmkfs) hsplit hdone
  exact ⟨.image s, completed_plan.mpr ⟨⟨hcapable.files _, fun _ => hcapable.files _,
    hcapable.files _, hcapable.files _⟩, blank, s, hmkfs, hdone, fun _ => hcapable.mdir s, rfl⟩⟩

/-- The checks determine the label and the entries. -/
theorem Passes.unique {args : CreateArgs} {label label' : PyStr} {entries' : List ImageEntry}
    (h : Passes py tools args label entries) (h' : Passes py tools args label' entries') :
    label' = label ∧ entries' = entries := by
  have hlabel := h'.label.symm.trans h.label
  obtain ⟨dir, hdir, hentries⟩ := h.input
  obtain ⟨dir', hdir', hentries'⟩ := h'.input
  obtain rfl := Option.some.inj (hdir.symm.trans hdir')
  exact ⟨Except.ok.inj hlabel, Except.ok.inj (hentries'.symm.trans hentries)⟩

/-- Where every check passes and the whole plan goes through, the exit code is 0. -/
theorem buildMain_of_completed {args : ParsedArgs} {label : PyStr}
    (hpasses : Passes py tools args.create label entries) {file : OutFile σ}
    (hdone : completed tools.perform (plan args.create label entries) (args.create.start σ).state =
      some file) :
    buildMain py tools args = (.exit 0, ⟨file, plan args.create label entries⟩) := by
  have hbuild : createMsdosImg tools py args.create =
      buildImage tools args.create label entries := by
    -- the checks pass, so that the build is not refused
    rcases createMsdosImg_cases tools py args.create with ⟨hnot, -⟩ | ⟨_, _, hpasses', hbuild⟩
    · exact absurd ⟨label, entries, hpasses⟩ hnot
    · obtain ⟨rfl, rfl⟩ := hpasses.unique hpasses'
      exact hbuild
  have htakes : Takes tools.perform .action (buildImage tools args.create label entries)
      (plan args.create label entries) := takes_buildImage
  rw [buildMain, hbuild]
  rcases htakes (args.create.start σ) with ⟨s, hs, hrun⟩ |
    ⟨before, action, after, s, hsplit, hbefore, hfails, -⟩
  · rw [hrun]
    obtain rfl := Option.some.inj (hs.symm.trans hdone)
    rfl
  · -- an action that fails is one of a plan that does not go through
    rw [hsplit, Script.completed_append, hbefore, Option.bind_some, completed, hfails] at hdone
    cases hdone

/-- The exit code is 0 nowhere else. -/
theorem completed_of_exit_zero {args : ParsedArgs} (hexit : (buildMain py tools args).1 = .exit 0) :
    ∃ label entries, Passes py tools args.create label entries ∧
      ∃ file, completed tools.perform (plan args.create label entries)
        (args.create.start σ).state = some file := by
  unfold buildMain at hexit
  rcases createMsdosImg_cases tools py args.create with
    ⟨-, error, hcaught, hrefused⟩ | ⟨label, entries, hpasses, hbuild⟩
  · -- a refused build exits with 1 or raises
    rw [hrefused] at hexit
    change (if (error.exn tools).caught then MainEnd.exit 1 else .raised error) = .exit 0 at hexit
    rw [if_pos hcaught] at hexit
    cases hexit
  · rw [hbuild] at hexit
    rcases takes_buildImage (args.create.start σ) with ⟨s, hdone, -⟩ |
      ⟨before, action, after, s, hsplit, hdone, hfails, hrun⟩
    · exact ⟨label, entries, hpasses, s, hdone⟩
    · -- and so does one that failed on the way
      rw [hrun] at hexit
      dsimp only at hexit
      split at hexit
      next => cases hexit
      next => cases hexit

end

/-- What a command puts under its name. -/
def Command.makes (host : HostPath → List UInt8) : Command → ImageNode
  | .mmd _ _ => .dir
  | .mcopy _ source _ => .file (host source)

/-- Tools over an image in memory, in which every command needs its directory and a free name. -/
def memoryTools (host : HostPath → List UInt8) : Toolbox ImageMap where
  which _ := true
  mkfs _ _ _ _ := some fun _ => none
  exec command m :=
    if Ready m command then
      some (Function.update m (imageKey command.target) (some (command.makes host)))
    else none
  mdir _ := some []
  files _ := true
  raises _ := .calledProcessError

/-- A command of the sample tools that succeeds puts its node under its key. -/
theorem memoryTools_exec {host : HostPath → List UInt8} {c : Command} {m m' : ImageMap}
    (h : (memoryTools host).exec c m = some m') :
    m' = Function.update m (imageKey c.target) (some (c.makes host)) := by
  unfold memoryTools at h
  dsimp only at h
  split at h
  next => exact (Option.some.inj h).symm
  next => cases h

theorem memoryTools_lawful (host : HostPath → List UInt8) : Lawful (memoryTools host) host id where
  mkfs_empty _ _ _ _ _ h := (Option.some.inj h).symm
  mmd_made _ _ _ _ h _ _ := memoryTools_exec h
  mcopy_copied _ _ _ _ _ h _ _ := memoryTools_exec h

/-- The sample tools can do every build. -/
theorem memoryTools_capable (host : HostPath → List UInt8) (args : CreateArgs) (label : PyStr)
    (entries : List ImageEntry) : Capable (memoryTools host) id args label entries where
  files _ := rfl
  mkfs := rfl
  ready c _ m hready := by
    show (if Ready m c then some _ else none).isSome = true
    rw [if_pos (show Ready m c from hready)]
    rfl
  mdir _ := rfl

/-- A folder with a file, and a directory with another one. -/
def sampleFolder : HostDir where
  children := [.file (lit "io.sys"), .dir (lit "dos") [.file (lit "a.com")]]
  distinct := by
    refine .intro (by decide) fun name below hmem => ?_
    obtain ⟨rfl, rfl⟩ : name = lit "dos" ∧ below = [.file (lit "a.com")] := by simpa using hmem
    exact .intro (by decide) fun name below hmem => by simp at hmem

def sampleNames : List PyStr := [lit "io.sys", lit "dos", lit "a.com"]

/-- All names on the way to a child of the sample folder are among the three. -/
theorem visible_sampleFolder {path : HostPath} {node : Node}
    (h : Visible asciiCase sampleFolder.children path node) :
    node.name ∈ sampleNames ∧ ∀ name ∈ path, name ∈ sampleNames := by
  cases h with
  | child mem kept =>
    obtain rfl | rfl : node = .file (lit "io.sys") ∨ node = .dir (lit "dos") _ := by
      simpa [sampleFolder] using mem
    · simp [sampleNames]
    · simp [sampleNames]
  | deeper mem kept rest =>
    obtain ⟨rfl, rfl⟩ : _ = lit "dos" ∧ _ = [Node.file (lit "a.com")] := by
      simpa [sampleFolder] using mem
    obtain ⟨rfl, rfl⟩ := (visible_leaf rfl rfl).mp rest
    simp [sampleNames]

/-- No two names of the sample folder fold alike. -/
theorem sampleFolder_foldsApart : FoldsApart asciiCase sampleFolder.children := by
  intro directory name name' node node' hvisible hvisible' _ _ hfolded
  have hmem := (visible_sampleFolder hvisible).2 name (by simp)
  have hmem' := (visible_sampleFolder hvisible').2 name' (by simp)
  have hapart : ∀ n ∈ sampleNames, ∀ n' ∈ sampleNames,
      asciiCase.upper n = asciiCase.upper n' → n = n' := by decide
  exact hapart name hmem name' hmem' hfolded

/-- All names of the sample folder are accepted. -/
theorem sampleFolder_accepted : AllAccepted asciiCase sampleFolder.children := by
  intro path node hvisible
  have haccepted : ∀ n ∈ sampleNames,
      validateFat83 asciiCase n [] = .ok (asciiCase.upper n) := by decide
  exact (validateFat83_ok.mp (haccepted _ (visible_sampleFolder hvisible).1)).2

/-- A build of `sampleFolder` with the default parameters over an old image. -/
def sampleArgs : ParsedArgs where
  inputDir := some sampleFolder
  output := lit "io.img"
  outputExists := true
  sizeMb := none
  preset := .floppy1440
  fat := none
  clusterSectors := none
  label := lit "NIOAPPS"
  noList := false

/-- Each file holds the length of its path. -/
def sampleHost (path : HostPath) : List UInt8 := [UInt8.ofNat path.length]

/-- Every check passes for the sample folder. -/
theorem sampleArgs_passes : ∃ entries,
    Passes asciiCase (memoryTools sampleHost) sampleArgs.create (lit "NIOAPPS") entries := by
  obtain ⟨entries, hentries⟩ :=
    (walk_ok_iff asciiCase sampleFolder.children [] []).mpr sampleFolder_accepted
  refine ⟨entries, fun _ => rfl, by decide, .inl rfl, nofun, by decide, sampleFolder, rfl, ?_⟩
  exact hentries

end NioApps.Msdos
