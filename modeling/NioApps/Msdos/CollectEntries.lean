import Mathlib.Data.List.Sort
import Mathlib.Data.Prod.Lex
import Mathlib.Data.List.Lex
import NioApps.Msdos.Fat83

/-!
# Msdos — `collect_entries`

The recursive walk of `create_msdos_img.py` over a host folder. The folder is a finite tree: what
`iterdir` gives in each directory, with `is_dir` and `is_file` decided by the kind of the node.
`walk` drops the ignored children, sorts the others, validates each name and appends an entry for
each directory, with the entries below it after it, and for each regular file.

* `walk`, `walkLoop`, `visit` — the walk, its loop and one turn of the loop.
* `Visible` — the nodes that are not ignored and have no ignored directory above them.
* `walk_ok_iff` — the walk returns exactly when every visible node has a name that is accepted.
-/

namespace NioApps.Msdos

/-! ## Names and paths -/

structure ImageEntry where
  source : HostPath
  imagePath : PyStr
  isDir : Bool
  deriving DecidableEq

def isIgnored (py : StrCase) (name : PyStr) : Bool :=
  (lit ".").isPrefixOf name || (lit ".inf").isSuffixOf (py.lower name) ||
    (lit "~").isSuffixOf name

def imageJoin (parent child : PyStr) : PyStr :=
  if parent ≠ [] then parent ++ lit "/" ++ child else child

/-! ## The host tree -/

/-- A node below the input folder; `other` is neither `is_dir` nor `is_file`. -/
inductive Node where
  | dir (name : PyStr) (children : List Node)
  | file (name : PyStr)
  | other (name : PyStr)

namespace Node

def name : Node → PyStr
  | .dir name _ => name
  | .file name => name
  | .other name => name

def isDir : Node → Bool
  | .dir _ _ => true
  | .file _ => false
  | .other _ => false

def isFile : Node → Bool
  | .dir _ _ => false
  | .file _ => true
  | .other _ => false

/-- A node that gets an entry. -/
def collected (node : Node) : Bool := node.isDir || node.isFile

@[simp] theorem name_dir (name : PyStr) (children : List Node) : (dir name children).name = name :=
  rfl

@[simp] theorem name_file (name : PyStr) : (file name).name = name := rfl

@[simp] theorem name_other (name : PyStr) : (other name).name = name := rfl

end Node

/-- Induction on the tree: a directory is reached from the one that holds it. -/
theorem Node.tree_induction {motive : List Node → Prop}
    (step : ∀ children, (∀ name below, Node.dir name below ∈ children → motive below) →
      motive children) (children : List Node) : motive children := by
  apply step
  intro name below hmem
  have hsmaller : sizeOf below < sizeOf children := by
    have hnode := List.sizeOf_lt_of_mem hmem
    rw [Node.dir.sizeOf_spec] at hnode
    omega
  exact tree_induction step below
termination_by sizeOf children

/-- A host directory has no two children of one name, at any level. -/
inductive DistinctNames : List Node → Prop where
  | intro {children : List Node} (names : (children.map Node.name).Nodup)
      (below : ∀ name below, Node.dir name below ∈ children → DistinctNames below) :
      DistinctNames children

/-- An input folder: its children, with distinct names in every directory. -/
structure HostDir where
  children : List Node
  distinct : DistinctNames children

/-! ## The walk -/

/-- `(not p.is_dir(), p.name.upper())`, compared as Python compares tuples. -/
def sortKey (py : StrCase) (p : Node) : Bool ×ₗ List Nat := toLex (!p.isDir, py.upper p.name)

def sortedChildren (py : StrCase) (children : List Node) : List Node :=
  (children.filter fun p => !isIgnored py p.name).insertionSort fun p q =>
    sortKey py p ≤ sortKey py q

/-- Sorting only leaves out what is ignored. -/
theorem mem_sortedChildren {py : StrCase} {children : List Node} {p : Node} :
    p ∈ sortedChildren py children ↔ p ∈ children ∧ isIgnored py p.name = false := by
  rw [sortedChildren, List.mem_insertionSort, List.mem_filter, Bool.not_eq_true']

/-- Sorting and dropping make no list longer, for the recursion of `walk`. -/
theorem sizeOf_sortedChildren_le (py : StrCase) (children : List Node) :
    sizeOf (sortedChildren py children) ≤ sizeOf children := by
  -- dropping, then sorting: only the first can make the list shorter
  have hfilter : ∀ l : List Node,
      sizeOf (l.filter fun p => !isIgnored py p.name) ≤ sizeOf l := by
    intro l
    induction l with
    | nil => exact Nat.le_refl _
    | cons p l ih =>
      rw [List.filter_cons]
      split
      next => rw [List.cons.sizeOf_spec, List.cons.sizeOf_spec]; omega
      next => rw [List.cons.sizeOf_spec]; omega
  have hperm : ∀ {l l' : List Node}, l.Perm l' → sizeOf l = sizeOf l' := by
    intro l l' h
    induction h with
    | nil => rfl
    | cons p _ ih => rw [List.cons.sizeOf_spec, List.cons.sizeOf_spec, ih]
    | swap p q l => simp only [List.cons.sizeOf_spec]; omega
    | trans _ _ ih ih' => exact ih.trans ih'
  rw [sortedChildren, hperm (List.perm_insertionSort _ _)]
  exact hfilter children

mutual

/-- `walk(host_dir, image_dir)`: the entries it appends. -/
def walk (py : StrCase) (hostDir : HostPath) (imageDir : PyStr) (children : List Node) :
    Except ValueError (List ImageEntry) :=
  walkLoop py hostDir imageDir (sortedChildren py children)
termination_by (sizeOf children, 2)
decreasing_by
  have hle := sizeOf_sortedChildren_le py children
  rcases Nat.lt_or_eq_of_le hle with hlt | heq
  · exact Prod.Lex.left _ _ hlt
  · rw [heq]
    exact Prod.Lex.right _ (by omega)

/-- `for child in children`. -/
def walkLoop (py : StrCase) (hostDir : HostPath) (imageDir : PyStr) :
    List Node → Except ValueError (List ImageEntry)
  | [] => .ok []
  | child :: children => do
    let appended ← visit py hostDir imageDir child
    let later ← walkLoop py hostDir imageDir children
    .ok (appended ++ later)
termination_by children => (sizeOf children, 1)

/-- One turn of the loop: the entries it appends for `child`. -/
def visit (py : StrCase) (hostDir : HostPath) (imageDir : PyStr) (child : Node) :
    Except ValueError (List ImageEntry) := do
  let source := hostDir ++ [child.name]
  let fatName ← validateFat83 py child.name source
  let childImagePath := imageJoin imageDir fatName
  match child with
  | .dir _ children =>
    let below ← walk py source childImagePath children
    .ok (⟨source, childImagePath, true⟩ :: below)
  | .file _ => .ok [⟨source, childImagePath, false⟩]
  | .other _ => .ok []
termination_by (sizeOf child, 0)

end

def collectEntries (py : StrCase) (inputDir : List Node) : Except ValueError (List ImageEntry) :=
  walk py [] [] inputDir

/-! ## The walk in equations -/

/-- A computation in two parts succeeds where both do. -/
theorem bind_ok {ε α β : Type} {x : Except ε α} {f : α → Except ε β} {r : β} :
    x >>= f = .ok r ↔ ∃ a, x = .ok a ∧ f a = .ok r := by
  cases x with
  | error e =>
    constructor
    · intro h
      cases h
    · rintro ⟨a, h, -⟩
      cases h
  | ok a =>
    constructor
    · exact fun h => ⟨a, rfl, h⟩
    · rintro ⟨b, h, hf⟩
      cases h
      exact hf

section

variable {py : StrCase} {hostDir : HostPath} {imageDir : PyStr} {entries : List ImageEntry}

theorem walkLoop_nil_ok : walkLoop py hostDir imageDir [] = .ok entries ↔ entries = [] := by
  rw [walkLoop, Except.ok.injEq, eq_comm]

/-- The entries of the first child come before those of the others. -/
theorem walkLoop_cons_ok {child : Node} {children : List Node} :
    walkLoop py hostDir imageDir (child :: children) = .ok entries ↔
      ∃ appended later, visit py hostDir imageDir child = .ok appended ∧
        walkLoop py hostDir imageDir children = .ok later ∧ entries = appended ++ later := by
  simp only [walkLoop, bind_ok, Except.ok.injEq, exists_and_left, eq_comm (a := entries)]

/-- A directory is accepted with all that is below it, and its entry comes first. -/
theorem visit_dir_ok {name : PyStr} {children : List Node} :
    visit py hostDir imageDir (.dir name children) = .ok entries ↔
      Accepted (py.upper name) ∧
        ∃ below, walk py (hostDir ++ [name]) (imageJoin imageDir (py.upper name)) children =
            .ok below ∧
          entries = ⟨hostDir ++ [name], imageJoin imageDir (py.upper name), true⟩ :: below := by
  simp only [visit, bind_ok, Except.ok.injEq, Node.name_dir, validateFat83_ok]
  constructor
  · rintro ⟨t, ⟨rfl, haccept⟩, below, hbelow, rfl⟩
    exact ⟨haccept, below, hbelow, rfl⟩
  · rintro ⟨haccept, below, hbelow, rfl⟩
    exact ⟨_, ⟨rfl, haccept⟩, below, hbelow, rfl⟩

/-- A file is accepted with its name, and is one entry. -/
theorem visit_file_ok {name : PyStr} :
    visit py hostDir imageDir (.file name) = .ok entries ↔
      Accepted (py.upper name) ∧
        entries = [⟨hostDir ++ [name], imageJoin imageDir (py.upper name), false⟩] := by
  simp only [visit, bind_ok, Except.ok.injEq, Node.name_file, validateFat83_ok]
  constructor
  · rintro ⟨t, ⟨rfl, haccept⟩, rfl⟩
    exact ⟨haccept, rfl⟩
  · rintro ⟨haccept, rfl⟩
    exact ⟨_, ⟨rfl, haccept⟩, rfl⟩

/-- Anything else needs an accepted name as well, and is no entry. -/
theorem visit_other_ok {name : PyStr} :
    visit py hostDir imageDir (.other name) = .ok entries ↔
      Accepted (py.upper name) ∧ entries = [] := by
  simp only [visit, bind_ok, Except.ok.injEq, Node.name_other, validateFat83_ok]
  constructor
  · rintro ⟨t, ⟨rfl, haccept⟩, rfl⟩
    exact ⟨haccept, rfl⟩
  · rintro ⟨haccept, rfl⟩
    exact ⟨_, ⟨rfl, haccept⟩, rfl⟩

end

/-! ## Which nodes are met -/

/-- The nodes that are not ignored and have no ignored directory above them, with their paths. -/
inductive Visible (py : StrCase) : List Node → HostPath → Node → Prop where
  | child {children : List Node} {node : Node} (mem : node ∈ children)
      (kept : isIgnored py node.name = false) : Visible py children [node.name] node
  | deeper {children below : List Node} {name : PyStr} {path : HostPath} {node : Node}
      (mem : Node.dir name below ∈ children) (kept : isIgnored py name = false)
      (rest : Visible py below path node) : Visible py children (name :: path) node

section

variable {py : StrCase} {children children' : List Node} {path : HostPath} {node : Node}

theorem Visible.mono (h : Visible py children path node)
    (hsub : ∀ p ∈ children, isIgnored py p.name = false → p ∈ children') :
    Visible py children' path node := by
  cases h with
  | child mem kept => exact .child (hsub _ mem kept) kept
  | deeper mem kept rest => exact .deeper (hsub _ mem kept) kept rest

/-- Sorting the children, and leaving out what is ignored, does not change what is visible. -/
theorem visible_sortedChildren :
    Visible py (sortedChildren py children) path node ↔ Visible py children path node := by
  constructor
  · intro h
    apply h.mono
    exact fun p hp _ => (mem_sortedChildren.mp hp).1
  · intro h
    apply h.mono
    exact fun p hp hkept => mem_sortedChildren.mpr ⟨hp, hkept⟩

theorem visible_nil : ¬ Visible py [] path node := by
  rintro (⟨hmem, -⟩ | ⟨hmem, -, -⟩)
  · cases hmem
  · cases hmem

/-- What is visible among the children of two lists. -/
theorem visible_append :
    Visible py (children ++ children') path node ↔
      Visible py children path node ∨ Visible py children' path node := by
  constructor
  · rintro (⟨hmem, hkept⟩ | ⟨hmem, hkept, rest⟩)
    · exact (List.mem_append.mp hmem).imp (.child · hkept) (.child · hkept)
    · exact (List.mem_append.mp hmem).imp (.deeper · hkept rest) (.deeper · hkept rest)
  · rintro (h | h)
    · exact h.mono fun p hp _ => List.mem_append_left _ hp
    · exact h.mono fun p hp _ => List.mem_append_right _ hp

/-- What is visible in a directory: itself, and what is visible below it. -/
theorem visible_dir {name : PyStr} (hkept : isIgnored py name = false) :
    Visible py [.dir name children] path node ↔
      path = [name] ∧ node = .dir name children ∨
        ∃ rest, path = name :: rest ∧ Visible py children rest node := by
  constructor
  · rintro (⟨hmem, -⟩ | ⟨hmem, -, rest⟩)
    · rw [List.mem_singleton.mp hmem]
      exact .inl ⟨rfl, rfl⟩
    · cases List.mem_singleton.mp hmem
      exact .inr ⟨_, rfl, rest⟩
  · rintro (⟨rfl, rfl⟩ | ⟨rest, rfl, hrest⟩)
    · exact .child (List.mem_singleton.mpr rfl) hkept
    · exact .deeper (List.mem_singleton.mpr rfl) hkept hrest

/-- A leaf shows only itself. -/
theorem visible_leaf {leaf : Node} (hdir : leaf.isDir = false)
    (hkept : isIgnored py leaf.name = false) :
    Visible py [leaf] path node ↔ path = [leaf.name] ∧ node = leaf := by
  constructor
  · rintro (⟨hmem, -⟩ | ⟨hmem, -, -⟩)
    · rw [List.mem_singleton.mp hmem]
      exact ⟨rfl, rfl⟩
    · rw [← List.mem_singleton.mp hmem] at hdir
      cases hdir
  · rintro ⟨rfl, rfl⟩
    exact .child (List.mem_singleton.mpr rfl) hkept

end

/-! ## When the walk returns -/

/-- Every visible node has a name that is accepted. -/
def AllAccepted (py : StrCase) (children : List Node) : Prop :=
  ∀ path node, Visible py children path node → Accepted (py.upper node.name)

theorem allAccepted_sortedChildren {py : StrCase} {children : List Node} :
    AllAccepted py (sortedChildren py children) ↔ AllAccepted py children := by
  unfold AllAccepted
  simp only [visible_sortedChildren]

/-- All names are accepted where those of the first child are, and those of the others. -/
theorem allAccepted_cons {py : StrCase} {child : Node} {children : List Node} :
    AllAccepted py (child :: children) ↔
      AllAccepted py [child] ∧ AllAccepted py children := by
  have hsplit : ∀ path node, Visible py (child :: children) path node ↔
      Visible py [child] path node ∨ Visible py children path node :=
    fun _ _ => by rw [← List.singleton_append, visible_append]
  unfold AllAccepted
  simp only [hsplit, or_imp, forall_and]

/-- One turn of the loop returns when the child and what is below it have accepted names. -/
theorem visit_ok_iff {py : StrCase} {hostDir : HostPath} {imageDir : PyStr} {child : Node}
    (hkept : isIgnored py child.name = false)
    (hbelow : ∀ name below, child = .dir name below → ∀ hostDir imageDir,
      (∃ entries, walk py hostDir imageDir below = .ok entries) ↔ AllAccepted py below) :
    (∃ entries, visit py hostDir imageDir child = .ok entries) ↔ AllAccepted py [child] := by
  cases child with
  | dir name below =>
    rw [Node.name_dir] at hkept
    simp only [visit_dir_ok, AllAccepted, visible_dir hkept]
    constructor
    · -- the name itself, and then the walk below it
      rintro ⟨_, haccept, entries, hwalk, -⟩ path node (⟨-, rfl⟩ | ⟨rest, -, hrest⟩)
      · exact haccept
      · exact (hbelow name below rfl _ _).mp ⟨entries, hwalk⟩ rest node hrest
    · intro hall
      have hrest : AllAccepted py below :=
        fun rest node h => hall (name :: rest) node (.inr ⟨rest, rfl, h⟩)
      obtain ⟨entries, hwalk⟩ := (hbelow name below rfl _ _).mpr hrest
      exact ⟨_, hall [name] _ (.inl ⟨rfl, rfl⟩), entries, hwalk, rfl⟩
  | file name =>
    simp only [visit_file_ok, AllAccepted, visible_leaf rfl hkept]
    constructor
    · -- a leaf has only its own name to be accepted
      rintro ⟨_, haccept, -⟩ path node ⟨-, rfl⟩
      exact haccept
    · exact fun hall => ⟨_, hall [name] _ ⟨rfl, rfl⟩, rfl⟩
  | other name =>
    simp only [visit_other_ok, AllAccepted, visible_leaf rfl hkept]
    constructor
    · rintro ⟨_, haccept, -⟩ path node ⟨-, rfl⟩
      exact haccept
    · exact fun hall => ⟨_, hall [name] _ ⟨rfl, rfl⟩, rfl⟩

/-- **When the walk returns.** Every name it meets is accepted. -/
theorem walk_ok_iff (py : StrCase) (children : List Node) :
    ∀ hostDir imageDir, (∃ entries, walk py hostDir imageDir children = .ok entries) ↔
      AllAccepted py children := by
  induction children using Node.tree_induction with
  | step children ih =>
    intro hostDir imageDir
    -- the loop, over any part of the children that are kept
    have hloop : ∀ nodes, (∀ p ∈ nodes, p ∈ sortedChildren py children) →
        ((∃ entries, walkLoop py hostDir imageDir nodes = .ok entries) ↔
          AllAccepted py nodes) := by
      intro nodes hnodes
      induction nodes with
      | nil =>
        simp only [walkLoop_nil_ok, exists_eq, true_iff]
        exact fun path node h => absurd h visible_nil
      | cons child nodes ihn =>
        obtain ⟨hmem, hkept⟩ := mem_sortedChildren.mp (hnodes child List.mem_cons_self)
        have hvisit : (∃ entries, visit py hostDir imageDir child = .ok entries) ↔
            AllAccepted py [child] :=
          visit_ok_iff hkept fun name below hdir => ih name below (hdir ▸ hmem)
        rw [allAccepted_cons, ← hvisit, ← ihn fun p hp => hnodes p (List.mem_cons_of_mem _ hp)]
        simp only [walkLoop_cons_ok]
        constructor
        · rintro ⟨_, appended, later, happended, hlater, -⟩
          exact ⟨⟨appended, happended⟩, ⟨later, hlater⟩⟩
        · rintro ⟨⟨appended, happended⟩, ⟨later, hlater⟩⟩
          exact ⟨_, appended, later, happended, hlater, rfl⟩
    simp only [walk]
    rw [← allAccepted_sortedChildren]
    exact hloop _ fun p hp => hp

end NioApps.Msdos
