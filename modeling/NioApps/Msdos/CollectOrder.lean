import NioApps.Msdos.CollectEntries
import Mathlib.Data.List.Infix

/-!
# Msdos — what `collect_entries` returns, and in which order

The entries of a walk that returns, against the host tree: which nodes they stand for, that no node
is met twice, and how directories, what is below them and their siblings follow each other. Every
clause is kept when two lists of siblings with different names are put after one another
(`InOrder.append`) and when a directory is put in front of its contents (`InOrder.dir`).

* `InOrder` — the clauses, for the children of the directory at `hostDir`.
* `walk_inOrder` — a walk that returns is in order.
* `collectEntries_creatable` — the whole function.
-/

namespace NioApps.Msdos

/-! ## Image paths -/

/-- The upper-cased names on a path, joined by slashes. -/
def slashJoined (py : StrCase) (path : HostPath) : PyStr :=
  (lit "/").intercalate (path.map py.upper)

theorem fatRun_ne_nil {hi : Nat} {s : PyStr} (h : FatRun 1 hi s) : s ≠ [] := by
  rintro rfl
  exact absurd h.1 (by decide)

/-- An accepted name is not empty. -/
theorem Accepted.ne_nil {upper : PyStr} (h : Accepted upper) : upper ≠ [] := by
  have hname : ∀ s, Fat83Name s → s ≠ [] := by
    rintro s (hrun | ⟨base, ext, -, -, rfl⟩)
    · exact fatRun_ne_nil hrun
    · simp
  rcases h with hvalid | ⟨name, -, rfl⟩
  · exact hname _ hvalid
  · simp

/-- `image_dir` during the walk of the directory at `hostDir`: empty at the top only. -/
structure ImageDirOf (py : StrCase) (hostDir : HostPath) (imageDir : PyStr) : Prop where
  joined : imageDir = slashJoined py hostDir
  top : imageDir = [] → hostDir = []

theorem imageDirOf_top (py : StrCase) : ImageDirOf py [] [] := ⟨rfl, fun _ => rfl⟩

/-- One more part comes after one more separator. -/
theorem intercalate_append_singleton {α : Type} (sep : List α) (parts : List (List α))
    (last : List α) (h : parts ≠ []) :
    sep.intercalate (parts ++ [last]) = sep.intercalate parts ++ sep ++ last := by
  induction parts with
  | nil => exact absurd rfl h
  | cons p parts ih =>
    cases parts with
    | nil => simp
    | cons q parts =>
      rw [List.cons_append, List.intercalate_cons_of_ne_nil (by simp),
        List.intercalate_cons_of_ne_nil (List.cons_ne_nil _ _), ih (List.cons_ne_nil _ _)]
      simp only [List.append_assoc]

/-- `image_join` goes one level down. -/
theorem ImageDirOf.join {py : StrCase} {hostDir : HostPath} {imageDir name : PyStr}
    (h : ImageDirOf py hostDir imageDir) (haccept : Accepted (py.upper name)) :
    ImageDirOf py (hostDir ++ [name]) (imageJoin imageDir (py.upper name)) := by
  unfold imageJoin
  split
  -- below the top the separator comes between
  next hne =>
    have hparts : hostDir.map py.upper ≠ [] := by
      intro hnil
      apply hne
      rw [h.joined, slashJoined, hnil]
      rfl
    refine ⟨?_, fun hnil => ?_⟩
    · rw [slashJoined, List.map_append, List.map_singleton,
        intercalate_append_singleton _ _ _ hparts, ← slashJoined, ← h.joined]
    · exact absurd (List.append_eq_nil_iff.mp hnil).2 haccept.ne_nil
  -- at the top there is no separator
  next hnil =>
    obtain rfl := h.top (Decidable.not_not.mp hnil)
    refine ⟨?_, fun hupper => absurd hupper haccept.ne_nil⟩
    simp [slashJoined, List.intercalate]

/-! ## The clauses -/

/-- The entry of a node, by its path from the input folder. -/
def entryOf (py : StrCase) (source : HostPath) (node : Node) : ImageEntry :=
  ⟨source, slashJoined py source, node.isDir⟩

/-- `e` stands before `e'`: it is not below it, and of two siblings a directory comes before a file
and two of a kind come by their upper-cased names. -/
structure Before (py : StrCase) (e e' : ImageEntry) : Prop where
  notBelow : ¬ e'.source <+: e.source
  siblings : ∀ parent name name', e.source = parent ++ [name] → e'.source = parent ++ [name'] →
    (e'.isDir = true → e.isDir = true) ∧ (e.isDir = e'.isDir → py.upper name ≤ py.upper name')

/-- The entries for the children of the directory at `hostDir`. -/
structure InOrder (py : StrCase) (hostDir : HostPath) (children : List Node)
    (entries : List ImageEntry) : Prop where
  mem_iff : ∀ e, e ∈ entries ↔ ∃ path node, Visible py children path node ∧
    node.collected = true ∧ e = entryOf py (hostDir ++ path) node
  before : entries.Pairwise (Before py)
  contiguous : ∀ path : HostPath,
    (entries.filter fun e => path.isPrefixOf e.source) <:+: entries

section

variable {py : StrCase} {hostDir : HostPath} {children children' : List Node}
  {entries entries' : List ImageEntry}

theorem InOrder.nil : InOrder py hostDir [] [] where
  mem_iff e := by
    constructor
    · intro h
      cases h
    · rintro ⟨path, node, h, -⟩
      exact absurd h visible_nil
  before := .nil
  contiguous path := List.infix_refl _

/-- Every entry is below a child that is kept. -/
theorem InOrder.child_of_mem (h : InOrder py hostDir children entries) {e : ImageEntry}
    (he : e ∈ entries) : ∃ child ∈ children, ∃ rest, e.source = hostDir ++ child.name :: rest ∧
      (rest = [] → e = entryOf py (hostDir ++ [child.name]) child) := by
  obtain ⟨path, node, hvisible, hcollected, rfl⟩ := (h.mem_iff e).mp he
  cases hvisible with
  | child mem kept => exact ⟨node, mem, [], rfl, fun _ => rfl⟩
  | @deeper _ below name path _ mem kept rest =>
    refine ⟨_, mem, path, rfl, fun hnil => ?_⟩
    subst hnil
    exact absurd rest (by rintro ⟨⟩)

theorem InOrder.prefix_of_mem (h : InOrder py hostDir children entries) {e : ImageEntry}
    (he : e ∈ entries) : hostDir <+: e.source ∧ hostDir.length < e.source.length := by
  obtain ⟨child, -, rest, hsource, -⟩ := h.child_of_mem he
  rw [hsource, List.length_append, List.length_cons]
  exact ⟨List.prefix_append _ _, by omega⟩

/-- Two paths that part at their last names part right below the directory they share. -/
theorem last_of_part {name name' : PyStr} {rest rest' parent : HostPath} {last last' : PyStr}
    (hne : name ≠ name') (h : hostDir ++ name :: rest = parent ++ [last])
    (h' : hostDir ++ name' :: rest' = parent ++ [last']) :
    rest = [] ∧ rest' = [] ∧ last = name ∧ last' = name' := by
  rcases List.eq_nil_or_concat rest with rfl | ⟨front, x, rfl⟩
  · obtain ⟨rfl, hlast⟩ := List.append_inj' h rfl
    rw [List.append_cancel_left_eq, List.cons.injEq] at h'
    exact ⟨rfl, h'.2, (List.cons.inj hlast).1.symm, h'.1.symm⟩
  · rw [List.concat_eq_append, ← List.cons_append, ← List.append_assoc] at h
    obtain ⟨rfl, -⟩ := List.append_inj' h rfl
    rw [List.append_assoc, List.append_cancel_left_eq, List.cons_append, List.cons.injEq] at h'
    exact absurd h'.1.symm hne

/-- Of two lists of siblings, the entries of the first stand before those of the second. -/
theorem before_of_siblings (h : InOrder py hostDir children entries)
    (h' : InOrder py hostDir children' entries')
    (hne : ∀ c ∈ children, ∀ c' ∈ children', c.name ≠ c'.name)
    (hle : ∀ c ∈ children, ∀ c' ∈ children', sortKey py c ≤ sortKey py c') {e e' : ImageEntry}
    (he : e ∈ entries) (he' : e' ∈ entries') : Before py e e' := by
  obtain ⟨c, hc, rest, hsource, hchild⟩ := h.child_of_mem he
  obtain ⟨c', hc', rest', hsource', hchild'⟩ := h'.child_of_mem he'
  have hname := hne c hc c' hc'
  -- neither is above the other: they part at the names of their children
  constructor
  · rw [hsource, hsource', List.prefix_append_right_inj, List.cons_prefix_cons]
    exact fun hprefix => hname hprefix.1.symm
  · -- siblings in the image are children here
    intro parent last last' hlast hlast'
    rw [hsource] at hlast
    rw [hsource'] at hlast'
    obtain ⟨rfl, rfl, rfl, rfl⟩ := last_of_part hname hlast hlast'
    rw [hchild rfl, hchild' rfl]
    have hkey := Prod.Lex.toLex_le_toLex.mp (hle c hc c' hc')
    simp only [entryOf]
    constructor
    · intro hdir
      rw [hdir] at hkey
      cases hcdir : c.isDir with
      | true => rfl
      | false =>
        rw [hcdir] at hkey
        rcases hkey with hlt | ⟨heq, -⟩
        · exact absurd hlt (not_lt_of_ge (Bool.false_le true))
        · cases heq
    · intro hdir
      -- of two kinds the key has already decided
      rcases hkey with hlt | ⟨-, hupper⟩
      · rw [hdir] at hlt
        exact absurd hlt (lt_irrefl _)
      · exact hupper

/-- Where no child has the name, there is no entry below it. -/
theorem filter_eq_nil_of_child {name : PyStr} {below : HostPath}
    (h : InOrder py hostDir children entries) (hne : ∀ c ∈ children, c.name ≠ name) :
    (entries.filter fun e => (hostDir ++ name :: below).isPrefixOf e.source) = [] := by
  rw [List.filter_eq_nil_iff]
  intro e he hprefix
  obtain ⟨c, hc, rest, hsource, -⟩ := h.child_of_mem he
  rw [List.isPrefixOf_iff_prefix, hsource, List.prefix_append_right_inj,
    List.cons_prefix_cons] at hprefix
  exact hne c hc hprefix.1.symm

theorem filter_eq_self_below (h : InOrder py hostDir children entries) {path : HostPath}
    (hpath : path <+: hostDir) :
    (entries.filter fun e => path.isPrefixOf e.source) = entries := by
  rw [List.filter_eq_self]
  intro e he
  exact List.isPrefixOf_iff_prefix.mpr (hpath.trans (h.prefix_of_mem he).1)

/-- A path that is above none of the entries of a directory and none of the directory itself. -/
theorem filter_eq_nil_of_apart (h : InOrder py hostDir children entries) {path : HostPath}
    (hpath : ¬ path <+: hostDir) (hbelow : ¬ hostDir <+: path) :
    (entries.filter fun e => path.isPrefixOf e.source) = [] := by
  rw [List.filter_eq_nil_iff]
  intro e he hprefix
  rcases List.prefix_or_prefix_of_prefix (List.isPrefixOf_iff_prefix.mp hprefix)
    (h.prefix_of_mem he).1 with hup | hdown
  · exact hpath hup
  · exact hbelow hdown

/-- **Siblings one after another.** -/
theorem InOrder.append (h : InOrder py hostDir children entries)
    (h' : InOrder py hostDir children' entries')
    (hne : ∀ c ∈ children, ∀ c' ∈ children', c.name ≠ c'.name)
    (hle : ∀ c ∈ children, ∀ c' ∈ children', sortKey py c ≤ sortKey py c') :
    InOrder py hostDir (children ++ children') (entries ++ entries') where
  mem_iff e := by
    simp only [List.mem_append, h.mem_iff, h'.mem_iff, visible_append, or_and_right, exists_or]
  before := by
    refine List.pairwise_append.mpr ⟨h.before, h'.before, fun e he e' he' => ?_⟩
    exact before_of_siblings h h' hne hle he he'
  contiguous path := by
    rw [List.filter_append]
    by_cases hpath : path <+: hostDir
    · rw [filter_eq_self_below h hpath, filter_eq_self_below h' hpath]
    by_cases hbelow : hostDir <+: path
    · -- below one child at most: the other list has nothing there
      obtain ⟨rest, rfl⟩ := hbelow
      cases rest with
      | nil => exact absurd (by rw [List.append_nil]) hpath
      | cons name rest =>
        -- the child is one of the first list
        by_cases hname : ∃ c ∈ children, c.name = name
        · obtain ⟨c, hc, rfl⟩ := hname
          rw [filter_eq_nil_of_child h' fun c' hc' => (hne c hc c' hc').symm, List.append_nil]
          exact (h.contiguous _).trans (List.prefix_append _ _).isInfix
        · -- or of the second, or of neither
          rw [filter_eq_nil_of_child h fun c hc hcname => hname ⟨c, hc, hcname⟩, List.nil_append]
          exact (h'.contiguous _).trans (List.suffix_append _ _).isInfix
    · rw [filter_eq_nil_of_apart h hpath hbelow, filter_eq_nil_of_apart h' hpath hbelow]
      exact List.nil_infix

/-- **A directory in front of its contents.** -/
theorem InOrder.dir {name : PyStr} (h : InOrder py (hostDir ++ [name]) children entries)
    (hkept : isIgnored py name = false) :
    InOrder py hostDir [.dir name children]
      (entryOf py (hostDir ++ [name]) (.dir name children) :: entries) where
  mem_iff e := by
    simp only [List.mem_cons, h.mem_iff, visible_dir hkept]
    constructor
    · rintro (rfl | ⟨path, node, hvisible, hcollected, rfl⟩)
      · exact ⟨[name], _, .inl ⟨rfl, rfl⟩, rfl, rfl⟩
      · refine ⟨name :: path, node, .inr ⟨path, rfl, hvisible⟩, hcollected, ?_⟩
        rw [List.append_assoc, List.singleton_append]
    · rintro ⟨_, node, ⟨rfl, rfl⟩ | ⟨path, rfl, hvisible⟩, hcollected, rfl⟩
      · exact .inl rfl
      · refine .inr ⟨path, node, hvisible, hcollected, ?_⟩
        rw [List.append_assoc, List.singleton_append]
  before := by
    refine List.pairwise_cons.mpr ⟨fun e he => ?_, h.before⟩
    have hlonger := (h.prefix_of_mem he).2
    constructor
    · -- an entry inside has a longer path than its directory
      intro hprefix
      exact absurd hprefix.length_le (Nat.not_le_of_lt hlonger)
    · intro parent last last' hlast hlast'
      rw [hlast', show hostDir ++ [name] = parent ++ [last] from hlast,
        List.length_append, List.length_append] at hlonger
      exact absurd hlonger (lt_irrefl _)
  contiguous path := by
    rw [List.filter_cons]
    split
    next hhead =>
      rw [filter_eq_self_below h (List.isPrefixOf_iff_prefix.mp hhead)]
    next =>
      exact (h.contiguous path).trans (List.suffix_cons _ _).isInfix

/-- A file is its own entry. -/
theorem InOrder.file {name : PyStr} (hkept : isIgnored py name = false) :
    InOrder py hostDir [.file name] [entryOf py (hostDir ++ [name]) (.file name)] where
  mem_iff e := by
    have hvisible : ∀ path node, Visible py [.file name] path node ↔
        path = [name] ∧ node = .file name := fun _ _ => visible_leaf rfl hkept
    simp only [List.mem_singleton, hvisible]
    constructor
    · rintro rfl
      exact ⟨_, _, ⟨rfl, rfl⟩, rfl, rfl⟩
    · rintro ⟨_, _, ⟨rfl, rfl⟩, -, rfl⟩
      rfl
  before := List.pairwise_singleton _ _
  contiguous path := by
    rw [List.filter_cons]
    split
    next => exact List.infix_refl _
    next => exact List.nil_infix

/-- What is neither directory nor file has no entry. -/
theorem InOrder.other {name : PyStr} (hkept : isIgnored py name = false) :
    InOrder py hostDir [.other name] [] where
  mem_iff e := by
    have hvisible : ∀ path node, Visible py [.other name] path node ↔
        path = [name] ∧ node = .other name := fun _ _ => visible_leaf rfl hkept
    simp only [hvisible]
    constructor
    · intro h
      cases h
    · rintro ⟨_, _, ⟨rfl, rfl⟩, hcollected, -⟩
      cases hcollected
  before := .nil
  contiguous path := List.infix_refl _

end

/-! ## The walk is in order -/

/-- The loop, once the walks of the directories it meets are known to be in order. -/
theorem walkLoop_inOrder {py : StrCase} {hostDir : HostPath} {imageDir : PyStr}
    (himage : ImageDirOf py hostDir imageDir) {nodes : List Node} {entries : List ImageEntry}
    (hkept : ∀ p ∈ nodes, isIgnored py p.name = false)
    (hnames : (nodes.map Node.name).Nodup)
    (hsorted : nodes.Pairwise fun p q => sortKey py p ≤ sortKey py q)
    (hbelow : ∀ name below, Node.dir name below ∈ nodes → ∀ hostDir imageDir entries,
      ImageDirOf py hostDir imageDir → walk py hostDir imageDir below = .ok entries →
      InOrder py hostDir below entries)
    (hok : walkLoop py hostDir imageDir nodes = .ok entries) :
    InOrder py hostDir nodes entries := by
  induction nodes generalizing entries with
  | nil =>
    rw [walkLoop_nil_ok.mp hok]
    exact .nil
  | cons child nodes ih =>
    obtain ⟨appended, later, hvisit, hlater, rfl⟩ := walkLoop_cons_ok.mp hok
    obtain ⟨hkeptChild, hkeptRest⟩ := List.forall_mem_cons.mp hkept
    obtain ⟨hfresh, hnames⟩ := List.nodup_cons.mp hnames
    obtain ⟨hfirst, hsorted⟩ := List.pairwise_cons.mp hsorted
    have hrest : InOrder py hostDir nodes later :=
      ih hkeptRest hnames hsorted
        (fun name below hmem => hbelow name below (List.mem_cons_of_mem _ hmem)) hlater
    -- the first child, one case for each kind of node
    have hchild : InOrder py hostDir [child] appended := by
      cases child with
      | dir name below =>
        obtain ⟨haccept, entries, hwalk, rfl⟩ := visit_dir_ok.mp hvisit
        have hjoin := himage.join haccept
        have hinside := hbelow name below List.mem_cons_self _ _ _ hjoin hwalk
        rw [hjoin.joined]
        exact hinside.dir hkeptChild
      | file name =>
        obtain ⟨haccept, rfl⟩ := visit_file_ok.mp hvisit
        rw [(himage.join haccept).joined]
        exact .file hkeptChild
      | other name =>
        obtain ⟨-, rfl⟩ := visit_other_ok.mp hvisit
        exact .other hkeptChild
    apply InOrder.append hchild hrest
    · intro c hc c' hc' heq
      rw [List.mem_singleton.mp hc] at heq
      exact hfresh (heq ▸ List.mem_map_of_mem hc')
    · intro c hc c' hc'
      rw [List.mem_singleton.mp hc]
      exact hfirst c' hc'

/-- Sorted children have different names if the children do. -/
theorem sortedChildren_nodup {py : StrCase} {children : List Node}
    (h : (children.map Node.name).Nodup) : ((sortedChildren py children).map Node.name).Nodup := by
  have hperm := (List.perm_insertionSort (fun p q => sortKey py p ≤ sortKey py q)
    (children.filter fun p => !isIgnored py p.name)).map Node.name
  rw [sortedChildren, hperm.nodup_iff]
  exact h.sublist (List.filter_sublist.map _)

/-- Sorted children stand in the order of their keys. -/
theorem sortedChildren_pairwise (py : StrCase) (children : List Node) :
    (sortedChildren py children).Pairwise fun p q => sortKey py p ≤ sortKey py q := by
  have : Std.Total fun p q : Node => sortKey py p ≤ sortKey py q :=
    ⟨fun p q => le_total (sortKey py p) (sortKey py q)⟩
  have : IsTrans Node fun p q => sortKey py p ≤ sortKey py q := ⟨fun _ _ _ => le_trans⟩
  exact List.pairwise_insertionSort _ _

/-- **A walk that returns is in order.** -/
theorem walk_inOrder {py : StrCase} {children : List Node} (hdistinct : DistinctNames children) :
    ∀ hostDir imageDir entries, ImageDirOf py hostDir imageDir →
      walk py hostDir imageDir children = .ok entries → InOrder py hostDir children entries := by
  induction hdistinct with
  | @intro children names _ ih =>
    intro hostDir imageDir entries himage hok
    rw [walk] at hok
    have hsorted : InOrder py hostDir (sortedChildren py children) entries := by
      apply walkLoop_inOrder himage (fun p hp => (mem_sortedChildren.mp hp).2)
        (sortedChildren_nodup names) (sortedChildren_pairwise py children) _ hok
      exact fun name below hmem => ih name below (mem_sortedChildren.mp hmem).1
    refine ⟨fun e => ?_, hsorted.before, hsorted.contiguous⟩
    simp only [hsorted.mem_iff, visible_sortedChildren]

/-! ## The whole function -/

/-- What is asked of the entries of an input folder. -/
structure Creatable (py : StrCase) (inputDir : List Node) (entries : List ImageEntry) : Prop where
  /-- no node twice -/
  once : (entries.map ImageEntry.source).Nodup
  /-- the visible directories and regular files, and nothing else -/
  mem_iff : ∀ e, e ∈ entries ↔ ∃ node, Visible py inputDir e.source node ∧
    node.collected = true ∧ e.isDir = node.isDir ∧ e.imagePath = slashJoined py e.source
  /-- each entry finds its parent made -/
  parents : ∀ before e after, entries = before ++ e :: after →
    ∀ parent name, e.source = parent ++ [name] → parent ≠ [] →
      ∃ d ∈ before, d.source = parent ∧ d.isDir = true
  /-- a directory comes before everything below it -/
  dirsFirst : entries.Pairwise fun e e' => ¬ e'.source <+: e.source
  /-- what is at or below a path stands together -/
  contiguous : ∀ path : HostPath,
    (entries.filter fun e => path.isPrefixOf e.source) <:+: entries
  /-- of siblings directories come first, and each kind by upper-cased name -/
  siblings : entries.Pairwise fun e e' => ∀ parent name name', e.source = parent ++ [name] →
    e'.source = parent ++ [name'] → (e'.isDir = true → e.isDir = true) ∧
      (e.isDir = e'.isDir → py.upper name ≤ py.upper name')

/-- The directory above a visible node is visible. -/
theorem Visible.parent {py : StrCase} {children : List Node} {source : HostPath} {node : Node}
    (h : Visible py children source node) :
    ∀ parent name, source = parent ++ [name] → parent ≠ [] →
      ∃ above, Visible py children parent above ∧ above.isDir = true := by
  -- the walk down to the node ends in the directory asked for, or goes on below it
  induction h with
  | child mem kept =>
    intro parent name hsource hparent
    cases parent with
    | nil => exact absurd rfl hparent
    | cons first parent => cases parent <;> simp at hsource
  | @deeper children below first path node mem kept rest ih =>
    intro parent name hsource hparent
    cases parent with
    | nil => exact absurd rfl hparent
    | cons first' parent =>
      obtain ⟨rfl, hpath⟩ := List.cons.inj hsource
      rcases eq_or_ne parent [] with rfl | hne
      · exact ⟨.dir first below, .child mem kept, rfl⟩
      · obtain ⟨above, hvisible, hdir⟩ := ih parent name hpath hne
        exact ⟨above, .deeper mem kept hvisible, hdir⟩

/-- Entries in the order of the walk can be created one after another: the parent of each comes
before it. -/
theorem InOrder.creatable {py : StrCase} {inputDir : List Node} {entries : List ImageEntry}
    (h : InOrder py [] inputDir entries) : Creatable py inputDir entries := by
  have hmem : ∀ e, e ∈ entries ↔ ∃ node, Visible py inputDir e.source node ∧
      node.collected = true ∧ e.isDir = node.isDir ∧ e.imagePath = slashJoined py e.source := by
    intro e
    rw [h.mem_iff]
    constructor
    · rintro ⟨path, node, hvisible, hcollected, rfl⟩
      exact ⟨node, hvisible, hcollected, rfl, rfl⟩
    · rintro ⟨node, hvisible, hcollected, hdir, hpath⟩
      refine ⟨e.source, node, hvisible, hcollected, ?_⟩
      rw [List.nil_append, entryOf, ← hdir, ← hpath]
  have hfirst : entries.Pairwise fun e e' => ¬ e'.source <+: e.source :=
    h.before.imp Before.notBelow
  refine ⟨?_, hmem, ?_, hfirst, h.contiguous, h.before.imp Before.siblings⟩
  · -- an entry twice would be below itself
    refine List.pairwise_map.mpr (hfirst.imp fun hnot heq => hnot ?_)
    exact heq ▸ List.prefix_refl _
  · -- the directory has an entry of its own, and that cannot stand after what is in it
    intro before e after hsplit parent name hsource hparent
    have he : e ∈ entries := by simp [hsplit]
    obtain ⟨node, hvisible, -⟩ := (hmem e).mp he
    obtain ⟨above, habove, hdir⟩ := hvisible.parent parent name hsource hparent
    have hd : (⟨parent, slashJoined py parent, true⟩ : ImageEntry) ∈ entries :=
      (hmem _).mpr ⟨above, habove, by rw [Node.collected, hdir]; rfl, hdir.symm, rfl⟩
    refine ⟨⟨parent, slashJoined py parent, true⟩, ?_, rfl, rfl⟩
    rw [hsplit, List.mem_append, List.mem_cons] at hd
    rcases hd with hbefore | heq | hafter
    · exact hbefore
    · rw [← heq] at hsource
      simp at hsource
    · -- the directory would come after what is in it
      rw [hsplit, List.pairwise_append, List.pairwise_cons] at hfirst
      refine absurd ?_ (hfirst.2.1.1 _ hafter)
      rw [hsource]
      exact List.prefix_append _ _

/-- **`collect_entries` is complete and creatable in order.** It raises exactly when some visible
node has a name that is refused, and what it returns is `Creatable`. -/
theorem collectEntries_creatable (py : StrCase) (inputDir : HostDir) :
    ((∃ error, collectEntries py inputDir.children = .error error) ↔
      ∃ path node, Visible py inputDir.children path node ∧
        ∃ error, validateFat83 py node.name path = .error error) ∧
    ∀ entries, collectEntries py inputDir.children = .ok entries →
      Creatable py inputDir.children entries := by
  constructor
  · have hok := walk_ok_iff py inputDir.children [] []
    have hraise : ∀ {α : Type} (x : Except ValueError α),
        (∃ error, x = .error error) ↔ ¬ ∃ a, x = .ok a := by
      intro α x
      cases x <;> simp
    have hname : ∀ name source,
        (∃ t, validateFat83 py name source = .ok t) ↔ Accepted (py.upper name) := by
      intro name source
      simp only [validateFat83_ok, exists_eq_left]
    simp only [hraise, collectEntries, hok, hname, AllAccepted, not_forall, exists_prop]
  · intro entries hok
    exact (walk_inOrder inputDir.distinct [] [] entries (imageDirOf_top py) hok).creatable

end NioApps.Msdos
