import Mathlib.Data.List.Induction
import NioApps.Msdos.CollectOrder

/-!
# Msdos — names that fold alike

`collect_entries` maps every name to its upper case, and two names of one host directory may have
the same upper case. `populate_image` then addresses two commands to one place of the image, and
`mcopy -o` overwrites without asking.

* `populateImage` — the `mmd` and `mcopy` commands that are run for the entries.
* `nothingLost_iff` — no place is addressed twice exactly when no visited directory has two
  collected children whose names fold alike.
-/

namespace NioApps.Msdos

/-! ## `populate_image` -/

def mtoolsPath (imagePath : PyStr) : PyStr := lit "::/" ++ imagePath

/-- `mmd -i image target`, and `mcopy -o -i image source target`. -/
inductive Command where
  | mmd (image target : PyStr)
  | mcopy (image : PyStr) (source : HostPath) (target : PyStr)
  deriving DecidableEq

def Command.target : Command → PyStr
  | .mmd _ target => target
  | .mcopy _ _ target => target

/-- The commands that are run, in order, as long as none fails. -/
def populateImage (image : PyStr) (entries : List ImageEntry) : List Command :=
  entries.map fun entry =>
    if entry.isDir then .mmd image (mtoolsPath entry.imagePath)
    else .mcopy image entry.source (mtoolsPath entry.imagePath)

/-! ## What is asked -/

/-- Every entry has a path of its own, and every command a place of its own. -/
structure NothingLost (image : PyStr) (entries : List ImageEntry) : Prop where
  distinct : (entries.map ImageEntry.imagePath).Nodup
  ownPlace : (populateImage image entries).Pairwise fun c c' => c.target ≠ c'.target

/-- No visited directory has two collected children, files or directories, of different names with
the same upper case. -/
def FoldsApart (py : StrCase) (inputDir : List Node) : Prop :=
  ∀ directory name name' node node', Visible py inputDir (directory ++ [name]) node →
    Visible py inputDir (directory ++ [name']) node' → node.collected = true →
    node'.collected = true → py.upper name = py.upper name' → name = name'

/-- The target of either command is the path of the entry in the image. -/
theorem target_populate (image : PyStr) (entry : ImageEntry) :
    (if entry.isDir then Command.mmd image (mtoolsPath entry.imagePath)
      else .mcopy image entry.source (mtoolsPath entry.imagePath)).target =
        mtoolsPath entry.imagePath := by
  split
  next => rfl
  next => rfl

/-- The places of the commands are the paths of the entries. -/
theorem nothingLost_iff_nodup {image : PyStr} {entries : List ImageEntry} :
    NothingLost image entries ↔ (entries.map ImageEntry.imagePath).Nodup := by
  constructor
  · -- places of their own need paths of their own
    exact NothingLost.distinct
  · -- mtools puts one and the same `::/` before every path
    intro hnodup
    refine ⟨hnodup, List.pairwise_map.mpr ?_⟩
    apply (List.pairwise_map.mp hnodup).imp
    intro e e' hne
    rw [target_populate, target_populate, mtoolsPath, mtoolsPath, Ne,
      List.append_cancel_left_eq]
    exact hne

/-! ## Paths back from their joined form -/

/-- An accepted name has no slash in it, so that a path is split into its names. -/
theorem slash_notMem_of_accepted {upper : PyStr} (h : Accepted upper) : 47 ∉ upper := by
  have hname : ∀ s, Fat83Name s → 47 ∉ s := by
    intro s hs hmem
    exact absurd (hs.clean 47 hmem) (by decide)
  rcases h with hvalid | ⟨name, hvalid, rfl⟩
  · exact hname _ hvalid
  · rw [List.mem_append]
    rintro (hmem | hmem)
    · exact hname _ hvalid hmem
    · exact absurd hmem (by decide)

/-- Accepted names are got back from their joined path. -/
theorem slashJoined_injective {py : StrCase} {path path' : HostPath}
    (h : ∀ name ∈ path, Accepted (py.upper name)) (h' : ∀ name ∈ path', Accepted (py.upper name))
    (hne : path ≠ []) (hne' : path' ≠ []) (heq : slashJoined py path = slashJoined py path') :
    path.map py.upper = path'.map py.upper := by
  have hsplit : ∀ path : HostPath, (∀ name ∈ path, Accepted (py.upper name)) → path ≠ [] →
      (slashJoined py path).splitOn 47 = path.map py.upper := by
    intro path hpath hne
    apply List.splitOn_intercalate
    · intro part hpart
      obtain ⟨name, hname, rfl⟩ := List.mem_map.mp hpart
      exact slash_notMem_of_accepted (hpath name hname)
    · exact fun hnil => hne (List.map_eq_nil_iff.mp hnil)
  rw [← hsplit path h hne, heq, hsplit path' h' hne']

/-- Every name on the way to a visible node is the name of a visible node. -/
theorem Visible.names_accepted {py : StrCase} {children : List Node} {path : HostPath}
    {node : Node} (h : Visible py children path node) (hall : AllAccepted py children) :
    ∀ name ∈ path, Accepted (py.upper name) := by
  induction h with
  | @child children node mem kept =>
    intro name hname
    rw [List.mem_singleton.mp hname]
    exact hall _ _ (.child mem kept)
  | @deeper children below first path node mem kept rest ih =>
    intro name hname
    rcases List.mem_cons.mp hname with rfl | hname
    · exact hall _ _ (.child mem kept)
    · exact ih (fun _ _ hvisible => hall _ _ (.deeper mem kept hvisible)) name hname

/-- Where names fold apart, a visible node is told by its folded path. -/
theorem FoldsApart.path_unique {py : StrCase} {inputDir : List Node}
    (h : FoldsApart py inputDir) {path path' : HostPath} {node node' : Node}
    (hvisible : Visible py inputDir path node) (hvisible' : Visible py inputDir path' node')
    (hcollected : node.collected = true) (hcollected' : node'.collected = true)
    (heq : path.map py.upper = path'.map py.upper) : path = path' := by
  -- induction from the end: the directories above agree, and so do the last names in them
  induction path using List.reverseRecOn generalizing path' node node' with
  | nil => exact (List.map_eq_nil_iff.mp heq.symm).symm
  | append_singleton directory name ih =>
    rcases List.eq_nil_or_concat path' with rfl | ⟨directory', name', rfl⟩
    · exact List.map_eq_nil_iff.mp heq
    rw [List.concat_eq_append] at heq hvisible' ⊢
    rw [List.map_append, List.map_append] at heq
    obtain ⟨hdirectory, hname⟩ := List.append_inj' heq rfl
    have hsame : directory = directory' := by
      rcases eq_or_ne directory [] with rfl | hne
      · exact (List.map_eq_nil_iff.mp hdirectory.symm).symm
      · have hne' : directory' ≠ [] := by
          rintro rfl
          exact hne (List.map_eq_nil_iff.mp hdirectory)
        obtain ⟨above, habove, hdir⟩ := hvisible.parent _ _ rfl hne
        obtain ⟨above', habove', hdir'⟩ := hvisible'.parent _ _ rfl hne'
        apply ih habove habove' _ _ hdirectory
        · rw [Node.collected, hdir, Bool.true_or]
        · rw [Node.collected, hdir', Bool.true_or]
    subst hsame
    rw [h directory name name' node node' hvisible hvisible' hcollected hcollected'
      (List.singleton_inj.mp hname)]

/-! ## When nothing is lost -/

/-- **When no host file is lost.** The entries have paths of their own, and so the commands places
of their own, exactly when no visited directory has two collected children whose names fold
alike. -/
theorem nothingLost_iff (py : StrCase) (image : PyStr) (inputDir : HostDir)
    (entries : List ImageEntry) (hok : collectEntries py inputDir.children = .ok entries) :
    NothingLost image entries ↔ FoldsApart py inputDir.children := by
  have horder := walk_inOrder inputDir.distinct [] [] entries (imageDirOf_top py) hok
  have hmem := horder.creatable.mem_iff
  have hall : AllAccepted py inputDir.children := (walk_ok_iff py _ [] []).mp ⟨entries, hok⟩
  rw [nothingLost_iff_nodup]
  constructor
  · -- two children that fold alike give two entries of one path, and so one and the same entry
    intro hnodup directory name name' node node' hvisible hvisible' hcollected hcollected' hupper
    have hentry : ∀ {source : HostPath} {node : Node},
        Visible py inputDir.children source node → node.collected = true →
          entryOf py source node ∈ entries :=
      fun hv hc => (hmem _).mpr ⟨_, hv, hc, rfl, rfl⟩
    have hsame := List.inj_on_of_nodup_map hnodup (hentry hvisible hcollected)
      (hentry hvisible' hcollected') (by simp [entryOf, slashJoined, hupper])
    have hsource : directory ++ [name] = directory ++ [name'] :=
      congrArg ImageEntry.source hsame
    exact List.singleton_inj.mp (List.append_cancel_left hsource)
  · -- two entries of one path come from one node, and each node has one entry
    intro hapart
    apply List.Nodup.map_on _ (List.Nodup.of_map _ horder.creatable.once)
    intro e he e' he' hpath
    obtain ⟨node, hvisible, hcollected, -, himage⟩ := (hmem e).mp he
    obtain ⟨node', hvisible', hcollected', -, himage'⟩ := (hmem e').mp he'
    have hne : ∀ {path : HostPath} {node : Node},
        Visible py inputDir.children path node → path ≠ [] := by
      rintro path node ⟨⟩
      · exact List.cons_ne_nil _ _
      · exact List.cons_ne_nil _ _
    rw [himage, himage'] at hpath
    have hfolded := slashJoined_injective (hvisible.names_accepted hall)
      (hvisible'.names_accepted hall) (hne hvisible) (hne hvisible') hpath
    have hsource := hapart.path_unique hvisible hvisible' hcollected hcollected' hfolded
    exact List.inj_on_of_nodup_map horder.creatable.once he he' hsource

/-- A folder with the files `a` and `A`. -/
def caseVariants : List Node := [.file (lit "a"), .file (lit "A")]

theorem caseVariants_distinct : DistinctNames caseVariants := by
  apply DistinctNames.intro
  · decide
  · intro name below hmem
    simp [caseVariants] at hmem

/-- Both entries of `caseVariants` have the image path `A`. -/
theorem collectEntries_caseVariants :
    collectEntries asciiCase caseVariants =
      .ok [⟨[lit "a"], lit "A", false⟩, ⟨[lit "A"], lit "A", false⟩] := by
  have hsorted : sortedChildren asciiCase caseVariants = caseVariants := by rfl
  have haccept : Accepted (lit "A") := .inl (.inl ⟨by decide, by decide, by decide⟩)
  rw [collectEntries, walk, hsorted]
  refine walkLoop_cons_ok.mpr ⟨[⟨[lit "a"], lit "A", false⟩], [⟨[lit "A"], lit "A", false⟩],
    visit_file_ok.mpr ⟨haccept, rfl⟩, ?_, rfl⟩
  exact walkLoop_cons_ok.mpr ⟨[⟨[lit "A"], lit "A", false⟩], [],
    visit_file_ok.mpr ⟨haccept, rfl⟩, walkLoop_nil_ok.mpr rfl, rfl⟩

/-- On `caseVariants` the walk returns, and its two entries have one image path. -/
theorem collectEntries_loses_a_file :
    ¬ ∀ (inputDir : HostDir) (entries : List ImageEntry),
      collectEntries asciiCase inputDir.children = .ok entries →
        NothingLost (lit "apps.img") entries := by
  intro hall
  have hlost := hall ⟨caseVariants, caseVariants_distinct⟩ _ collectEntries_caseVariants
  revert hlost
  rw [nothingLost_iff_nodup]
  decide

theorem nothingLost_iff_caseVariants :
    NothingLost (lit "apps.img") [⟨[lit "a"], lit "A", false⟩, ⟨[lit "A"], lit "A", false⟩] ↔
      FoldsApart asciiCase caseVariants :=
  nothingLost_iff asciiCase (lit "apps.img") ⟨caseVariants, caseVariants_distinct⟩ _
    collectEntries_caseVariants

end NioApps.Msdos
