import NioApps.Astest.Main

/-!
# Astest — the smoke test over an app store that works

Over a library whose calls do what they say, the run is decided by what is stored before it. The
test asks for both keys not to be there, and leaves one of them.

* `AppStoreLibrary` — a library over contents, whose calls do not fail.
* `Check.next`, `Check.Expected` — a call on contents; `Holds` — a sequence of calls that all hold.
* `astest_twice` — when the test passes, what it leaves, and that it does not pass a second time.
-/

namespace NioApps.Astest

open Fnctl (Contents StoreKey)

/-! ## The library -/

/-- No key of the namespace is too long for `key_name`. -/
def ShortNames (c : Contents) : Prop := ∀ name, c (storeKey name) ≠ none → name.length < 64

/-- A library over an app store. A write at the start of a value replaces it, and one at its end
appends; `page` are the keys of the first page of a listing. -/
structure AppStoreLibrary (h : FujinetNio) (σ : Type) extends Library σ where
  contents : σ → Contents
  page : Contents → List (List UInt8)
  init_ok : init = h.fnOk
  is_ready : ready = true
  write_ok : ∀ k off data s, data.length ≤ readMax →
    (off = 0 ∨ (contents s k).map List.length = some off.toNat) →
    (write k off data s).1 = ⟨h.fnOk, off, UInt16.ofNat data.length⟩ ∧
    contents (write k off data s).2 =
      Function.update (contents s) k (some (((contents s k).getD []).take off.toNat ++ data))
  stat_ok : ∀ k s, (stat k s).1.result = h.fnOk ∧
    ((stat k s).1.exist ≠ 0 ↔ (contents s k).isSome) ∧
    (∀ v, contents s k = some v → (stat k s).1.sizeBytes = UInt32.ofNat v.length) ∧
    contents (stat k s).2 = contents s
  read_ok : ∀ k s, (read k s).1.result = h.fnOk ∧
    (∀ v, contents s k = some v → v.length ≤ readMax →
      (read k s).1.flags &&& h.appstoreReadExists ≠ 0 ∧
      (read k s).1.bytesRead = UInt16.ofNat v.length ∧ (read k s).1.data = v) ∧
    contents (read k s).2 = contents s
  list_ok : ∀ s, ShortNames (contents s) → (list testNs s).1.result = h.fnOk ∧
    (list testNs s).1.keyCount.toNat = (page (contents s)).length ∧
    ∀ i, ∀ hi : i < (page (contents s)).length,
      ((list testNs s).1.key toLibrary i).result = h.fnOk ∧
      ((list testNs s).1.key toLibrary i).name = (page (contents s))[i]
  list_contents : ∀ s, contents (list testNs s).2 = contents s
  delete_ok : ∀ k s, (delete k s).1.result = h.fnOk ∧
    ((delete k s).1.deleted ≠ 0 ↔ (contents s k).isSome) ∧
    contents (delete k s).2 = Function.update (contents s) k none
  page_mem : ∀ c name, name ∈ page c → c (storeKey name) ≠ none

/-! ## A call on contents -/

def Check.next (c : Contents) : Check → Contents
  | .writes key offset value =>
    Function.update c (storeKey key)
      (some (((c (storeKey key)).getD []).take offset.toNat ++ value))
  | .deletes key _ => Function.update c (storeKey key) none
  | _ => c

/-- What a call finds as it asks for. -/
def Check.Expected (page : Contents → List (List UInt8)) (c : Contents) : Check → Prop
  | .writes _ _ _ => True
  | .stats key exist size => ((c (storeKey key)).isSome ↔ exist = true) ∧
    ∀ v, c (storeKey key) = some v → UInt32.ofNat v.length = size
  | .reads key expected => c (storeKey key) = some expected
  | .lists wanted => wanted ∈ page c
  | .lacks wanted => wanted ∉ page c
  | .deletes key expectDeleted => (c (storeKey key)).isSome ↔ expectDeleted = true

/-- The calls that the laws of the library speak of. -/
def Check.Allowed (c : Contents) : Check → Prop
  | .writes key offset value => value.length ≤ readMax ∧
    (offset = 0 ∨ (c (storeKey key)).map List.length = some offset.toNat)
  | .reads _ expected => 0 ∉ expected ∧ expected.length ≤ readMax
  | .lists _ => ShortNames c
  | .lacks _ => ShortNames c
  | _ => True

section Calls

variable {h : FujinetNio} {σ : Type} {S : AppStoreLibrary h σ}

/-- A call leaves the contents that it says. -/
theorem contents_ask (c : Check) (store : σ) (hallowed : c.Allowed (S.contents store)) :
    S.contents (c.ask S.toLibrary store).2 = c.next (S.contents store) := by
  cases c with
  | writes key offset value =>
    exact (S.write_ok (storeKey key) offset value store hallowed.1 hallowed.2).2
  | stats key exist size => exact (S.stat_ok (storeKey key) store).2.2.2
  | reads key expected => exact (S.read_ok (storeKey key) store).2.2
  | lists wanted => exact S.list_contents store
  | lacks wanted => exact S.list_contents store
  | deletes key expectDeleted => exact (S.delete_ok (storeKey key) store).2.2

/-- The first page shows the keys that are on it. -/
theorem shows_iff (store : σ) (hshort : ShortNames (S.contents store)) (wanted : List UInt8) :
    (S.list testNs store).1.Shows h S.toLibrary wanted ↔ wanted ∈ S.page (S.contents store) := by
  obtain ⟨hok, hcount, hkeys⟩ := S.list_ok store hshort
  refine ⟨?_, fun hmem => ⟨hok, ?_⟩⟩
  · rintro ⟨-, k, hk, hname, -⟩
    rw [hcount] at hk
    rw [← hname, (hkeys k hk).2]
    exact List.getElem_mem hk
  · obtain ⟨k, hk, hname⟩ := List.mem_iff_getElem.mp hmem
    refine ⟨k, hcount ▸ hk, (hkeys k hk).2.trans hname, fun j hj => (hkeys j ?_).1⟩
    omega

/-- A page that lacks the key does not show it: no name on it is cut, since all are short. -/
theorem hides_of_notMem {store : σ} (hshort : ShortNames (S.contents store)) {wanted : List UInt8}
    (hmem : wanted ∉ S.page (S.contents store)) :
    (S.list testNs store).1.Hides h S.toLibrary wanted := by
  obtain ⟨hok, hcount, hkeys⟩ := S.list_ok store hshort
  refine ⟨hok, fun k hk => ?_⟩
  rw [hcount] at hk
  refine ⟨(hkeys k hk).1, fun hname => hmem ?_⟩
  rw [← hname, (hkeys k hk).2]
  exact List.getElem_mem hk

/-- What may be asked of the store fits the buffers of the program. -/
theorem Check.Allowed.small {c : Check} {contents : Contents} (hallowed : c.Allowed contents) :
    c.Small := by
  cases c with
  | reads key expected => exact hallowed
  | _ => trivial

/-- **A call that finds what it asks for** holds. -/
theorem ask_holds {c : Check} {store : σ} (hallowed : c.Allowed (S.contents store))
    (hexpected : c.Expected S.page (S.contents store)) :
    (c.ask S.toLibrary store).1.verdict h S.toLibrary = .holds := by
  have hsmall : (c.ask S.toLibrary store).1.check.Small := by
    rw [check_ask]
    exact hallowed.small
  refine (verdict_eq_holds_iff hsmall).mpr ?_
  -- each kind of answer is what the store promises of this call
  cases c with
  | writes key offset value =>
    obtain ⟨hanswer, -⟩ := S.write_ok (storeKey key) offset value store hallowed.1 hallowed.2
    show (S.write _ _ _ _).1.result = _ ∧ (S.write _ _ _ _).1.offset = _ ∧
      (S.write _ _ _ _).1.bytesWritten = _
    rw [hanswer]
    exact ⟨rfl, rfl, rfl⟩
  | stats key exist size =>
    obtain ⟨hok, hexist, hsize, -⟩ := S.stat_ok (storeKey key) store
    refine ⟨hok, hexist.trans hexpected.1, fun hthere => ?_⟩
    obtain ⟨v, hv⟩ := Option.isSome_iff_exists.mp (hexpected.1.mpr hthere)
    exact (hsize v hv).trans (hexpected.2 v hv)
  | reads key expected =>
    obtain ⟨hok, hread, -⟩ := S.read_ok (storeKey key) store
    obtain ⟨hflags, hcount, hdata⟩ := hread expected hexpected hallowed.2
    refine ⟨hok, hflags, hcount, ?_⟩
    show (S.read _ _).1.data.take _ = _
    rw [hdata, List.take_length]
  | lists wanted => exact (shows_iff store hallowed wanted).mpr hexpected
  | lacks wanted => exact hides_of_notMem hallowed hexpected
  | deletes key expectDeleted =>
    obtain ⟨hok, hdeleted, -⟩ := S.delete_ok (storeKey key) store
    exact ⟨hok, hdeleted.trans hexpected⟩

/-- Calls that are all allowed and find what they ask for. -/
def Holds (page : Contents → List (List UInt8)) : List Check → Contents → Prop
  | [], _ => True
  | c :: cs, contents =>
    c.Allowed contents ∧ c.Expected page contents ∧ Holds page cs (c.next contents)

/-! ## A group on contents -/

theorem contents_step {c : Check} {s : TestState σ} (hallowed : c.Allowed (S.contents s.store)) :
    S.contents (step h S.toLibrary c s).2.store = c.next (S.contents s.store) := by
  rw [(step_spec c s).2.1, contents_ask c s.store hallowed]

/-- **A sequence of calls that all hold.** It reports nothing and leaves what the calls say. -/
theorem firstAccepted_holds {cs : List Check} {s : TestState σ}
    (hholds : Holds S.page cs (S.contents s.store)) :
    (Search.firstAccepted (step h S.toLibrary) cs s).1 = none ∧
    (Search.firstAccepted (step h S.toLibrary) cs s).2.failures = s.failures ∧
    S.contents (Search.firstAccepted (step h S.toLibrary) cs s).2.store =
      cs.foldl Check.next (S.contents s.store) := by
  induction cs generalizing s with
  | nil => exact ⟨rfl, rfl, rfl⟩
  | cons c cs ih =>
    obtain ⟨hallowed, hexpected, hrest⟩ := hholds
    obtain ⟨-, -, hended, hfailures⟩ := step_spec (h := h) (L := S.toLibrary) c s
    have hverdict := ask_holds hallowed hexpected
    -- a check that holds neither ends the group nor counts a failure
    have hgoes : ¬ (step h S.toLibrary c s).1 = true := by
      rw [hended]
      exact not_stops_of_holds hverdict
    have hnone : failed h S.toLibrary [(c.ask S.toLibrary s.store).1] = 0 := by
      simp [failed, hverdict, Verdict.isFailure]
    have hcontents := contents_step (S := S) hallowed
    rw [← hcontents] at hrest
    rw [Search.firstAccepted, if_neg hgoes, List.foldl_cons, ← hcontents]
    obtain ⟨hout, hcount, hstore⟩ := ih hrest
    exact ⟨hout, hcount.trans (by rw [hfailures, hnone, Nat.add_zero]), hstore⟩

/-- A group leaves the store as its checks up to the first that stops it do. -/
theorem store_runGroup (g : Group) (s : TestState σ) :
    (runGroup h S.toLibrary s g).store =
      (Search.firstAccepted (step h S.toLibrary) g.checks s).2.store := by
  rw [runGroup]
  obtain ⟨out, s'⟩ := Search.firstAccepted (step h S.toLibrary) g.checks s
  cases out with
  | none => rfl
  | some c =>
    cases g.otherwise with
    | none => rfl
    | some line => rfl

/-- A group whose checks hold counts no failure and makes all its changes. -/
theorem runGroup_holds {g : Group} {s : TestState σ}
    (hholds : Holds S.page g.checks (S.contents s.store)) :
    (runGroup h S.toLibrary s g).failures = s.failures ∧
    S.contents (runGroup h S.toLibrary s g).store =
      g.checks.foldl Check.next (S.contents s.store) := by
  obtain ⟨hout, hcount, hstore⟩ := firstAccepted_holds hholds
  refine ⟨?_, by rw [store_runGroup, hstore]⟩
  rw [(runGroup_eq g s).2, hout, hcount]
  simp

/-- **A deletion at the start.** It deletes in any case, and reports a failure where the key was
there. -/
theorem runGroup_clear (key : List UInt8) (s : TestState σ) :
    ((runGroup h S.toLibrary s (clearGroup key)).failures = s.failures ↔
      S.contents s.store (storeKey key) = none) ∧
    S.contents (runGroup h S.toLibrary s (clearGroup key)).store =
      Function.update (S.contents s.store) (storeKey key) none := by
  have hallowed : (Check.deletes key false).Allowed (S.contents s.store) := trivial
  have hafter : (Search.firstAccepted (step h S.toLibrary) (clearGroup key).checks s).2 =
      (step h S.toLibrary (.deletes key false) s).2 := by
    rw [clearGroup, Search.firstAccepted]
    split
    next => rfl
    next => rfl
  refine ⟨⟨fun hquiet => ?_, fun hgone => ?_⟩, ?_⟩
  · have hcount : (step h S.toLibrary (.deletes key false) s).2.failures = s.failures := by
      rw [← hquiet, (runGroup_eq _ s).2, hafter, clearGroup]
      simp
    rw [(step_spec _ s).2.2.2] at hcount
    -- the deletion did not fail, and it cannot refuse
    have hnone : failed h S.toLibrary
        [((Check.deletes key false).ask S.toLibrary s.store).1] = 0 := by omega
    have hholds : (Entry.deletes key false (S.delete (storeKey key) s.store).1).verdict h
        S.toLibrary = .holds := by
      cases hverdict : (Entry.deletes key false (S.delete (storeKey key) s.store).1).verdict h
        S.toLibrary with
      | holds => rfl
      | refuses =>
        rcases verdict_eq_refuses hverdict with ⟨_, _, heq⟩ | ⟨_, _, heq, -⟩
        · cases heq
        · cases heq
      | fails line =>
        exact absurd hverdict (notFailed_of_failed_eq_zero hnone (List.mem_singleton_self _) line)
    have hright : (Entry.deletes key false (S.delete (storeKey key) s.store).1).Right h
        S.toLibrary := by
      refine (verdict_eq_holds_iff ?_).mp hholds
      trivial
    obtain ⟨-, hdeleted⟩ := hright
    rw [(S.delete_ok (storeKey key) s.store).2.1] at hdeleted
    exact Option.not_isSome_iff_eq_none.mp fun hsome => Bool.false_ne_true (hdeleted.mp hsome)
  · have hexpected : (Check.deletes key false).Expected S.page (S.contents s.store) := by
      show (S.contents s.store (storeKey key)).isSome ↔ false = true
      rw [hgone]
      exact Iff.rfl
    have hholds : Holds S.page (clearGroup key).checks (S.contents s.store) :=
      ⟨hallowed, hexpected, trivial⟩
    exact (runGroup_holds hholds).1
  · rw [store_runGroup, hafter, contents_step hallowed]
    rfl

/-- The keys that a page shows are found, one listing after another. -/
theorem holds_lists {page : Contents → List (List UInt8)} {keys : List (List UInt8)} {c : Contents}
    (hshort : ShortNames c) (hall : ∀ key ∈ keys, key ∈ page c) :
    Holds page (keys.map .lists) c := by
  induction keys with
  | nil => trivial
  | cons key keys ih =>
    exact ⟨hshort, hall key List.mem_cons_self,
      ih fun key' hkey' => hall key' (List.mem_cons_of_mem key hkey')⟩

/-- If all of the listings find their key, the page shows all of the keys. -/
theorem mem_page_of_lists (keys : List (List UInt8)) {s : TestState σ}
    (hshort : ShortNames (S.contents s.store))
    (hout : (Search.firstAccepted (step h S.toLibrary) (keys.map .lists) s).1 = none) :
    ∀ key ∈ keys, key ∈ S.page (S.contents s.store) := by
  induction keys generalizing s with
  | nil => exact fun key hkey => absurd hkey List.not_mem_nil
  | cons key keys ih =>
    obtain ⟨hgoes, hrest⟩ := Search.firstAccepted_cons_eq_none_iff.mp hout
    have hallowed : (Check.lists key).Allowed (S.contents s.store) := hshort
    have hcontents : S.contents (step h S.toLibrary (.lists key) s).2.store = S.contents s.store :=
      contents_step hallowed
    -- a listing that fails would end the group
    have hholds : listHasKey h S.nextKey key (S.list testNs s.store).1 = .holds := by
      by_contra hnot
      have hstops := (step_spec (h := h) (L := S.toLibrary) (.lists key) s).2.2.1
      have hplain : (Entry.lists key (S.list testNs s.store).1).check.isLacks = false := rfl
      exact Bool.false_ne_true (hgoes.symm.trans (hstops.trans (stops_of_not_holds hplain hnot)))
    have hfirst : key ∈ S.page (S.contents s.store) :=
      (shows_iff s.store hshort key).mp ((listHasKey_iff key _).1.mp hholds)
    have hothers := ih (hcontents ▸ hshort) hrest
    rw [hcontents] at hothers
    exact List.forall_mem_cons.mpr ⟨hfirst, hothers⟩

/-- **The listings.** They change nothing, and a failure is reported unless the first page has both
keys. -/
theorem runGroup_list {s : TestState σ} (hshort : ShortNames (S.contents s.store)) :
    ((runGroup h S.toLibrary s listGroup).failures = s.failures ↔
      ∀ key ∈ [keyA, keyB], key ∈ S.page (S.contents s.store)) ∧
    S.contents (runGroup h S.toLibrary s listGroup).store = S.contents s.store := by
  -- a listing does not change the contents
  have hcontents :
      S.contents (Search.firstAccepted (step h S.toLibrary) listGroup.checks s).2.store =
        S.contents s.store := by
    refine Search.firstAccepted_preserves
      (fun s' : TestState σ => S.contents s'.store = S.contents s.store) ?_ rfl
    intro c hc s' hs'
    have hlists : ∀ key, S.contents (step h S.toLibrary (.lists key) s').2.store =
        S.contents s.store := by
      intro key
      have hallowed : (Check.lists key).Allowed (S.contents s'.store) := by
        rw [hs']
        exact hshort
      rw [contents_step hallowed]
      exact hs'
    rcases List.mem_pair.mp hc with rfl | rfl
    · exact hlists keyA
    · exact hlists keyB
  refine ⟨⟨fun hquiet => ?_, fun hall => ?_⟩, by rw [store_runGroup, hcontents]⟩
  · -- nothing in the group takes a failure back, so that a listing that ends it is counted
    have hle : s.failures ≤
        (Search.firstAccepted (step h S.toLibrary) listGroup.checks s).2.failures := by
      refine Search.firstAccepted_preserves (fun s' : TestState σ => s.failures ≤ s'.failures) ?_
        (Nat.le_refl _)
      intro c _ s' hs'
      rw [(step_spec c s').2.2.2]
      omega
    refine mem_page_of_lists [keyA, keyB] hshort ?_
    by_contra hsome
    rw [(runGroup_eq _ s).2, if_pos ⟨Option.ne_none_iff_isSome.mp hsome, rfl⟩] at hquiet
    exact absurd hquiet (Nat.ne_of_gt (Nat.lt_succ_of_le hle))
  · have hholds : Holds S.page listGroup.checks (S.contents s.store) := holds_lists hshort hall
    exact (runGroup_holds hholds).1

end Calls

/-! ## The run -/

/-- What is stored when the keys are listed. -/
def written (c : Contents) : Contents :=
  Function.update (Function.update c (storeKey keyA) (some valueA)) (storeKey keyB)
    (some (valueB1 ++ valueB2))

/-- What is stored at the end. -/
def leftBehind (c : Contents) : Contents :=
  Function.update (Function.update c (storeKey keyA) (some valueA)) (storeKey keyB) none

theorem storeKey_ne : storeKey keyA ≠ storeKey keyB := by decide

/-- A short key may be written or deleted. -/
theorem ShortNames.update {c : Contents} (hc : ShortNames c) {key : List UInt8}
    {v : Option (List UInt8)} (hkey : key.length < 64) :
    ShortNames (Function.update c (storeKey key) v) := by
  intro name hname
  by_cases heq : name = key
  · rw [heq]
    exact hkey
  · have hne : storeKey name ≠ storeKey key := fun h => heq (congrArg StoreKey.key h)
    rw [Function.update_of_ne hne] at hname
    exact hc name hname

/-- What the first four groups write, whatever stood under the two keys before. -/
theorem update_update_written (c : Contents) :
    Function.update (Function.update (Function.update (Function.update c (storeKey keyA) none)
      (storeKey keyB) none) (storeKey keyA) (some valueA)) (storeKey keyB)
      (some (valueB1 ++ valueB2)) = written c := by
  rw [written, Function.update_comm storeKey_ne.symm, Function.update_idem, Function.update_idem]

section Run

variable {h : FujinetNio} {σ : Type} {S : AppStoreLibrary h σ}

/-- What was just written is there. -/
theorem holds_written (page : Contents → List (List UInt8)) (c : Contents) (key : List UInt8)
    {value : List UInt8} (hvalue : 0 ∉ value ∧ value.length ≤ readMax) :
    Holds page [.stats key true (UInt32.ofNat value.length), .reads key value]
      (Function.update c (storeKey key) (some value)) := by
  have hthere : Function.update c (storeKey key) (some value) (storeKey key) = some value :=
    Function.update_self _ _ _
  refine ⟨trivial, ⟨?_, fun v hv => ?_⟩, hvalue, hthere, trivial⟩
  · rw [hthere]
    exact ⟨fun _ => rfl, fun _ => rfl⟩
  · rw [hthere] at hv
    rw [Option.some.inj hv]

/-- The group of `alpha` passes in every store and leaves the value there. -/
theorem runGroup_alpha (s : TestState σ) :
    (runGroup h S.toLibrary s alphaGroup).failures = s.failures ∧
    S.contents (runGroup h S.toLibrary s alphaGroup).store =
      Function.update (S.contents s.store) (storeKey keyA) (some valueA) := by
  have hsmall : valueA.length ≤ readMax := by decide
  have hholds : Holds S.page alphaGroup.checks (S.contents s.store) :=
    ⟨⟨hsmall, .inl rfl⟩, trivial, holds_written S.page _ keyA ⟨by decide, hsmall⟩⟩
  exact runGroup_holds hholds

/-- The second key is written in two parts. -/
theorem runGroup_beta (s : TestState σ) :
    (runGroup h S.toLibrary s betaGroup).failures = s.failures ∧
    S.contents (runGroup h S.toLibrary s betaGroup).store =
      Function.update (S.contents s.store) (storeKey keyB) (some (valueB1 ++ valueB2)) := by
  have hfirst : (Check.writes keyB 0 valueB1).next (S.contents s.store) =
      Function.update (S.contents s.store) (storeKey keyB) (some valueB1) := rfl
  have hsecond : (Check.writes keyB (UInt32.ofNat valueB1.length) valueB2).next
      (Function.update (S.contents s.store) (storeKey keyB) (some valueB1)) =
        Function.update (S.contents s.store) (storeKey keyB) (some (valueB1 ++ valueB2)) := by
    rw [Check.next, Function.update_self, Function.update_idem]
    rfl
  -- the second part is written where the first one ends
  have hholds : Holds S.page betaGroup.checks (S.contents s.store) := by
    refine ⟨⟨by decide, .inl rfl⟩, trivial, ?_⟩
    rw [hfirst]
    refine ⟨⟨by decide, .inr ?_⟩, trivial, ?_⟩
    · rw [Function.update_self]
      rfl
    · rw [hsecond, ← List.length_append]
      exact holds_written S.page _ keyB (by decide)
  obtain ⟨hfailures, hcontents⟩ := runGroup_holds hholds
  refine ⟨hfailures, hcontents.trans ?_⟩
  rw [betaGroup, List.foldl_cons, List.foldl_cons, hfirst, hsecond]
  rfl

/-- The last group passes where `beta` is there, and leaves it deleted. -/
theorem runGroup_delete {s : TestState σ} {v : List UInt8}
    (hthere : S.contents s.store (storeKey keyB) = some v)
    (hshort : ShortNames (S.contents s.store)) :
    (runGroup h S.toLibrary s deleteGroup).failures = s.failures ∧
    S.contents (runGroup h S.toLibrary s deleteGroup).store =
      Function.update (S.contents s.store) (storeKey keyB) none := by
  -- the key is there before the call and gone after it
  have hgone : Function.update (S.contents s.store) (storeKey keyB) none (storeKey keyB) = none :=
    Function.update_self _ _ _
  have hdeletes : (Check.deletes keyB true).Expected S.page (S.contents s.store) := by
    show (S.contents s.store (storeKey keyB)).isSome ↔ true = true
    rw [hthere]
    exact ⟨fun _ => rfl, fun _ => rfl⟩
  have hstats : (Check.stats keyB false 0).Expected S.page
      (Function.update (S.contents s.store) (storeKey keyB) none) := by
    rw [Check.Expected, hgone]
    exact ⟨⟨nofun, nofun⟩, nofun⟩
  have hlacks : (Check.lacks keyB).Expected S.page
      (Function.update (S.contents s.store) (storeKey keyB) none) :=
    fun hmem => S.page_mem _ keyB hmem hgone
  have hholds : Holds S.page deleteGroup.checks (S.contents s.store) :=
    ⟨trivial, hdeletes, trivial, hstats, hshort.update (by decide), hlacks, trivial⟩
  exact runGroup_holds hholds

/-- **The six groups.** Three of them can report a failure. -/
theorem foldl_groups {s : TestState σ} (hshort : ShortNames (S.contents s.store)) :
    ((groups.foldl (runGroup h S.toLibrary) s).failures = s.failures ↔
      S.contents s.store (storeKey keyA) = none ∧ S.contents s.store (storeKey keyB) = none ∧
      ∀ key ∈ [keyA, keyB], key ∈ S.page (written (S.contents s.store))) ∧
    S.contents (groups.foldl (runGroup h S.toLibrary) s).store =
      leftBehind (S.contents s.store) := by
  have hle := failures_le_runGroup (h := h) (L := S.toLibrary)
  rw [groups]
  simp only [List.foldl_cons, List.foldl_nil]
  obtain ⟨hfail₁, hstore₁⟩ := runGroup_clear (S := S) keyA s
  have hle₁ := hle (clearGroup keyA) s
  generalize runGroup h S.toLibrary s (clearGroup keyA) = s₁ at *
  obtain ⟨hfail₂, hstore₂⟩ := runGroup_clear (S := S) keyB s₁
  have hle₂ := hle (clearGroup keyB) s₁
  generalize runGroup h S.toLibrary s₁ (clearGroup keyB) = s₂ at *
  obtain ⟨hfail₃, hstore₃⟩ := runGroup_alpha (S := S) s₂
  generalize runGroup h S.toLibrary s₂ alphaGroup = s₃ at *
  obtain ⟨hfail₄, hstore₄⟩ := runGroup_beta (S := S) s₃
  generalize runGroup h S.toLibrary s₃ betaGroup = s₄ at *
  -- after four groups the two values are there, whatever was there before
  have hwritten : S.contents s₄.store = written (S.contents s.store) := by
    rw [hstore₄, hstore₃, hstore₂, hstore₁, update_update_written]
  have hshort₄ : ShortNames (S.contents s₄.store) := by
    rw [hwritten]
    exact (hshort.update (by decide)).update (by decide)
  obtain ⟨hfail₅, hstore₅⟩ := runGroup_list hshort₄
  have hle₅ := hle listGroup s₄
  generalize runGroup h S.toLibrary s₄ listGroup = s₅ at *
  -- the listing changes nothing, so that the last group finds its key
  have hthere : S.contents s₅.store (storeKey keyB) = some (valueB1 ++ valueB2) := by
    rw [hstore₅, hwritten]
    exact Function.update_self _ _ _
  obtain ⟨hfail₆, hstore₆⟩ := runGroup_delete hthere (hstore₅ ▸ hshort₄)
  rw [hwritten] at hfail₅
  -- clearing the first key does not touch the second
  have hsame : S.contents s₁.store (storeKey keyB) = S.contents s.store (storeKey keyB) := by
    rw [hstore₁, Function.update_of_ne storeKey_ne.symm]
  rw [hsame] at hfail₂
  refine ⟨?_, by rw [hstore₆, hstore₅, hwritten, written, Function.update_idem]; rfl⟩
  rw [← hfail₁, ← hfail₂, ← hfail₅]
  omega

/-- A run is its groups, one after another, and the exit code tells whether any failed. -/
theorem astest_eq (store : σ) :
    astest h S.toLibrary store =
      ⟨if (groups.foldl (runGroup h S.toLibrary) ⟨store, 0, [], []⟩).failures ≠ 0 then 1 else 0,
        groups.foldl (runGroup h S.toLibrary) ⟨store, 0, [], []⟩⟩ := by
  have hready : ¬ S.ready = false := by
    rw [S.is_ready]
    exact Bool.noConfusion
  rw [astest, if_neg (not_not.mpr S.init_ok), if_neg hready]

/-- When all passes, in terms of what the store held before. -/
theorem astest_exit_iff {store : σ} (hshort : ShortNames (S.contents store)) :
    (astest h S.toLibrary store).exit = 0 ↔
      S.contents store (storeKey keyA) = none ∧ S.contents store (storeKey keyB) = none ∧
      ∀ key ∈ [keyA, keyB], key ∈ S.page (written (S.contents store)) := by
  rw [astest_eq]
  refine Iff.trans ?_ (foldl_groups (s := ⟨store, 0, [], []⟩) hshort).1
  split
  next hne => exact ⟨nofun, fun heq => absurd heq hne⟩
  next heq => exact ⟨fun _ => Decidable.not_not.mp heq, fun _ => rfl⟩

/-- What a run leaves behind does not depend on whether it passes. -/
theorem contents_astest {store : σ} (hshort : ShortNames (S.contents store)) :
    S.contents (astest h S.toLibrary store).final.store = leftBehind (S.contents store) := by
  rw [astest_eq]
  exact (foldl_groups (s := ⟨store, 0, [], []⟩) hshort).2

end Run

/-- **Two runs.** Over an app store that works, with no key of the namespace too long, the test
passes exactly when neither key was there and the first page of a listing has both. It leaves the
first key, with its value, and changes nothing else; so a second run does not pass. -/
theorem astest_twice (h : FujinetNio) {σ : Type} (S : AppStoreLibrary h σ) (store : σ)
    (hshort : ShortNames (S.contents store)) :
    ((astest h S.toLibrary store).exit = 0 ↔
      S.contents store (storeKey keyA) = none ∧ S.contents store (storeKey keyB) = none ∧
      ∀ key ∈ [keyA, keyB], key ∈ S.page (written (S.contents store))) ∧
    S.contents (astest h S.toLibrary store).final.store = leftBehind (S.contents store) ∧
    (astest h S.toLibrary (astest h S.toLibrary store).final.store).exit = 1 := by
  refine ⟨astest_exit_iff hshort, contents_astest hshort, ?_⟩
  have hleft := contents_astest (S := S) hshort
  have hshort' : ShortNames (S.contents (astest h S.toLibrary store).final.store) := by
    rw [hleft]
    exact (hshort.update (by decide)).update (by decide)
  have hthere : S.contents (astest h S.toLibrary store).final.store (storeKey keyA) =
      some valueA := by
    rw [hleft, leftBehind, Function.update_of_ne storeKey_ne, Function.update_self]
  -- the key that is left is one that the next run asks not to be there
  have hexit : (astest h S.toLibrary (astest h S.toLibrary store).final.store).exit ≠ 0 := by
    intro hzero
    have hgone := ((astest_exit_iff hshort').mp hzero).1
    rw [hthere] at hgone
    cases hgone
  rw [astest_eq] at hexit ⊢
  split at hexit
  next hfailures => exact if_pos hfailures
  next => exact absurd rfl hexit

/-- The names of a page, each with a terminator. -/
def pageData (names : List (List UInt8)) : List UInt8 := names.flatMap (· ++ [0])

def pageAnswer (names : List (List UInt8)) : ListAnswer :=
  ⟨sampleHeader.fnOk, UInt16.ofNat names.length, UInt16.ofNat (pageData names).length,
    pageData names⟩

/-- A store in memory with nothing but the two keys in the namespace. -/
def memoryPage (c : Contents) : List (List UInt8) :=
  [keyA, keyB].filter fun name => (c (storeKey name)).isSome

def memoryCalls : Library Contents where
  init := sampleHeader.fnOk
  ready := true
  write k off data c :=
    (⟨sampleHeader.fnOk, off, UInt16.ofNat data.length⟩,
      Function.update c k (some (((c k).getD []).take off.toNat ++ data)))
  stat k c :=
    (⟨sampleHeader.fnOk, if (c k).isSome then 1 else 0, UInt32.ofNat ((c k).getD []).length⟩, c)
  read k c :=
    (⟨sampleHeader.fnOk, if (c k).isSome then sampleHeader.appstoreReadExists else 0,
      UInt16.ofNat ((c k).getD []).length, ((c k).getD []).take readMax,
      List.length_take_le _ _⟩, c)
  list _ c := (pageAnswer (memoryPage c), c)
  nextKey data _ off :=
    ⟨sampleHeader.fnOk, off + UInt16.ofNat (cstr (data.drop off.toNat)).length + 1,
      cstr (data.drop off.toNat)⟩
  delete k c := (⟨sampleHeader.fnOk, if (c k).isSome then 1 else 0⟩, Function.update c k none)

/-- The listing of the sample store is one of four pages. -/
theorem memoryPage_mem (c : Contents) :
    memoryPage c ∈ [[], [keyA], [keyB], [keyA, keyB]] := by
  rw [memoryPage, List.filter_cons, List.filter_cons, List.filter_nil]
  cases (c (storeKey keyA)).isSome with
  | false => cases (c (storeKey keyB)).isSome with | _ => decide
  | true => cases (c (storeKey keyB)).isSome with | _ => decide

/-- The keys of such a page are read back. -/
theorem key_pageAnswer : ∀ names ∈ [[], [keyA], [keyB], [keyA, keyB]],
    (pageAnswer names).keyCount.toNat = names.length ∧
    ∀ i : Fin names.length, ((pageAnswer names).key memoryCalls i).name = names.get i := by
  decide

def memoryLibrary : AppStoreLibrary sampleHeader Contents where
  toLibrary := memoryCalls
  contents c := c
  page := memoryPage
  init_ok := rfl
  is_ready := rfl
  write_ok _ _ _ _ _ _ := ⟨rfl, rfl⟩
  stat_ok k c := by
    refine ⟨rfl, ?_, fun v hv => ?_, rfl⟩
    · show (if (c k).isSome then (1 : UInt8) else 0) ≠ 0 ↔ _
      cases (c k).isSome with
      | false => decide
      | true => decide
    · show UInt32.ofNat ((c k).getD []).length = _
      rw [show c k = some v from hv]
      rfl
  read_ok k c := by
    refine ⟨rfl, fun v hv hlen => ?_, rfl⟩
    show (if (c k).isSome then sampleHeader.appstoreReadExists else 0) &&&
      sampleHeader.appstoreReadExists ≠ 0 ∧ UInt16.ofNat ((c k).getD []).length = _ ∧
        ((c k).getD []).take readMax = _
    rw [show c k = some v from hv]
    refine ⟨?_, rfl, List.take_of_length_le hlen⟩
    show sampleHeader.appstoreReadExists &&& sampleHeader.appstoreReadExists ≠ 0
    decide
  list_ok c _ := by
    obtain ⟨hcount, hkeys⟩ := key_pageAnswer _ (memoryPage_mem c)
    exact ⟨rfl, hcount, fun i hi => ⟨rfl, hkeys ⟨i, hi⟩⟩⟩
  list_contents _ := rfl
  delete_ok k c := by
    refine ⟨rfl, ?_, rfl⟩
    show (if (c k).isSome then (1 : UInt8) else 0) ≠ 0 ↔ _
    cases (c k).isSome with
    | false => decide
    | true => decide
  page_mem c name hmem := by
    rw [memoryPage, List.mem_filter] at hmem
    exact Option.isSome_iff_ne_none.mp hmem.2

theorem astest_twice_memoryLibrary :
    (astest sampleHeader memoryCalls fun _ => none).exit = 0 ∧
    (astest sampleHeader memoryCalls
      (astest sampleHeader memoryCalls fun _ => none).final.store).exit = 1 := by
  have hshort : ShortNames fun _ => none := fun name hname => absurd rfl hname
  obtain ⟨hpasses, -, hagain⟩ := astest_twice sampleHeader memoryLibrary (fun _ => none) hshort
  exact ⟨hpasses.mpr ⟨rfl, rfl, by decide⟩, hagain⟩

end NioApps.Astest
