import NioApps.Fnsvc.ListDirectory
import NioApps.Fnsvc.ListEncode

/-!
# Fnsvc — paged listing is exact

A conforming device cuts a directory into pages as it likes: any page sizes, any mix of the two
layouts, any answer to the same index asked for twice. `fnsvcListDirectory_exact_iff` says that
a listing hands `cb` every entry once and in order, exactly when the uri has at most 504 bytes.
Two more pass the length check, whose overhead of 6 bytes is 2 short of what the request holds
beside the uri.

* `ConformingDevice` — the device, its paging policy and what ties the two together.
* `Served` — the pages the policy makes of a directory, in the order they are asked for.
* `listed_from` — the listing from any index on: the induction over the remaining entries.
-/

namespace NioApps.Fnsvc

open BufProg

/-- A directory that `uint16_t` indices can address. -/
structure Directory where
  entries : List DirEntry
  length_le : entries.length ≤ 65535

def Directory.size (E : Directory) : Nat := E.entries.length

/-- `p` is a page for the entries of `E` from `start` on: a first part of them, not empty unless
there are none left, with MORE set exactly when more are left. -/
structure PageOf (E : Directory) (start : Nat) (p : ListPage) : Prop where
  entries : p.entries <+: E.entries.drop start
  some_entry : start < E.size → p.entries ≠ []
  more : p.flags &&& nioFileListRespMore ≠ 0 ↔ start + p.entries.length < E.size
  fits : p.encode.length ≤ fnsvcIoBufSize

/-- A device that lists the directory `E` under `uri`. Its policy decides the page for an index,
in view of all requests so far. -/
structure ConformingDevice (E : Directory) (uri : CStr) extends Device where
  page : List Request → Nat → ListPage
  page_of : ∀ past start, start ≤ E.size → PageOf E start (page past start)
  respond_page : ∀ past start, start ≤ E.size →
    respond past (listRequest uri start) = .answered fnsvcStatusOk (page past start).encode

variable {E : Directory} {uri : CStr}

/-- The pages a listing is served from index `start` on, after the requests `past`. -/
inductive Served (d : ConformingDevice E uri) : List Request → Nat → List ListPage → Prop where
  | last {past : List Request} {start : Nat}
      (h : start + (d.page past start).entries.length = E.size) :
      Served d past start [d.page past start]
  | more {past : List Request} {start : Nat} {pages : List ListPage}
      (h : start + (d.page past start).entries.length < E.size)
      (hrest : Served d (past ++ [listRequest uri start])
        (start + (d.page past start).entries.length) pages) :
      Served d past start (d.page past start :: pages)

/-- The indices the pages of a listing start at: the number of entries delivered before. -/
def pageStarts : Nat → List ListPage → List Nat
  | _, [] => []
  | start, p :: pages => start :: pageStarts (start + p.entries.length) pages

/-- A call has listed the directory exactly: it returned 1 without an error, and what it handed
`cb` are the entries of the directory, once and in order, each in the layout of its page. -/
structure ListedExactly (d : ConformingDevice E uri) (w : World) (r : ListResult) : Prop where
  ret : r.ret = true
  lastError : r.world.lastError = .none
  pages : ∃ pages, Served d w.past 0 pages ∧
    pages.flatMap ListPage.entries = E.entries ∧
    callArgs r.events = pages.flatMap ListPage.cbArgs ∧
    r.world.past = w.past ++ (pageStarts 0 pages).map (listRequest uri)

/-! ## One page -/

/-- The entries from `start` on are those of the page and those after it. -/
theorem PageOf.drop {start : Nat} {p : ListPage} (h : PageOf E start p) :
    p.entries ++ E.entries.drop (start + p.entries.length) = E.entries.drop start := by
  obtain ⟨rest, hrest⟩ := h.entries
  rw [← List.drop_drop, ← hrest, List.drop_left]

/-- A page does not go past the end of the directory. -/
theorem PageOf.next_le {start : Nat} {p : ListPage} (h : PageOf E start p)
    (hstart : start ≤ E.size) : start + p.entries.length ≤ E.size := by
  have hle := h.entries.length_le
  rw [List.length_drop] at hle
  unfold Directory.size at hstart ⊢
  omega

/-- **One pass of an exact listing.** The callbacks are those of the page, and the call returns
1 after the last page and goes on after any other. -/
theorem listStep_conforming (d : ConformingDevice E uri) (hfit : u16 uri.len ≤ listUriMax)
    {s : PageState} (hstart : s.start ≤ E.size)
    (hname : s.world.listName.length = fnsvcListNameMax + 1) :
    ∃ s' : PageState,
      s'.world.past = s.world.past ++ [listRequest uri s.start] ∧
      s'.world.lastError = s.world.lastError ∧
      s'.world.listName.length = fnsvcListNameMax + 1 ∧
      callArgs s'.events =
        callArgs s.events ++ (d.page s.world.past s.start).cbArgs ∧
      s'.start = s.start + (d.page s.world.past s.start).entries.length ∧
      listStep d.toDevice uri s =
        if s'.start < E.size then .inl s' else .inr ⟨true, s'.world, s'.events, s'.reads⟩ := by
  have hpage := d.page_of s.world.past s.start hstart
  have hresp := d.respond_page s.world.past s.start hstart
  generalize d.page s.world.past s.start = p at hpage hresp
  have hnext := hpage.next_le hstart
  have hbound : E.size ≤ 65535 := E.length_le
  obtain ⟨out, hrun, hstep⟩ := (listStep_page hfit hresp hname).2 rfl
  -- `start` stays at or below the size of the directory, so the cast is exact
  have hu16 : u16 (s.start + p.entries.length) = s.start + p.entries.length :=
    u16_of_lt (by omega)
  refine ⟨{ (s.exchanged uri fnsvcStatusOk p.encode).observe p.encode.length out with
    start := s.start + p.entries.length }, rfl, rfl, hrun.sound.listName_length, ?_, rfl, ?_⟩
  · show callArgs (s.events ++ out.events) = _
    rw [callArgs_append, hrun.args, pageArgs_encode p hpage.fits]
  · rw [hstep, pageExit_encode p hpage.fits]
    unfold finishPage
    dsimp only [PageState.observe, PageState.exchanged]
    rw [hu16]
    by_cases hmore : s.start + p.entries.length < E.size
    · -- entries are left: MORE is set, and the page has at least one
      have hcount : p.entries.length ≠ 0 := by
        have hne := hpage.some_entry (by omega)
        simpa using hne
      rw [if_neg (hpage.more.mpr hmore), if_neg hcount, if_pos hmore]
    · have hlast : p.flags &&& nioFileListRespMore = 0 := by
        by_contra hflag
        exact hmore (hpage.more.mp hflag)
      rw [if_pos hlast, if_neg hmore]

/-! ## The whole listing -/

/-- How a listing that has got to the state `s` ends: with `pages` served from there on. -/
structure ListedFrom (d : ConformingDevice E uri) (s : PageState) (pages : List ListPage)
    (r : ListResult) : Prop where
  ret : r.ret = true
  lastError : r.world.lastError = s.world.lastError
  served : Served d s.world.past s.start pages
  entries : pages.flatMap ListPage.entries = E.entries.drop s.start
  args : callArgs r.events = callArgs s.events ++ pages.flatMap ListPage.cbArgs
  past : r.world.past = s.world.past ++ (pageStarts s.start pages).map (listRequest uri)

/-- **The listing from any index on.** Induction on the number of entries left: the pages still
served make up exactly the entries still to come. -/
theorem listed_from (d : ConformingDevice E uri) (hfit : u16 uri.len ≤ listUriMax) (left : Nat)
    {s : PageState} (hleft : E.size - s.start < left) (hstart : s.start ≤ E.size)
    (hname : s.world.listName.length = fnsvcListNameMax + 1) :
    ∃ r pages, Loop.Returns (listStep d.toDevice uri) s r ∧ ListedFrom d s pages r := by
  induction left generalizing s with
  | zero => omega
  | succ left ih =>
    obtain ⟨s', hpast, herror, hname', hargs, hnext, hstep⟩ :=
      listStep_conforming d hfit hstart hname
    have hpage := d.page_of s.world.past s.start hstart
    have hle := hpage.next_le hstart
    have hsplit := hpage.drop
    by_cases hmore : s'.start < E.size
    · -- the page is followed by those of the listing from the next index on
      rw [if_pos hmore] at hstep
      -- a page that is followed by another has an entry, so that fewer are left
      have hcount : (d.page s.world.past s.start).entries.length ≠ 0 := by
        have hne := hpage.some_entry (by omega)
        simpa using hne
      obtain ⟨r, pages, hret, hrest⟩ := ih (by omega) (by omega) hname'
      refine ⟨r, _ :: pages, .of_step_inl hstep hret, hrest.ret, hrest.lastError.trans herror,
        .more (by omega) ?_, ?_, ?_, ?_⟩
      · rw [← hpast, ← hnext]
        exact hrest.served
      · rw [List.flatMap_cons, hrest.entries, hnext, hsplit]
      · rw [List.flatMap_cons, hrest.args, hargs, List.append_assoc]
      · rw [hrest.past, hpast, hnext, pageStarts, List.map_cons, List.append_assoc]
        rfl
    · -- the page is the last one
      rw [if_neg hmore] at hstep
      refine ⟨_, [_], .of_step hstep, rfl, herror, .last (by omega), ?_, ?_, ?_⟩
      · rw [← hsplit, List.drop_eq_nil_of_le (by unfold Directory.size at *; omega)]
        simp
      · simpa using hargs
      · simpa [pageStarts] using hpast

/-- A uri that fits is listed exactly: every pass delivers the entries of its page, and the last is
the one without MORE. -/
theorem listed_of_fits (d : ConformingDevice E uri) (hfit : u16 uri.len ≤ listUriMax) {w : World}
    (hname : w.listName.length = fnsvcListNameMax + 1) :
    ∃ k r, fnsvcListDirectory d.toDevice uri true k w = .inr r ∧ ListedExactly d w r := by
  obtain ⟨r, pages, ⟨k, hk⟩, h⟩ := listed_from d hfit (E.size + 1) (s := listStart w)
    (Nat.lt_succ_of_le (Nat.sub_le _ _)) (Nat.zero_le _) hname
  refine ⟨k, r, by rw [fnsvcListDirectory, if_pos rfl, hk], h.ret, h.lastError,
    pages, h.served, h.entries, ?_, h.past⟩
  rw [h.args]
  rfl

/-- A uri that passes the length check but does not fit the frame is not listed: the call
returns 0, whatever the device would have answered. -/
theorem not_listed_of_long (d : ConformingDevice E uri) (hlong : listUriMax < uri.len)
    (huri : uri.len ≤ 506) (w : World) :
    ¬ ∃ k r, fnsvcListDirectory d.toDevice uri true k w = .inr r ∧ ListedExactly d w r := by
  rintro ⟨k, r, hr, hlisted⟩
  have hlen : u16 uri.len = uri.len := u16_of_lt (by omega)
  have hchecked : u16 uri.len + fnsvcListRequestOverhead ≤ fnsvcIoBufSize := by
    simp only [hlen, fnsvcListRequestOverhead, fnsvcIoBufSize, fnctlMaxData]
    omega
  -- the first pass already leaves, with 0
  have hstep := listStep_unsent d.toDevice (listStart w) hchecked (by rwa [hlen])
  rw [fnsvcListDirectory, if_pos rfl] at hr
  cases Loop.Returns.unique ⟨k, hr⟩ (.of_step hstep)
  exact absurd hlisted.ret (by simp [PageState.fail])

/-- **When paged listing is exact.** For every directory, every uri of at most 506 bytes, every
conforming device and every state of the statics: exactly for the uris of at most 504 bytes. -/
theorem fnsvcListDirectory_exact_iff (d : ConformingDevice E uri) (huri : uri.len ≤ 506)
    (w : World) (hname : w.listName.length = fnsvcListNameMax + 1) :
    (∃ k r, fnsvcListDirectory d.toDevice uri true k w = .inr r ∧ ListedExactly d w r) ↔
      uri.len ≤ 504 := by
  constructor
  · intro h
    by_contra hlong
    exact not_listed_of_long d (Nat.lt_of_not_le hlong) huri w h
  · intro h
    exact listed_of_fits d (by rw [u16_of_lt (by omega)]; exact h) hname

/-! ## A device that pages by index -/

/-- The device that answers every listing request with the page for the index it carries. -/
def pagedDevice (E : Directory) (uri : CStr) (page : Nat → ListPage)
    (hpage : ∀ start, start ≤ E.size → PageOf E start (page start)) :
    ConformingDevice E uri where
  respond _ r := .answered fnsvcStatusOk ((page r.startIndex).encode.take r.capacity)
  within_capacity _ r _ _ h := by
    obtain ⟨-, rfl⟩ := Reply.answered.inj h
    exact List.length_take_le _ _
  page _ start := page start
  page_of _ start hstart := hpage start hstart
  respond_page _ start hstart := by
    have hbound : E.size ≤ 65535 := E.length_le
    rw [startIndex_listRequest uri (by omega)]
    exact congrArg _ (List.take_of_length_le (hpage start hstart).fits)

/-- A directory `a` and a file `b` of size `2 ^ 32 + 5`. -/
def twoEntries : Directory where
  entries := [⟨1, [0x61], 9, 7, by decide, by decide, by decide, by decide⟩,
    ⟨0, [0x62], 2 ^ 32 + 5, 7, by decide, by decide, by decide, by decide⟩]
  length_le := by decide

/-- One entry on each page: the first page compact and with MORE, the second in the full layout. -/
def twoEntriesPage (start : Nat) : ListPage :=
  if start = 0 then ⟨3, [0, 0, 0, 0], twoEntries.entries.take 1, [], rfl⟩
  else ⟨0, [0, 0, 0, 0], twoEntries.entries.drop start, [], rfl⟩

/-- The two pages of the sample directory are pages of it. -/
theorem pageOf_twoEntries (start : Nat) (h : start ≤ twoEntries.size) :
    PageOf twoEntries start (twoEntriesPage start) := by
  have hsize : twoEntries.size = 2 := rfl
  rcases (by omega : start = 0 ∨ start = 1 ∨ start = 2) with rfl | rfl | rfl
  · exact ⟨List.take_prefix _ _, fun _ => by simp [twoEntriesPage, twoEntries], by decide,
      by decide⟩
  · exact ⟨List.prefix_refl _, fun _ => by simp [twoEntriesPage, twoEntries], by decide,
      by decide⟩
  · exact ⟨List.prefix_refl _, fun hlt => by omega, by decide, by decide⟩

def twoPageDevice (uri : CStr) : ConformingDevice twoEntries uri :=
  pagedDevice twoEntries uri twoEntriesPage pageOf_twoEntries

/-- The two pages are listed under a uri of three letters. -/
theorem fnsvcListDirectory_exact_twoPages :
    ∃ k r, fnsvcListDirectory (twoPageDevice (letters 3)).toDevice (letters 3) true k
        (World.initial 0) = .inr r ∧
      ListedExactly (twoPageDevice (letters 3)) (World.initial 0) r :=
  (fnsvcListDirectory_exact_iff (twoPageDevice (letters 3)) (by decide) (World.initial 0)
    (length_listName_initial 0)).mpr (by decide)

/-- The same directory under a uri of 505 letters is not listed. -/
theorem fnsvcListDirectory_fails_505 :
    ¬ ∃ k r, fnsvcListDirectory (twoPageDevice (letters 505)).toDevice (letters 505) true k
        (World.initial 0) = .inr r ∧
      ListedExactly (twoPageDevice (letters 505)) (World.initial 0) r := by
  have hlen : (letters 505).len = 505 := List.length_replicate
  exact not_listed_of_long _ (by rw [hlen]; decide) (by rw [hlen]; decide) _

end NioApps.Fnsvc
