import NioApps.Fnsvc.ListDirectory

/-!
# Fnsvc — the declared entries region of a page

A page declares a region `[10, 10 + entriesLen)` for its entries. The parser checks the region
against the response with a 16-bit sum, and each entry against the response, not the region.
`fnsvcListDirectory_region_iff` is the exact condition on the page under which it nevertheless
accepts only pages whose entries lie inside the declared region, and names the right error for
the others.
-/

namespace NioApps.Fnsvc

open BufProg

def pageCount (page : Nat → UInt8) : Nat := u16At page 6

/-- Where the region a page declares for its entries ends. -/
def regionEnd (page : Nat → UInt8) : Nat := 10 + u16At page 8

def entryStart (page : Nat → UInt8) (i : Nat) : Nat := entryPos page (isCompact (page 1)) 10 i

/-- The call has returned 0 with the given error. -/
def RefusedWith (out : PageState ⊕ ListResult) (error : FnsvcErr) : Prop :=
  retOf out = some false ∧ (worldOf out).lastError = error

/-- The number of callbacks made in a pass. -/
def callsMade (s : PageState) (out : PageState ⊕ ListResult) : Nat :=
  (calls (eventsOf out)).length - (calls s.events).length

/-- The page is parsed as its declared region says: accepted only if the region lies in the
response and the entries lie in the region; refused before any callback if the region leaves
the response; refused before the callback of an entry that leaves the region. -/
structure WellBounded (page : Nat → UInt8) (respLen : Nat) (s : PageState)
    (out : PageState ⊕ ListResult) : Prop where
  accepts : retOf out ≠ some false →
    regionEnd page ≤ respLen ∧ entryStart page (pageCount page) ≤ regionEnd page
  region : respLen < regionEnd page → RefusedWith out .entriesBounds ∧ callsMade s out = 0
  entry : regionEnd page ≤ respLen → ∀ i < pageCount page, regionEnd page < entryStart page (i + 1) →
    RefusedWith out .entryBounds ∧ callsMade s out ≤ i

/-- The declared length does not wrap the 16-bit sum, and an entry that is the first to leave
the declared region does not pass the parser's own checks together with those before it. -/
def RegionRespected (page : Nat → UInt8) (respLen : Nat) : Prop :=
  u16At page 8 < 65526 ∧
  (regionEnd page ≤ respLen → ∀ i < pageCount page,
    entryStart page i ≤ regionEnd page → regionEnd page < entryStart page (i + 1) →
    ¬ ∀ j ≤ i, EntryFits page (isCompact (page 1)) respLen (entryStart page j))

/-- A sequence that starts inside a limit and leaves it has a first step across it. -/
theorem exists_first_crossing {f : Nat → Nat} {limit i : Nat} (h0 : f 0 ≤ limit)
    (hi : limit < f (i + 1)) : ∃ j ≤ i, f j ≤ limit ∧ limit < f (j + 1) := by
  induction i with
  | zero => exact ⟨0, Nat.le_refl _, h0, hi⟩
  | succ i ih =>
    by_cases hcross : f (i + 1) ≤ limit
    · exact ⟨i + 1, Nat.le_refl _, hcross, hi⟩
    · obtain ⟨j, hj, hcross'⟩ := ih (by omega)
      exact ⟨j, by omega, hcross'⟩

/-! ## How a parsed page leaves the pass -/

/-- A page with an error is refused with this error. -/
theorem retOf_finishPage_error (s : PageState) (e : FnsvcErr) :
    RefusedWith (finishPage s (.error e)) e := ⟨rfl, rfl⟩

/-- A page that was parsed to its end is refused for nothing but MORE with no entries. -/
theorem refusedWith_finishPage_ok {s : PageState} {v : UInt8 × Nat} {e : FnsvcErr}
    (h : RefusedWith (finishPage s (.ok v)) e) : e = .shortResponse := by
  obtain ⟨flags, count⟩ := v
  obtain ⟨hret, herr⟩ := h
  -- of the three ways out only the progress guard returns 0
  unfold finishPage at hret herr
  dsimp only at hret herr
  by_cases hmore : flags &&& nioFileListRespMore = 0
  · rw [if_pos hmore] at hret
    simp [retOf] at hret
  rw [if_neg hmore] at hret herr
  by_cases hcount : count = 0
  · rw [if_pos hcount] at herr
    exact herr.symm
  · rw [if_neg hcount] at hret
    simp [retOf] at hret

/-- A page makes one call for each entry that it shows. -/
theorem callsMade_page {s s' : PageState} {page : Nat → UInt8} {respLen : Nat}
    {out : Outcome PageEvent PageValue} (hevents : s'.events = s.events)
    (hrun : PageRun page respLen out) (exit : Except FnsvcErr (UInt8 × Nat)) :
    callsMade s (finishPage (s'.observe respLen out) exit) = (pageArgs page respLen).length := by
  have hlen : (calls out.events).length = (pageArgs page respLen).length := by
    rw [← hrun.args, callArgs, List.length_map]
  simp only [callsMade, eventsOf_finishPage, PageState.observe, hevents, calls_append,
    List.length_append, hlen]
  omega

/-! ## The header -/

section Header

variable {page : Nat → UInt8} {respLen : Nat}

/-- A region that wraps the 16-bit sum always passes the header check. -/
theorem headerExit_wrapped (hver : page 0 = nioFileVersion) (hlen : 10 ≤ respLen)
    (hwrap : 65526 ≤ u16At page 8) : headerExit page respLen = .ok () := by
  have hlt := u16At_lt page 8
  have hsum : u16 (10 + u16At page 8) = 10 + u16At page 8 - 65536 :=
    u16_wrap (by omega) (by omega)
  have hpass : ¬ u16 (10 + u16At page 8) > respLen := by omega
  simp [headerExit, hver, hpass, show ¬ respLen < 10 from by omega]

/-- A region that does not wrap passes exactly when it lies in the response. -/
theorem headerExit_unwrapped (hver : page 0 = nioFileVersion) (hlen : 10 ≤ respLen)
    (hfit : u16At page 8 < 65526) :
    headerExit page respLen =
      if respLen < regionEnd page then .error .entriesBounds else .ok () := by
  have hsum : u16 (10 + u16At page 8) = regionEnd page := u16_of_lt (by omega)
  simp [headerExit, hver, hsum, show ¬ respLen < 10 from by omega]

end Header

/-- The number of entries the parser gets through. -/
def entriesParsed (page : Nat → UInt8) (respLen : Nat) : Nat :=
  (fitting page (isCompact (page 1)) respLen (pageCount page) 10).length

/-- An entry is parsed exactly where it is one of the count, and it and all before it fit. -/
theorem lt_entriesParsed_iff (page : Nat → UInt8) (respLen i : Nat) :
    i < entriesParsed page respLen ↔ i < pageCount page ∧
      ∀ j ≤ i, EntryFits page (isCompact (page 1)) respLen (entryStart page j) :=
  lt_fitting_length_iff page (isCompact (page 1)) respLen (pageCount page) 10 i

/-- After the header the page is accepted exactly where all its entries are parsed. -/
theorem pageExit_of_header {page : Nat → UInt8} {respLen : Nat}
    (h : headerExit page respLen = .ok ()) :
    pageExit page respLen =
      if entriesParsed page respLen = pageCount page then .ok (page 1, pageCount page)
      else .error .entryBounds := by
  rw [pageExit, h]
  rfl

theorem pageArgs_length_of_header {page : Nat → UInt8} {respLen : Nat}
    (h : headerExit page respLen = .ok ()) :
    (pageArgs page respLen).length = entriesParsed page respLen := by
  rw [pageArgs, h, entriesParsed, List.length_map]
  rfl

/-- A page that respects its region stops at or before the first entry that leaves it. -/
theorem entriesParsed_le {page : Nat → UInt8} {respLen i : Nat}
    (h : RegionRespected page respLen) (hregion : regionEnd page ≤ respLen)
    (hi : i < pageCount page) (hcross : regionEnd page < entryStart page (i + 1)) :
    entriesParsed page respLen ≤ i := by
  have hstart : entryStart page 0 ≤ regionEnd page := Nat.le_add_right 10 _
  obtain ⟨j, hj, hbefore, hafter⟩ := exists_first_crossing hstart hcross
  have hnot := h.2 hregion j (by omega) hbefore hafter
  have hle : ¬ j < entriesParsed page respLen :=
    fun hlt => hnot ((lt_entriesParsed_iff page respLen j).mp hlt).2
  omega

/-! ## The exact condition -/

section Page

variable {page : Nat → UInt8} {respLen : Nat} {s s' : PageState}
  {out : Outcome PageEvent PageValue}

/-- A page treated as the claim says has no entry past its region that fits the response: it would
have been delivered. -/
theorem regionRespected_of_wellBounded (hver : page 0 = nioFileVersion) (hlen : 10 ≤ respLen)
    (hmax : respLen ≤ fnsvcIoBufSize) (hevents : s'.events = s.events)
    (hrun : PageRun page respLen out)
    (h : WellBounded page respLen s
      (finishPage (s'.observe respLen out) (pageExit page respLen))) :
    RegionRespected page respLen := by
  have hmax' : respLen ≤ 512 := hmax
  have hunwrapped : u16At page 8 < 65526 := by
    -- a wrapped region is outside the response, but no exit of the page says so
    by_contra hwrap
    have hheader := headerExit_wrapped hver hlen (by omega)
    have hregion := (h.region (by unfold regionEnd; omega)).1
    rw [pageExit_of_header hheader] at hregion
    split at hregion
    · exact absurd (refusedWith_finishPage_ok hregion) (by decide)
    · have herr : FnsvcErr.entryBounds = FnsvcErr.entriesBounds := hregion.2
      exact absurd herr (by decide)
  refine ⟨hunwrapped, fun hregion i hi _ hcross hfits => ?_⟩
  have hheader : headerExit page respLen = .ok () := by
    rw [headerExit_unwrapped hver hlen hunwrapped, if_neg (by omega)]
  have hmade := (h.entry hregion i hi hcross).2
  rw [callsMade_page hevents hrun, pageArgs_length_of_header hheader] at hmade
  have hlt := (lt_entriesParsed_iff page respLen i).mpr ⟨hi, hfits⟩
  omega

/-- A page without such an entry is treated as the claim says: the check against the response then
stops at the same entry as one against the region. -/
theorem wellBounded_of_regionRespected (hver : page 0 = nioFileVersion) (hlen : 10 ≤ respLen)
    (hevents : s'.events = s.events) (hrun : PageRun page respLen out)
    (h : RegionRespected page respLen) :
    WellBounded page respLen s
      (finishPage (s'.observe respLen out) (pageExit page respLen)) := by
  have hheader := headerExit_unwrapped hver hlen h.1
  by_cases hregion : respLen < regionEnd page
  · -- the region leaves the response: refused in the header
    rw [if_pos hregion] at hheader
    have hexit : pageExit page respLen = .error .entriesBounds := by rw [pageExit, hheader]
    have hargs : pageArgs page respLen = [] := by rw [pageArgs, hheader]
    refine ⟨fun hpast => ?_, fun _ => ?_, fun hle => by omega⟩
    · exact absurd (by rw [hexit]; rfl) hpast
    · rw [callsMade_page hevents hrun, hargs, hexit]
      exact ⟨retOf_finishPage_error _ _, rfl⟩
  · rw [if_neg hregion] at hheader
    have hinside : regionEnd page ≤ respLen := by omega
    refine ⟨fun hpast => ⟨hinside, ?_⟩, fun hlt => by omega, fun _ i hi hcross => ?_⟩
    · -- accepted: all entries were parsed, so none left the region
      by_contra hout
      rw [pageExit_of_header hheader] at hpast
      split at hpast
      case isFalse => exact hpast rfl
      case isTrue hall =>
        obtain ⟨n, hn⟩ : ∃ n, pageCount page = n + 1 := by
          refine Nat.exists_eq_succ_of_ne_zero fun hzero => hout ?_
          rw [hzero]
          exact Nat.le_add_right 10 _
        rw [hn] at hout
        have hle := entriesParsed_le h hinside (by omega) (Nat.lt_of_not_le hout)
        omega
    · -- an entry leaves the region: the parser stopped there at the latest
      have hle := entriesParsed_le h hinside hi hcross
      have hexit : pageExit page respLen = .error .entryBounds := by
        rw [pageExit_of_header hheader, if_neg (by omega)]
      rw [callsMade_page hevents hrun, pageArgs_length_of_header hheader, hexit]
      exact ⟨retOf_finishPage_error _ _, hle⟩

end Page

/-- **When the page parser keeps to the declared region.** In any pass of any call, on an
answer with status OK, version 1 and at least 10 bytes, the page is handled as its declared
region says exactly when it respects its region. -/
theorem fnsvcListDirectory_region_iff {dev : Device} {uri : CStr} {s : PageState}
    {payload : List UInt8} (hfit : u16 uri.len ≤ listUriMax)
    (hname : s.world.listName.length = fnsvcListNameMax + 1)
    (hresp : dev.respond s.world.past (listRequest uri s.start) =
      .answered fnsvcStatusOk payload)
    (hver : listMem payload 0 = nioFileVersion) (hlen : 10 ≤ payload.length) :
    WellBounded (listMem payload) payload.length s (listStep dev uri s) ↔
      RegionRespected (listMem payload) payload.length := by
  obtain ⟨out, hrun, hstep⟩ := (listStep_page hfit hresp hname).2 rfl
  have hmax : payload.length ≤ fnsvcIoBufSize := dev.within_capacity _ _ _ _ hresp
  rw [hstep]
  exact ⟨regionRespected_of_wellBounded hver hlen hmax rfl hrun,
    wellBounded_of_regionRespected hver hlen rfl hrun⟩

/-- The equivalence at `compactPage`. -/
theorem fnsvcListDirectory_region_compactPage :
    WellBounded (listMem compactPage) 15 (listStart (World.initial 0))
        (listStep (Device.script fun _ => .answered 0 compactPage) CStr.empty
          (listStart (World.initial 0))) ↔
      RegionRespected (listMem compactPage) 15 :=
  fnsvcListDirectory_region_iff (by decide) (length_listName_initial 0) rfl rfl (by decide)

/-- An empty page that declares a region of 65526 bytes: `10 + 65526` is 0 as a `uint16_t`. -/
def wrappedPage : List UInt8 := [1, 0, 0, 0, 0, 0, 0, 0, 0xF6, 0xFF]

/-- The parser accepts `wrappedPage`, whose region does not lie in its ten bytes. -/
theorem fnsvcListDirectory_accepts_wrappedPage :
    ¬ WellBounded (listMem wrappedPage) 10 (listStart (World.initial 0))
        (listStep (Device.script fun _ => .answered 0 wrappedPage) CStr.empty
          (listStart (World.initial 0))) := by
  intro h
  have haccepted : retOf (listStep (Device.script fun _ => .answered 0 wrappedPage) CStr.empty
      (listStart (World.initial 0))) = some true := by decide +kernel
  have hregion := (h.accepts (by rw [haccepted]; decide)).1
  exact absurd hregion (by decide)

end NioApps.Fnsvc
