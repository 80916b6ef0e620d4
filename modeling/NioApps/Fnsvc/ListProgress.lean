import NioApps.Fnsvc.ListDirectory

/-!
# Fnsvc — the progress of the page loop

The page loop asks for the page at `start`, and its guard rejects MORE with no entries, so
every further page is asked for at a larger index, as long as the 16-bit sum `start + count`
does not wrap. `fnsvcListDirectory_terminates_iff` is the exact condition on the device: the
counts of its accepted MORE pages never add up to `2 ^ 16`.

* `GoesOn` — how far the device lets a listing go on, in exact integers.
* `Paging` — the invariant of the loop against a device that stays below `2 ^ 16`.
* `goesOn_reaches` — a loop whose start indices increase follows the exact cursor.
-/

namespace NioApps.Fnsvc

open BufProg

/-- **The exact cursor.** A listing of `uri` that began after the requests `past₀` is let go on
to entry `n`, having sent the requests `past`: every page so far was accepted, with MORE set
and at least one entry. The cursor is an exact integer. -/
inductive GoesOn (dev : Device) (uri : CStr) (past₀ : List Request) : List Request → Nat → Prop where
  | start : GoesOn dev uri past₀ past₀ 0
  | more {past : List Request} {n count : Nat} {flags : UInt8} {payload : List UInt8}
      (h : GoesOn dev uri past₀ past n)
      (hresp : dev.respond past (listRequest uri n) = .answered fnsvcStatusOk payload)
      (hexit : pageExit (listMem payload) payload.length = .ok (flags, count))
      (hmore : flags &&& nioFileListRespMore ≠ 0) (hcount : count ≠ 0) :
      GoesOn dev uri past₀ (past ++ [listRequest uri n]) (n + count)

/-- The exact cursor of a listing never gets past `uint16_t`. A uri whose frame is not sent has
no cursor. -/
def CursorFits (dev : Device) (uri : CStr) (past₀ : List Request) : Prop :=
  u16 uri.len ≤ listUriMax → ∀ past n, GoesOn dev uri past₀ past n → n < 65536

def sentIndices (w : World) (out : PageState ⊕ ListResult) : List Nat :=
  (sentSince w (worldOf out)).map Request.startIndex

/-- The call returns, and the start indices it sends are strictly increasing, however far it
has got. -/
def Progresses (dev : Device) (uri : CStr) (w : World) : Prop :=
  (∃ k r, fnsvcListDirectory dev uri true k w = .inr r) ∧
    ∀ k, (sentIndices w (fnsvcListDirectory dev uri true k w)).Pairwise (· < ·)

/-! ## What a pass sends and where it goes on -/

/-- The count of a page is a 16-bit field. -/
theorem pageExit_count_lt {m : Nat → UInt8} {respLen count : Nat} {flags : UInt8}
    (h : pageExit m respLen = .ok (flags, count)) : count < 65536 := by
  unfold pageExit at h
  split at h
  · cases h
  · split at h
    · obtain ⟨-, rfl⟩ : m 1 = flags ∧ u16At m 6 = count := by simpa using h
      exact u16At_lt m 6
    · cases h

/-- **A pass that goes round again.** The device answered the request for `start` with an
accepted MORE page, and `start` has moved by its count, with a 16-bit sum. -/
theorem listStep_inl {dev : Device} {uri : CStr} {s s' : PageState}
    (hname : s.world.listName.length = fnsvcListNameMax + 1)
    (h : listStep dev uri s = .inl s') :
    ∃ payload flags count,
      u16 uri.len ≤ listUriMax ∧
      dev.respond s.world.past (listRequest uri s.start) = .answered fnsvcStatusOk payload ∧
      pageExit (listMem payload) payload.length = .ok (flags, count) ∧
      flags &&& nioFileListRespMore ≠ 0 ∧ count ≠ 0 ∧
      s'.start = u16 (s.start + count) ∧
      s'.world.past = s.world.past ++ [listRequest uri s.start] ∧
      s'.world.listName.length = fnsvcListNameMax + 1 := by
  have hrun := listStep_run dev uri hname
  rw [h] at hrun
  generalize hout : (Sum.inl s' : PageState ⊕ ListResult) = out at hrun
  -- of all the ways through a pass only an accepted page goes on
  cases hrun with
  | tooLarge => cases hout
  | unsent => cases hout
  | failed => cases hout
  | refused => cases hout
  | @page payload out hfit hresp hpage =>
    obtain ⟨flags, count, hexit, hmore, hcount, rfl⟩ := finishPage_inl hout.symm
    exact ⟨payload, flags, count, hfit, hresp, hexit, hmore, hcount, rfl, rfl,
      hpage.sound.listName_length⟩

/-- A page with MORE and entries leads to the next pass, which starts after them modulo 2^16. -/
theorem listStep_more {dev : Device} {uri : CStr} {s : PageState} {payload : List UInt8}
    {flags : UInt8} {count : Nat} (hname : s.world.listName.length = fnsvcListNameMax + 1)
    (hfit : u16 uri.len ≤ listUriMax)
    (hresp : dev.respond s.world.past (listRequest uri s.start) =
      .answered fnsvcStatusOk payload)
    (hexit : pageExit (listMem payload) payload.length = .ok (flags, count))
    (hmore : flags &&& nioFileListRespMore ≠ 0) (hcount : count ≠ 0) :
    ∃ s', listStep dev uri s = .inl s' ∧ s'.start = u16 (s.start + count) ∧
      s'.world.past = s.world.past ++ [listRequest uri s.start] ∧
      s'.world.listName.length = fnsvcListNameMax + 1 := by
  obtain ⟨out, hpage, hstep⟩ := (listStep_page hfit hresp hname).2 rfl
  rw [hexit] at hstep
  unfold finishPage at hstep
  dsimp only at hstep
  rw [if_neg hmore, if_neg hcount] at hstep
  exact ⟨_, hstep, rfl, rfl, hpage.sound.listName_length⟩

/-! ## A cursor that fits -/

/-- What holds of the loop at every moment against a device whose cursor fits. -/
structure Paging (dev : Device) (uri : CStr) (w : World) (s : PageState) : Prop where
  goesOn : GoesOn dev uri w.past s.world.past s.start
  sent : ∃ rs, s.world.past = w.past ++ rs ∧ (rs.map Request.startIndex).Pairwise (· < ·) ∧
    ∀ i ∈ rs.map Request.startIndex, i < s.start
  start_lt : s.start < 65536
  listName_length : s.world.listName.length = fnsvcListNameMax + 1

theorem Paging.start (dev : Device) (uri : CStr) {w : World}
    (hname : w.listName.length = fnsvcListNameMax + 1) : Paging dev uri w (listStart w) where
  goesOn := .start
  sent := ⟨[], by simp [listStart, World.clearLast], by simp, by simp⟩
  start_lt := by simp [listStart]
  listName_length := hname

/-- The indices sent up to a state of the loop, and one more for its own request. -/
theorem Paging.pairwise_snoc {dev : Device} {uri : CStr} {w : World} {s : PageState}
    (h : Paging dev uri w s) :
    ∃ rs, s.world.past = w.past ++ rs ∧
      ((rs ++ [listRequest uri s.start]).map Request.startIndex).Pairwise (· < ·) ∧
      ∀ i ∈ (rs ++ [listRequest uri s.start]).map Request.startIndex, i ≤ s.start := by
  -- the request to come has a start index above all those before it
  obtain ⟨rs, hpast, hpair, hbelow⟩ := h.sent
  have hindex := startIndex_listRequest uri h.start_lt
  refine ⟨rs, hpast, ?_, ?_⟩
  · rw [List.map_append, List.pairwise_append]
    refine ⟨hpair, by simp, fun i hi j hj => ?_⟩
    simp only [List.map_cons, List.map_nil, List.mem_singleton, hindex] at hj
    subst hj
    exact hbelow i hi
  · intro i hi
    rw [List.map_append, List.mem_append] at hi
    rcases hi with hi | hi
    · exact Nat.le_of_lt (hbelow i hi)
    · simp only [List.map_cons, List.map_nil, List.mem_singleton, hindex] at hi
      omega

/-- **One pass makes progress.** If the cursor fits, the 16-bit sum is exact and the start
index of the next request is larger. -/
theorem Paging.step {dev : Device} {uri : CStr} {w : World} {s s' : PageState}
    (hfits : CursorFits dev uri w.past) (h : Paging dev uri w s)
    (hstep : listStep dev uri s = .inl s') : Paging dev uri w s' ∧ s.start < s'.start := by
  obtain ⟨payload, flags, count, hfit, hresp, hexit, hmore, hcount, hstart, hpast, hname⟩ :=
    listStep_inl h.listName_length hstep
  have hnext : GoesOn dev uri w.past s'.world.past (s.start + count) := by
    rw [hpast]
    exact .more h.goesOn hresp hexit hmore hcount
  have hlt : s.start + count < 65536 := hfits hfit _ _ hnext
  rw [u16_of_lt hlt] at hstart
  -- the request of this pass joins those already sent
  obtain ⟨rs, hrs, hpair, hle⟩ := h.pairwise_snoc
  refine ⟨⟨by rw [hstart]; exact hnext, ⟨_, ?_, hpair, fun i hi => ?_⟩, by omega, hname⟩,
    by omega⟩
  · rw [hpast, hrs, List.append_assoc]
  · have hbound := hle i hi
    omega

/-- The pass that ends the listing sent a start index above all before it. -/
theorem Paging.left {dev : Device} {uri : CStr} {w : World} {s : PageState} {r : ListResult}
    (h : Paging dev uri w s) (hstep : listStep dev uri s = .inr r) :
    (sentIndices w (.inr r)).Pairwise (· < ·) := by
  obtain ⟨rs, hrs, hpair, -⟩ := h.pairwise_snoc
  by_cases hfit : u16 uri.len ≤ listUriMax
  · -- the last pass sent one more request
    have hpast := (listStep_sends dev s hfit).1
    rw [hstep] at hpast
    rw [sentIndices, sentSince, hpast, hrs, List.append_assoc, List.drop_left]
    exact hpair
  · -- nothing is sent
    obtain ⟨r', hr', -, hsame⟩ := listStep_refuses dev s (Nat.lt_of_not_le hfit)
    obtain rfl : r = r' := Sum.inr.inj (hstep.symm.trans hr')
    rw [List.map_append, List.pairwise_append] at hpair
    rw [sentIndices, sentSince, worldOf, hsame, hrs, List.drop_left]
    exact hpair.1

/-- **A device whose cursor fits is listed to an end.** The variant is the distance of `start`
from `2 ^ 16`. -/
theorem progresses_of_cursorFits {dev : Device} {uri : CStr} {w : World}
    (hname : w.listName.length = fnsvcListNameMax + 1) (hfits : CursorFits dev uri w.past) :
    Progresses dev uri w := by
  constructor
  · -- the start index grows and stays below 65536, so that the loop ends
    obtain ⟨r, k, hk⟩ := Loop.returns_of_variant (Paging dev uri w) (fun s => 65536 - s.start)
      (fun s s' hs hstep => by
        obtain ⟨hs', hlt⟩ := hs.step hfits hstep
        have hbound := hs'.start_lt
        exact ⟨hs', by omega⟩)
      (Paging.start dev uri hname)
    exact ⟨k, r, by rw [fnsvcListDirectory, if_pos rfl, hk]⟩
  · -- in every state reached the start indices sent so far increase
    intro k
    have hall := Loop.after_invariant (Paging dev uri w)
      (fun r => (sentIndices w (.inr r)).Pairwise (· < ·))
      (fun s s' hs hstep => (hs.step hfits hstep).1) (fun s r hs hstep => hs.left hstep)
      (Paging.start dev uri hname) k
    rw [fnsvcListDirectory, if_pos rfl]
    generalize Loop.after (listStep dev uri) k (listStart w) = out at hall
    cases out with
    | inr r => exact hall
    | inl s =>
      obtain ⟨rs, hrs, hpair, -⟩ := Paging.sent hall
      rw [sentIndices, sentSince, worldOf, hrs, List.drop_left]
      exact hpair

/-! ## A cursor that wraps -/

/-- **The loop follows the exact cursor.** As long as the start indices sent are increasing,
the loop reaches every index the device lets the listing go on to, so no such index is past
`uint16_t`. -/
theorem goesOn_reaches {dev : Device} {uri : CStr} {w : World}
    (hname : w.listName.length = fnsvcListNameMax + 1) (hfit : u16 uri.len ≤ listUriMax)
    (hincr : ∀ k, (sentIndices w (fnsvcListDirectory dev uri true k w)).Pairwise (· < ·))
    {past : List Request} {n : Nat} (h : GoesOn dev uri w.past past n) :
    n < 65536 ∧ w.past <+: past ∧ ∃ s, Loop.Reaches (listStep dev uri) (listStart w) s ∧
      s.start = n ∧ s.world.past = past ∧ s.world.listName.length = fnsvcListNameMax + 1 := by
  induction h with
  | start =>
    exact ⟨by omega, List.prefix_refl _, listStart w, .refl _ _, rfl, rfl, hname⟩
  | @more past n count flags payload _ hresp hexit hmore hcount ih =>
    obtain ⟨hlt, hprefix, s, hreach, rfl, rfl, hs⟩ := ih
    obtain ⟨s', hstep, hstart, hpast, hs'⟩ := listStep_more hs hfit hresp hexit hmore hcount
    obtain ⟨k, hk⟩ := hreach.tail hstep
    have hsmall : s.start + count < 65536 := by
      -- otherwise the next request is for an index below the one of this page
      by_contra hwrap
      have hcount' := pageExit_count_lt hexit
      have hstart' : s'.start = s.start + count - 65536 := by
        rw [hstart]
        exact u16_wrap (by omega) (by omega)
      have hlast : Loop.after (listStep dev uri) (k + 1) (listStart w) = listStep dev uri s' := by
        rw [Loop.after_add, hk]
        dsimp only
        cases hnext : listStep dev uri s' with
        | inl t => exact Loop.after_succ_inl hnext 0
        | inr r => exact Loop.after_succ_inr hnext 0
      have hpair := hincr (k + 1)
      obtain ⟨rs, hrs⟩ := hprefix
      rw [fnsvcListDirectory, if_pos rfl, hlast, sentIndices, sentSince,
        (listStep_sends dev s' hfit).1, hpast, ← hrs, List.append_assoc, List.append_assoc,
        List.drop_left, List.map_append, List.pairwise_append] at hpair
      have hpair' := hpair.2.1
      simp only [List.cons_append, List.nil_append, List.map_cons, List.map_nil,
        List.pairwise_cons, List.mem_singleton, forall_eq] at hpair'
      have hback := hpair'.1
      rw [startIndex_listRequest uri hlt, startIndex_listRequest uri (by omega)] at hback
      omega
    rw [u16_of_lt hsmall] at hstart
    exact ⟨hsmall, hprefix.trans (List.prefix_append _ _), s', ⟨k, hk⟩, hstart, hpast, hs'⟩

/-- **When the listing terminates with increasing start indices.** Exactly when the counts of
the device's accepted MORE pages never add up to `2 ^ 16`. -/
theorem fnsvcListDirectory_terminates_iff (dev : Device) (uri : CStr) (w : World)
    (hname : w.listName.length = fnsvcListNameMax + 1) :
    Progresses dev uri w ↔ CursorFits dev uri w.past :=
  ⟨fun h hfit _ _ hgoes => (goesOn_reaches hname hfit h.2 hgoes).1,
    progresses_of_cursorFits hname⟩

/-- A page of one compact entry with MORE set. -/
def morePage : List UInt8 := [1, 3, 0, 0, 0, 0, 1, 0, 2, 0, 0, 0]

theorem pageExit_morePage : pageExit (listMem morePage) morePage.length = .ok (3, 1) := by decide

/-- The device that sets MORE on its first page and on no other. -/
def pagingDevice : Device :=
  Device.script fun n => .answered 0 (if n = 0 then morePage else compactPage)

/-- Its listing goes on once, by one entry. -/
theorem goesOn_pagingDevice {past : List Request} {n : Nat}
    (h : GoesOn pagingDevice CStr.empty [] past n) : past.length = n ∧ n ≤ 1 := by
  induction h with
  | start => exact ⟨rfl, Nat.zero_le 1⟩
  | @more past n count flags payload _ hresp hexit hmore hcount ih =>
    obtain ⟨hlen, hle⟩ := ih
    rcases (by omega : n = 0 ∨ n = 1) with rfl | rfl
    · obtain rfl := List.length_eq_zero_iff.mp hlen
      obtain ⟨-, rfl⟩ : _ ∧ morePage = payload := Reply.answered.inj hresp
      rw [pageExit_morePage] at hexit
      obtain ⟨-, rfl⟩ := Prod.mk.inj (Except.ok.inj hexit)
      exact ⟨rfl, Nat.le_refl 1⟩
    · -- the second page has no MORE
      obtain ⟨r, rfl⟩ := List.length_eq_one_iff.mp hlen
      obtain ⟨-, rfl⟩ : _ ∧ compactPage = payload := Reply.answered.inj hresp
      have hlast : pageExit (listMem compactPage) compactPage.length = .ok (2, 1) := by decide
      rw [hlast] at hexit
      obtain ⟨rfl, -⟩ := Prod.mk.inj (Except.ok.inj hexit)
      exact absurd rfl hmore

/-- The listing of its two pages ends, and asks for increasing indices. -/
theorem fnsvcListDirectory_terminates_pagingDevice :
    Progresses pagingDevice CStr.empty (World.initial 0) :=
  (fnsvcListDirectory_terminates_iff pagingDevice CStr.empty (World.initial 0)
    (length_listName_initial 0)).mpr fun _ _ n hgoes =>
      Nat.lt_of_le_of_lt (goesOn_pagingDevice hgoes).2 (by decide)

def moreDevice : Device := Device.script fun _ => .answered 0 morePage

/-- Against a device that sets MORE for ever the call never returns: every pass gets past the
progress guard, and `start` goes round through `2 ^ 16`. -/
theorem fnsvcListDirectory_endless_moreDevice :
    ¬ Progresses moreDevice CStr.empty (World.initial 0) := by
  rintro ⟨⟨k, r, hr⟩, -⟩
  -- the page is accepted in every pass, whatever `start` has come to
  have hagain : ∀ s : PageState, s.world.listName.length = fnsvcListNameMax + 1 →
      ∃ s', listStep moreDevice CStr.empty s = .inl s' ∧
        s'.world.listName.length = fnsvcListNameMax + 1 := by
    intro s hname
    have hresp : moreDevice.respond s.world.past (listRequest CStr.empty s.start) =
        .answered fnsvcStatusOk morePage := rfl
    obtain ⟨s', hstep, -, -, hname'⟩ :=
      listStep_more hname (by decide) hresp pageExit_morePage (by decide) (by decide)
    exact ⟨s', hstep, hname'⟩
  obtain ⟨s, hs⟩ :=
    Loop.after_endless hagain (s := listStart (World.initial 0)) (length_listName_initial 0) k
  rw [fnsvcListDirectory, if_pos rfl, hs] at hr
  cases hr

end NioApps.Fnsvc
