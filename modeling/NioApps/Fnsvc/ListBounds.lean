import NioApps.Fnsvc.ListDirectory

/-!
# Fnsvc — a directory listing stays inside the response

Two facts about every call of `fnsvc_list_directory`, whatever the device answers and however
many pages it takes. Each is one pass (`listStep_sound`, `listStep_lockstep`) carried over the
loop by the rules of `Loop`.

* Every byte read lies inside the response of its page, and `list_name` is terminated inside
  the array whenever `cb` runs.
* What `cb` is handed and what the call returns do not depend on what `resp_buf` and
  `list_name` held before.
-/

namespace NioApps.Fnsvc

open BufProg

/-! ## Bounds -/

/-- What holds of the observed part of a call at every moment. -/
structure ListSound (events : List PageEvent) (reads : List (Nat × Nat))
    (listName : List UInt8) : Prop where
  reads_lt : ∀ p ∈ reads, p.1 < p.2
  copied_le : ∀ n, .nameCopied n ∈ events → n ≤ fnsvcListNameMax
  terminated : ∀ c ∈ calls events, c.listName.length = fnsvcListNameMax + 1 ∧ 0 ∈ c.listName
  listName_length : listName.length = fnsvcListNameMax + 1

def SoundOutcome (out : PageState ⊕ ListResult) : Prop :=
  ListSound (eventsOf out) (readsOf out) (worldOf out).listName

theorem soundOutcome_start {w : World} (hname : w.listName.length = fnsvcListNameMax + 1) :
    SoundOutcome (.inl (listStart w)) where
  reads_lt := by simp [readsOf, listStart]
  copied_le := by simp [eventsOf, listStart]
  terminated := by simp [eventsOf, listStart, calls]
  listName_length := hname

/-- What a page adds to the observations is sound, and so is all of it then. -/
theorem ListSound.observe {s : PageState} {respLen : Nat} {out : Outcome PageEvent PageValue}
    (h : ListSound s.events s.reads s.world.listName)
    (hrun : SoundRun respLen out.events out.reads out.value.listName) :
    ListSound (s.observe respLen out).events (s.observe respLen out).reads
      (s.observe respLen out).world.listName where
  reads_lt p hp := by
    rcases List.mem_append.mp hp with hp | hp
    · exact h.reads_lt p hp
    · obtain ⟨i, hi, rfl⟩ := List.mem_map.mp hp
      exact hrun.reads_lt i hi
  copied_le n hn := (List.mem_append.mp hn).elim (h.copied_le n) (hrun.copied_le n)
  terminated c hc := by
    rw [PageState.observe, calls_append] at hc
    exact (List.mem_append.mp hc).elim (h.terminated c) (hrun.terminated c)
  listName_length := hrun.listName_length

/-- **One pass stays in bounds.** Only a parsed page adds to what has been observed. -/
theorem listStep_sound (dev : Device) (uri : CStr) {s : PageState}
    (h : SoundOutcome (.inl s)) : SoundOutcome (listStep dev uri s) := by
  have hname : s.world.listName.length = fnsvcListNameMax + 1 := h.listName_length
  have hrun := listStep_run dev uri hname
  generalize listStep dev uri s = out at hrun
  cases hrun with
  -- the passes that parse no page leave everything observed as it was
  | tooLarge => exact h
  | unsent => exact h
  | failed => exact h
  | refused => exact h
  | @page payload out _ _ hpage =>
    have hs : ListSound (s.exchanged uri fnsvcStatusOk payload).events
        (s.exchanged uri fnsvcStatusOk payload).reads
        (s.exchanged uri fnsvcStatusOk payload).world.listName := h
    unfold SoundOutcome
    rw [eventsOf_finishPage, readsOf_finishPage, listName_finishPage]
    exact hs.observe hpage.sound

/-- Every pass keeps the observations sound, and so the whole call does. -/
theorem fnsvcListDirectory_sound (dev : Device) (uri : CStr) (cb : Bool) (k : Nat) {w : World}
    (hname : w.listName.length = fnsvcListNameMax + 1) :
    SoundOutcome (fnsvcListDirectory dev uri cb k w) := by
  cases cb with
  | false => exact soundOutcome_start hname
  | true =>
    rw [fnsvcListDirectory, if_pos rfl]
    exact Loop.after_preserves SoundOutcome (fun _ hs => listStep_sound dev uri hs)
      (soundOutcome_start hname) k

/-! ## Independence from earlier contents -/

/-- What the caller of `fnsvc_list_directory` gets to see: the arguments of every callback so
far, and the return value once there is one. -/
def observed (out : PageState ⊕ ListResult) : List CbArgs × Option Bool :=
  (callArgs (eventsOf out), retOf out)

/-- Two loop states that differ at most in what the buffers hold. -/
structure SameSoFar (s t : PageState) : Prop where
  past : s.world.past = t.world.past
  start : s.start = t.start
  args : callArgs s.events = callArgs t.events
  listName_left : s.world.listName.length = fnsvcListNameMax + 1
  listName_right : t.world.listName.length = fnsvcListNameMax + 1

/-- Two results a caller cannot tell apart. -/
def SameResult (r u : ListResult) : Prop :=
  callArgs r.events = callArgs u.events ∧ r.ret = u.ret

theorem sameResult_fail {s t : PageState} (h : callArgs s.events = callArgs t.events)
    (e : FnsvcErr) : SameResult (s.fail e) (t.fail e) := ⟨h, rfl⟩

/-- The end of a page takes the same way in both runs. -/
theorem finishPage_lockstep {s t : PageState} (h : SameSoFar s t)
    (exit : Except FnsvcErr (UInt8 × Nat)) :
    Loop.Lockstep SameSoFar SameResult (finishPage s exit) (finishPage t exit) := by
  cases exit with
  | error e => exact .left (sameResult_fail h.args e)
  | ok v =>
    obtain ⟨flags, count⟩ := v
    unfold finishPage
    dsimp only
    -- both take the same branch, which depends on the flags and the count only
    by_cases hmore : flags &&& nioFileListRespMore = 0
    · rw [if_pos hmore, if_pos hmore]
      exact .left ⟨h.args, rfl⟩
    rw [if_neg hmore, if_neg hmore]
    by_cases hcount : count = 0
    · rw [if_pos hcount, if_pos hcount]
      exact .left (sameResult_fail (by exact h.args) _)
    rw [if_neg hcount, if_neg hcount]
    exact .running ⟨h.past, by rw [h.start], h.args, h.listName_left, h.listName_right⟩

/-- **One pass does not look at earlier contents.** The device is asked the same question, so
it gives the same answer, and the page is read out of the answer alone. -/
theorem listStep_lockstep (dev : Device) (uri : CStr) {s t : PageState} (h : SameSoFar s t) :
    Loop.Lockstep SameSoFar SameResult (listStep dev uri s) (listStep dev uri t) := by
  by_cases hcheck : fnsvcIoBufSize < u16 uri.len + fnsvcListRequestOverhead
  · rw [listStep_tooLarge dev s hcheck, listStep_tooLarge dev t hcheck]
    exact .left (sameResult_fail (by exact h.args) _)
  have hchecked : u16 uri.len + fnsvcListRequestOverhead ≤ fnsvcIoBufSize := by omega
  by_cases hlong : listUriMax < u16 uri.len
  · rw [listStep_unsent dev s hchecked hlong, listStep_unsent dev t hchecked hlong]
    exact .left (sameResult_fail (by exact h.args) _)
  have hfit : u16 uri.len ≤ listUriMax := by omega
  have hasked : dev.respond t.world.past (listRequest uri t.start) =
      dev.respond s.world.past (listRequest uri s.start) := by rw [h.past, h.start]
  cases hresp : dev.respond s.world.past (listRequest uri s.start) with
  | failed code =>
    rw [hresp] at hasked
    rw [listStep_failed hfit hresp, listStep_failed hfit hasked]
    exact .left (sameResult_fail (by exact h.args) _)
  | answered status payload =>
    rw [hresp] at hasked
    obtain ⟨hbadS, hokS⟩ := listStep_page hfit hresp h.listName_left
    obtain ⟨hbadT, hokT⟩ := listStep_page hfit hasked h.listName_right
    by_cases hstatus : status = fnsvcStatusOk
    · obtain ⟨outS, hrunS, hstepS⟩ := hokS hstatus
      obtain ⟨outT, hrunT, hstepT⟩ := hokT hstatus
      rw [hstepS, hstepT]
      -- both parsed the same payload, each over its own array
      refine finishPage_lockstep ?_ _
      refine ⟨?_, h.start, ?_, hrunS.sound.listName_length, hrunT.sound.listName_length⟩
      · show s.world.past ++ [listRequest uri s.start] = t.world.past ++ [listRequest uri t.start]
        rw [h.past, h.start]
      · show callArgs (s.events ++ outS.events) = callArgs (t.events ++ outT.events)
        rw [callArgs_append, callArgs_append, h.args, hrunS.args, hrunT.args]
    · rw [hbadS hstatus, hbadT hstatus]
      exact .left (sameResult_fail (by exact h.args) _)

/-- **Parsing any directory response is in bounds and history-free.** After every number of
pages: every byte read lies inside the response of its page; every name copied fits
`list_name`, which is terminated inside the array when `cb` sees it; and what the caller sees
is the same for any two worlds in which the device has been asked the same, whatever
`resp_buf` and `list_name` hold in them. -/
theorem fnsvcListDirectory_inBounds (dev : Device) (uri : CStr) (k : Nat) (w : World)
    (hname : w.listName.length = fnsvcListNameMax + 1) :
    (∀ p ∈ readsOf (fnsvcListDirectory dev uri true k w), p.1 < p.2) ∧
    (∀ n, .nameCopied n ∈ eventsOf (fnsvcListDirectory dev uri true k w) →
      n ≤ fnsvcListNameMax) ∧
    (∀ c ∈ calls (eventsOf (fnsvcListDirectory dev uri true k w)),
      c.listName.length = fnsvcListNameMax + 1 ∧ 0 ∈ c.listName) ∧
    ∀ w' : World, w'.past = w.past → w'.listName.length = fnsvcListNameMax + 1 →
      observed (fnsvcListDirectory dev uri true k w') =
        observed (fnsvcListDirectory dev uri true k w) := by
  have hsound := fnsvcListDirectory_sound dev uri true k hname
  refine ⟨hsound.reads_lt, hsound.copied_le, hsound.terminated, fun w' hpast hname' => ?_⟩
  -- two runs whose statics differ go in step, since the device has seen the same requests
  have hlock := Loop.after_lockstep SameSoFar SameResult
    (fun s t => listStep_lockstep dev uri) (s := listStart w') (t := listStart w)
    ⟨hpast, rfl, rfl, hname', hname⟩ k
  rw [fnsvcListDirectory, fnsvcListDirectory, if_pos rfl, if_pos rfl]
  generalize Loop.after (listStep dev uri) k (listStart w') = out' at hlock
  generalize Loop.after (listStep dev uri) k (listStart w) = out at hlock
  cases hlock with
  | running h => simp [observed, eventsOf, retOf, h.args]
  | left h => simp [observed, eventsOf, retOf, h.1, h.2]

/-- The reads of a call that is answered with `compactPage`. -/
theorem fnsvcListDirectory_inBounds_compactPage :
    (World.initial 0).listName.length = fnsvcListNameMax + 1 ∧
      ∀ p ∈ readsOf (fnsvcListDirectory (Device.script fun _ => .answered 0 compactPage)
        CStr.empty true 3 (World.initial 0)), p.1 < p.2 :=
  ⟨length_listName_initial 0,
    (fnsvcListDirectory_inBounds _ CStr.empty 3 (World.initial 0) (length_listName_initial 0)).1⟩

end NioApps.Fnsvc
