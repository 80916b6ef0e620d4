import NioApps.Fnsvc.Transport

/-!
# Fnsvc — one directory page

The part of `fnsvc_list_directory` that reads a page out of `resp_buf`: the header checks,
the entry loop with its two layouts, the copy into `list_name` and the callbacks. `pageProg`
follows the source line by line, with every sum cast where the source casts it.

The page has a second description in exact integers, which needs no casts:

* `entryEnd` — where the entry at `pos` ends, `entryPos` where the `i`-th entry starts;
* `EntryFits` — the entry ends inside the response and its name fits `list_name`;
* `fitting` — the starts of the entries before the first one that does not fit;
* `pageExit`, `pageArgs` — how the page is left and what the callback is handed.

`pageProg_run` says that on a response of at most 512 bytes the two agree, that no byte past the
response is read, and that `list_name` is never overrun: under 512 bytes no cast of the entry
parser can wrap.
-/

namespace NioApps.Fnsvc

open BufProg

/-! ## Callbacks and events -/

/-- One call of `cb`: the array `list_name` is what stands there when `cb` runs. -/
structure CbCall where
  isDir : UInt8
  listName : List UInt8
  size : Nat
  mtime : Nat
  deriving DecidableEq

/-- The arguments of a callback as C values; the name is a C string. -/
structure CbArgs where
  isDir : UInt8
  name : List UInt8
  size : Nat
  mtime : Nat
  deriving DecidableEq, Repr

def CbCall.args (c : CbCall) : CbArgs := ⟨c.isDir, cstr c.listName, c.size, c.mtime⟩

/-- What a page does besides reading: `memcpy(list_name, …, n)` and calls of `cb`. -/
inductive PageEvent where
  | nameCopied (n : Nat)
  | cbCalled (c : CbCall)
  deriving DecidableEq

def calls : List PageEvent → List CbCall
  | [] => []
  | .nameCopied _ :: es => calls es
  | .cbCalled c :: es => c :: calls es

@[simp] theorem calls_append (es es' : List PageEvent) :
    calls (es ++ es') = calls es ++ calls es' := by
  induction es with
  | nil => rfl
  | cons e es ih => cases e <;> simp [calls, ih]

def callArgs (es : List PageEvent) : List CbArgs := (calls es).map CbCall.args

@[simp] theorem callArgs_append (es es' : List PageEvent) :
    callArgs (es ++ es') = callArgs es ++ callArgs es' := by
  simp [callArgs]

/-! ## The parser -/

/-- `flags & NIO_FILE_LIST_RESP_COMPACT`. -/
def isCompact (flags : UInt8) : Bool := decide (flags &&& nioFileListRespCompact ≠ 0)

/-- The end of the loop body: the trailer of the full layout, and the call of `cb`. -/
def readTrailer (respLen : Nat) (flags eflags : UInt8) (pos : Nat) (listName : List UInt8) :
    BufProg PageEvent (Option Nat × List UInt8) :=
  if isCompact flags then do
    report (.cbCalled ⟨eflags &&& 0x01, listName, 0, 0⟩)
    pure (some pos, listName)
  -- the full layout: two 64-bit fields, of which the low halves are kept
  else if u16 (pos + 16) > respLen then pure (none, listName)
  else do
    let size ← getU32le pos
    let mtime ← getU32le (pos + 8)
    report (.cbCalled ⟨eflags &&& 0x01, listName, size, mtime⟩)
    pure (some (u16 (pos + 16)), listName)

/-- The body of the entry loop: the position after the entry, or `none` for
`FNSVC_ERR_ENTRY_BOUNDS`, and `list_name` as it is left. -/
def readEntry (respLen : Nat) (flags : UInt8) (pos : Nat) (listName : List UInt8) :
    BufProg PageEvent (Option Nat × List UInt8) :=
  if u16 (pos + 2) > respLen then pure (none, listName)
  else do
    let eflags ← byte pos
    let pos := u16 (pos + 1)
    let nameLen ← byte pos
    let pos := u16 (pos + 1)
    if u16 (pos + nameLen.toNat) > respLen ∨ nameLen.toNat ≥ fnsvcListNameMax + 1 then
      pure (none, listName)
    else do
      let name ← block pos nameLen.toNat
      report (.nameCopied nameLen.toNat)
      readTrailer respLen flags eflags (u16 (pos + nameLen.toNat)) (storeStr listName name)

/-- The entry loop, with the number of entries still to come. -/
def entryLoop (respLen : Nat) (flags : UInt8) :
    Nat → Nat → List UInt8 → BufProg PageEvent (Bool × List UInt8)
  | 0, _, listName => pure (true, listName)
  | n + 1, pos, listName => do
    let (next, listName) ← readEntry respLen flags pos listName
    match next with
    | none => pure (false, listName)
    | some pos => entryLoop respLen flags n pos listName

/-- How a page is left: an error, or the flags and the count; and `list_name` after it. -/
structure PageValue where
  exit : Except FnsvcErr (UInt8 × Nat)
  listName : List UInt8

/-- A page with status OK, from the length check to the end of the entry loop. -/
def pageProg (respLen : Nat) (listName : List UInt8) : BufProg PageEvent PageValue :=
  if respLen < 10 then pure ⟨.error .shortResponse, listName⟩
  else do
    let version ← byte 0
    if version ≠ nioFileVersion then pure ⟨.error .badVersion, listName⟩
    else do
      let flags ← byte 1
      let count ← getU16le 6
      let entriesLen ← getU16le 8
      -- the one sum of the header, cast as in the source
      if u16 (10 + entriesLen) > respLen then pure ⟨.error .entriesBounds, listName⟩
      else do
        let (parsed, listName) ← entryLoop respLen flags count 10 listName
        pure ⟨if parsed then .ok (flags, count) else .error .entryBounds, listName⟩

/-! ## The page in exact integers -/

def nameLenAt (m : Nat → UInt8) (pos : Nat) : Nat := (m (pos + 1)).toNat

def entryEnd (m : Nat → UInt8) (compact : Bool) (pos : Nat) : Nat :=
  pos + 2 + nameLenAt m pos + if compact then 0 else 16

/-- Where the `i`-th entry starts when entry 0 starts at `pos`. -/
def entryPos (m : Nat → UInt8) (compact : Bool) (pos : Nat) : Nat → Nat
  | 0 => pos
  | i + 1 => entryEnd m compact (entryPos m compact pos i)

/-- The entry at `pos` ends inside `limit` and its name fits `list_name`. -/
def EntryFits (m : Nat → UInt8) (compact : Bool) (limit pos : Nat) : Prop :=
  entryEnd m compact pos ≤ limit ∧ nameLenAt m pos ≤ fnsvcListNameMax

instance (m : Nat → UInt8) (compact : Bool) (limit pos : Nat) :
    Decidable (EntryFits m compact limit pos) := by
  unfold EntryFits
  infer_instance

/-- The starts of the entries before the first one that does not fit. -/
def fitting (m : Nat → UInt8) (compact : Bool) (limit : Nat) : Nat → Nat → List Nat
  | 0, _ => []
  | n + 1, pos =>
    if EntryFits m compact limit pos then
      pos :: fitting m compact limit n (entryEnd m compact pos)
    else []

/-- What the callback is handed for the entry at `pos`. -/
def entryArgs (m : Nat → UInt8) (compact : Bool) (pos : Nat) : CbArgs where
  isDir := m pos &&& 0x01
  name := cstr ((List.range' (pos + 2) (nameLenAt m pos)).map m)
  size := if compact then 0 else u32At m (pos + 2 + nameLenAt m pos)
  mtime := if compact then 0 else u32At m (pos + 2 + nameLenAt m pos + 8)

/-- The header checks in exact integers, apart from the cast of the source's region check. -/
def headerExit (m : Nat → UInt8) (respLen : Nat) : Except FnsvcErr Unit :=
  if respLen < 10 then .error .shortResponse
  else if m 0 ≠ nioFileVersion then .error .badVersion
  else if u16 (10 + u16At m 8) > respLen then .error .entriesBounds
  else .ok ()

def pageExit (m : Nat → UInt8) (respLen : Nat) : Except FnsvcErr (UInt8 × Nat) :=
  match headerExit m respLen with
  | .error e => .error e
  | .ok () =>
    if (fitting m (isCompact (m 1)) respLen (u16At m 6) 10).length = u16At m 6 then
      .ok (m 1, u16At m 6)
    else .error .entryBounds

def pageArgs (m : Nat → UInt8) (respLen : Nat) : List CbArgs :=
  match headerExit m respLen with
  | .error _ => []
  | .ok () =>
    (fitting m (isCompact (m 1)) respLen (u16At m 6) 10).map (entryArgs m (isCompact (m 1)))

theorem nameLenAt_lt (m : Nat → UInt8) (pos : Nat) : nameLenAt m pos < 256 :=
  (m (pos + 1)).toNat_lt

/-- An entry has at least its two length and flag bytes, so that the entries move on. -/
theorem entryEnd_gt (m : Nat → UInt8) (compact : Bool) (pos : Nat) :
    pos + 2 ≤ entryEnd m compact pos := by
  unfold entryEnd
  omega

/-- The entry after the first i is the i-th from the second on. -/
theorem entryPos_succ' (m : Nat → UInt8) (compact : Bool) (pos i : Nat) :
    entryPos m compact pos (i + 1) = entryPos m compact (entryEnd m compact pos) i := by
  induction i with
  | zero => rfl
  | succ i ih => rw [entryPos, ih, ← entryPos]

/-- The walk passes entry `i` exactly when entries `0` to `i` all fit. -/
theorem lt_fitting_length_iff (m : Nat → UInt8) (compact : Bool) (limit n pos i : Nat) :
    i < (fitting m compact limit n pos).length ↔
      i < n ∧ ∀ j ≤ i, EntryFits m compact limit (entryPos m compact pos j) := by
  induction n generalizing pos i with
  | zero => simp [fitting]
  | succ n ih =>
    rw [fitting]
    -- the walk stops at the first entry that does not fit, entry 0 included
    by_cases hfits : EntryFits m compact limit pos
    · rw [if_pos hfits, List.length_cons]
      cases i with
      | zero => simp [entryPos, hfits]
      | succ i =>
        rw [Nat.add_lt_add_iff_right, Nat.add_lt_add_iff_right, ih]
        refine and_congr_right fun _ => ⟨fun h j hj => ?_, fun h j hj => ?_⟩
        · cases j with
          | zero => exact hfits
          | succ j =>
            rw [entryPos_succ']
            exact h j (by omega)
        · rw [← entryPos_succ']
          exact h (j + 1) (by omega)
    · rw [if_neg hfits]
      refine ⟨fun h => absurd h (by simp), fun h => ?_⟩
      exact absurd (h.2 0 (Nat.zero_le _)) hfits

/-! ## What one entry does

The parser's sums are all below `2 ^ 16` on a response of at most 512 bytes, so each cast is
the identity and each comparison is the one in exact integers. -/

/-- A run of the parser that stays inside the response and inside `list_name`. -/
structure SoundRun (respLen : Nat) (events : List PageEvent) (reads : List Nat)
    (listName : List UInt8) : Prop where
  reads_lt : ∀ i ∈ reads, i < respLen
  copied_le : ∀ n, .nameCopied n ∈ events → n ≤ fnsvcListNameMax
  terminated : ∀ c ∈ calls events, c.listName.length = fnsvcListNameMax + 1 ∧ 0 ∈ c.listName
  listName_length : listName.length = fnsvcListNameMax + 1

/-- Two sound parts of a page, one after the other. -/
theorem SoundRun.append {respLen : Nat} {events events' : List PageEvent}
    {reads reads' : List Nat} {listName listName' : List UInt8}
    (h : SoundRun respLen events reads listName)
    (h' : SoundRun respLen events' reads' listName') :
    SoundRun respLen (events ++ events') (reads ++ reads') listName' where
  reads_lt i hi := (List.mem_append.mp hi).elim (h.reads_lt i) (h'.reads_lt i)
  copied_le n hn := (List.mem_append.mp hn).elim (h.copied_le n) (h'.copied_le n)
  terminated c hc := by
    rw [calls_append] at hc
    exact (List.mem_append.mp hc).elim (h.terminated c) (h'.terminated c)
  listName_length := h'.listName_length

/-- A part that only reads is sound if it reads below the end of the response. -/
theorem SoundRun.of_reads {respLen : Nat} {reads : List Nat} {listName : List UInt8}
    (hname : listName.length = fnsvcListNameMax + 1) (h : ∀ i ∈ reads, i < respLen) :
    SoundRun respLen [] reads listName :=
  ⟨h, by simp, by simp [calls], hname⟩

/-- What `readEntry` can do: accept an entry that fits and call `cb` for it, or reject one
that does not fit without calling `cb`. -/
inductive EntryRun (m : Nat → UInt8) (flags : UInt8) (respLen pos : Nat) :
    Outcome PageEvent (Option Nat × List UInt8) → Prop where
  | accepted {listName : List UInt8} {events : List PageEvent} {reads : List Nat}
      (hfits : EntryFits m (isCompact flags) respLen pos)
      (hargs : callArgs events = [entryArgs m (isCompact flags) pos])
      (hsound : SoundRun respLen events reads listName) :
      EntryRun m flags respLen pos
        ⟨(some (entryEnd m (isCompact flags) pos), listName), events, reads⟩
  | rejected {listName : List UInt8} {events : List PageEvent} {reads : List Nat}
      (hfits : ¬ EntryFits m (isCompact flags) respLen pos)
      (hargs : callArgs events = [])
      (hsound : SoundRun respLen events reads listName) :
      EntryRun m flags respLen pos ⟨(none, listName), events, reads⟩

/-- Copying a name of at most 220 bytes keeps the NUL inside `list_name`. -/
theorem sound_nameCopied {respLen n : Nat} {listName : List UInt8} (hn : n ≤ fnsvcListNameMax)
    (hname : listName.length = fnsvcListNameMax + 1) :
    SoundRun respLen [.nameCopied n] [] listName where
  reads_lt := by simp
  copied_le k hk := by
    simp only [List.mem_singleton, PageEvent.nameCopied.injEq] at hk
    omega
  terminated := by simp [calls]
  listName_length := hname

/-- The call of `cb` on a terminated copy that fits `list_name`, after reads inside the
response. -/
theorem sound_cbCalled {respLen : Nat} {isDir : UInt8} {listName name : List UInt8}
    {size mtime : Nat} {reads : List Nat} (hlt : name.length < listName.length)
    (hname : listName.length = fnsvcListNameMax + 1) (hreads : ∀ i ∈ reads, i < respLen) :
    SoundRun respLen [.cbCalled ⟨isDir, storeStr listName name, size, mtime⟩] reads
      (storeStr listName name) where
  reads_lt := hreads
  copied_le := by simp
  terminated c hc := by
    simp only [calls, List.mem_singleton] at hc
    subst hc
    refine ⟨by rw [length_storeStr hlt, hname], ?_⟩
    rw [storeStr_eq hlt]
    simp
  listName_length := by rw [length_storeStr hlt, hname]

/-- The trailer of an entry whose name fits: what is left to decide is whether the full
layout's 16 bytes fit as well. -/
theorem readTrailer_run (m : Nat → UInt8) (flags : UInt8) {respLen pos : Nat}
    (hlen : respLen ≤ fnsvcIoBufSize) (hbody : pos + 2 + nameLenAt m pos ≤ respLen)
    (hshort : nameLenAt m pos ≤ fnsvcListNameMax) {listName : List UInt8}
    (hname : listName.length = fnsvcListNameMax + 1) :
    EntryRun m flags respLen pos
      (exec m (readTrailer respLen flags (m pos) (pos + 2 + nameLenAt m pos)
        (storeStr listName ((List.range' (pos + 2) (nameLenAt m pos)).map m)))) := by
  have hlen' : respLen ≤ 512 := hlen
  have h16 : u16 (pos + 2 + nameLenAt m pos + 16) = pos + 2 + nameLenAt m pos + 16 :=
    u16_of_lt (by omega)
  generalize hnm : (List.range' (pos + 2) (nameLenAt m pos)).map m = name
  have hlt : name.length < listName.length := by
    rw [hname, ← hnm, List.length_map, List.length_range']
    omega
  -- what the array held before does not show in the name
  have hcstr : cstr (storeStr listName name) = cstr name := cstr_storeStr hlt
  unfold readTrailer
  rw [h16]
  cases hc : isCompact flags with
  | true =>
    have hend : pos + 2 + nameLenAt m pos = entryEnd m (isCompact flags) pos := by
      simp [entryEnd, hc]
    simp only [if_true, exec_bind, exec_report, exec_pure]
    rw [hend]
    refine .accepted ⟨by omega, hshort⟩ ?_ (sound_cbCalled hlt hname (by simp))
    simp [callArgs, calls, CbCall.args, entryArgs, hcstr, hnm, hc]
  | false =>
    have hend : pos + 2 + nameLenAt m pos + 16 = entryEnd m (isCompact flags) pos := by
      simp [entryEnd, hc]
    simp only [Bool.false_eq_true, if_false]
    rw [hend]
    -- in the full layout the two fields have to fit as well
    by_cases htrail : entryEnd m (isCompact flags) pos > respLen
    · rw [if_pos htrail]
      refine .rejected (fun hfits => ?_) rfl (.of_reads ?_ (by simp))
      · have hle := hfits.1
        omega
      · rw [length_storeStr hlt, hname]
    · rw [if_neg htrail]
      simp only [exec_bind, exec_getU32le, exec_report, exec_pure]
      refine .accepted ⟨by omega, hshort⟩ ?_ (sound_cbCalled hlt hname ?_)
      · simp [callArgs, calls, CbCall.args, entryArgs, hcstr, hnm, hc]
      · simp
        omega

/-- What is done before the end of an entry and calls nothing is part of its run. -/
theorem EntryRun.prepend {m : Nat → UInt8} {flags : UInt8} {respLen pos : Nat}
    {events : List PageEvent} {reads : List Nat} {listName : List UInt8}
    (hsound : SoundRun respLen events reads listName) (hargs : callArgs events = [])
    {out : Outcome PageEvent (Option Nat × List UInt8)} (h : EntryRun m flags respLen pos out) :
    EntryRun m flags respLen pos ⟨out.value, events ++ out.events, reads ++ out.reads⟩ := by
  cases h with
  | accepted hfits hargs' hsound' =>
    exact .accepted hfits (by rw [callArgs_append, hargs, hargs', List.nil_append])
      (hsound.append hsound')
  | rejected hfits hargs' hsound' =>
    exact .rejected hfits (by rw [callArgs_append, hargs, hargs', List.nil_append])
      (hsound.append hsound')

/-- **One entry.** On a response of at most 512 bytes `readEntry` accepts exactly the entries
that fit, hands `cb` their exact fields, and reads nothing past the response. -/
theorem readEntry_run (m : Nat → UInt8) (flags : UInt8) {respLen pos : Nat}
    (hlen : respLen ≤ fnsvcIoBufSize) (hpos : pos ≤ respLen) {listName : List UInt8}
    (hname : listName.length = fnsvcListNameMax + 1) :
    EntryRun m flags respLen pos (exec m (readEntry respLen flags pos listName)) := by
  have hlen' : respLen ≤ 512 := hlen
  have hn : nameLenAt m pos < 256 := nameLenAt_lt m pos
  -- no sum of the body wraps
  have h2 : u16 (pos + 2) = pos + 2 := u16_of_lt (by omega)
  have h1 : u16 (pos + 1) = pos + 1 := u16_of_lt (by omega)
  have h11 : u16 (pos + 1 + 1) = pos + 2 := u16_of_lt (by omega)
  have h2n : u16 (pos + 2 + nameLenAt m pos) = pos + 2 + nameLenAt m pos := u16_of_lt (by omega)
  have hn' : (m (pos + 1)).toNat = nameLenAt m pos := rfl
  unfold readEntry
  rw [h2]
  by_cases hhead : pos + 2 > respLen
  · -- the two header bytes do not fit
    rw [if_pos hhead]
    refine .rejected (fun hfits => ?_) rfl (.of_reads hname (by simp))
    have hend := entryEnd_gt m (isCompact flags) pos
    have hle := hfits.1
    omega
  rw [if_neg hhead]
  simp only [exec_bind, exec_byte, h1, h11, hn', h2n]
  by_cases hbody : pos + 2 + nameLenAt m pos > respLen ∨ nameLenAt m pos ≥ fnsvcListNameMax + 1
  · -- the name does not fit the response or `list_name`
    simp only [if_pos hbody]
    refine .rejected (fun hfits => ?_) rfl (.of_reads hname ?_)
    · obtain ⟨hend, hshort⟩ := hfits
      unfold entryEnd at hend
      omega
    · simp
      omega
  simp only [if_neg hbody, exec_bind, exec_block, exec_report]
  -- the reads of the two header bytes and of the name, and the copy into `list_name`
  have hreads : ∀ i ∈ [pos] ++ [pos + 1] ++ List.range' (pos + 2) (nameLenAt m pos),
      i < respLen := by
    intro i hi
    simp only [List.mem_append, List.mem_singleton, List.mem_range'_1] at hi
    omega
  have hfit : pos + 2 + nameLenAt m pos ≤ respLen := by omega
  have hshort : nameLenAt m pos ≤ fnsvcListNameMax := by omega
  have hcopy := (SoundRun.of_reads hname hreads).append (sound_nameCopied hshort hname)
  have htrailer := readTrailer_run m flags hlen hfit hshort hname
  simpa using htrailer.prepend hcopy rfl

/-! ## What a page does -/

/-- What the entry loop does: the callbacks are those of the entries that fit, and it runs to
its end exactly when all of them do. -/
structure LoopRun (m : Nat → UInt8) (flags : UInt8) (respLen count pos : Nat)
    (out : Outcome PageEvent (Bool × List UInt8)) : Prop where
  parsed : out.value.1 =
    decide ((fitting m (isCompact flags) respLen count pos).length = count)
  args : callArgs out.events =
    (fitting m (isCompact flags) respLen count pos).map (entryArgs m (isCompact flags))
  sound : SoundRun respLen out.events out.reads out.value.2

/-- **The entry loop.** Induction on the number of entries still to come; the invariant is
`pos ≤ respLen`, kept because an accepted entry ends inside the response. -/
theorem entryLoop_run (m : Nat → UInt8) (flags : UInt8) {respLen : Nat}
    (hlen : respLen ≤ fnsvcIoBufSize) (count : Nat) {pos : Nat} (hpos : pos ≤ respLen)
    {listName : List UInt8} (hname : listName.length = fnsvcListNameMax + 1) :
    LoopRun m flags respLen count pos
      (exec m (entryLoop respLen flags count pos listName)) := by
  induction count generalizing pos listName with
  | zero => exact ⟨rfl, rfl, .of_reads hname (by simp [entryLoop])⟩
  | succ n ih =>
    have hentry := readEntry_run m flags hlen hpos hname
    rw [entryLoop, exec_bind]
    generalize exec m (readEntry respLen flags pos listName) = out at hentry
    cases hentry with
    | accepted hfits hargs hsound =>
      -- the next entry starts inside the response again
      have hrest := ih hfits.1 hsound.listName_length
      refine ⟨?_, ?_, hsound.append hrest.sound⟩
      · simpa [fitting, hfits] using hrest.parsed
      · rw [callArgs_append, hargs, hrest.args]
        simp [fitting, hfits]
    | rejected hfits hargs hsound =>
      simp only [exec_pure, List.append_nil]
      exact ⟨by simp [fitting, hfits], by simp [fitting, hfits, hargs], hsound⟩

structure PageRun (m : Nat → UInt8) (respLen : Nat) (out : Outcome PageEvent PageValue) :
    Prop where
  exit : out.value.exit = pageExit m respLen
  args : callArgs out.events = pageArgs m respLen
  sound : SoundRun respLen out.events out.reads out.value.listName

/-- A page refused for its header has called nothing. -/
theorem PageRun.of_header {m : Nat → UInt8} {respLen : Nat} {e : FnsvcErr}
    {reads : List Nat} {listName : List UInt8} (h : headerExit m respLen = .error e)
    (hname : listName.length = fnsvcListNameMax + 1) (hreads : ∀ i ∈ reads, i < respLen) :
    PageRun m respLen ⟨⟨.error e, listName⟩, [], reads⟩ where
  exit := by rw [pageExit, h]
  args := by rw [pageArgs, h]; rfl
  sound := .of_reads hname hreads

/-- **A page.** On a response of at most 512 bytes the parser leaves as the exact integers
say, calls `cb` for exactly the entries that fit, reads only the response and keeps
`list_name` terminated. -/
theorem pageProg_run (m : Nat → UInt8) {respLen : Nat} (hlen : respLen ≤ fnsvcIoBufSize)
    {listName : List UInt8} (hname : listName.length = fnsvcListNameMax + 1) :
    PageRun m respLen (exec m (pageProg respLen listName)) := by
  unfold pageProg
  by_cases hshort : respLen < 10
  · rw [if_pos hshort]
    exact .of_header (by simp [headerExit, hshort]) hname (by simp)
  rw [if_neg hshort, exec_bind, exec_byte]
  by_cases hver : m 0 ≠ nioFileVersion
  · simp only [if_pos hver, exec_pure]
    refine .of_header (by simp [headerExit, hshort, hver]) hname ?_
    simp
    omega
  simp only [if_neg hver, exec_bind, exec_byte, exec_getU16le]
  by_cases hregion : u16 (10 + u16At m 8) > respLen
  · simp only [if_pos hregion, exec_pure]
    refine .of_header (by simp [headerExit, hshort, hver, hregion]) hname ?_
    simp
    omega
  simp only [if_neg hregion, exec_bind, exec_pure]
  -- past the header the loop decides
  have hheader : headerExit m respLen = .ok () := by
    simp [headerExit, hshort, hver, hregion]
  have hreads : ∀ i ∈ [0] ++ ([1] ++ ([6, 6 + 1] ++ [8, 8 + 1])), i < respLen := by
    simp
    omega
  have hpos : 10 ≤ respLen := by omega
  have hloop := entryLoop_run m (m 1) hlen (u16At m 6) hpos hname
  refine ⟨?_, ?_, ?_⟩
  · simp only [pageExit, hheader, hloop.parsed, decide_eq_true_eq]
  · simpa [pageArgs, hheader] using hloop.args
  · simpa using (SoundRun.of_reads hname hreads).append hloop.sound

/-- A page of one compact entry `a`, with two bytes after its region. -/
def compactPage : List UInt8 := [1, 2, 0, 0, 0, 0, 1, 0, 3, 0, 0, 1, 0x61, 0xFF, 0xFF]

/-- The callback gets the entry, and nothing is made of the bytes after the region. -/
example : pageArgs (listMem compactPage) compactPage.length = [⟨0, [0x61], 0, 0⟩] := by decide

end NioApps.Fnsvc
