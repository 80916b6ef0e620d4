import NioApps.Fnsvc.ListPage
import NioApps.Lib.Loop

/-!
# Fnsvc — `fnsvc_list_directory`

The page loop around `pageProg`: build the request in `req_buf`, exchange it, parse the page,
advance `start` with a 16-bit addition, and go round again while the device sets MORE.
`listStep` is one pass; the loop is `Loop.after (listStep …)`, so that a call against a device
that never stops is a run like any other. Beside what the source keeps, the loop state carries
what an observer sees: the events of all pages and every read of `resp_buf`, with the response
length it was made under.

`listStep_page` is the pass on an answered exchange: the page leaves as `pageExit` says of the
payload alone. `listStep_run` lists everything a pass can do.
-/

namespace NioApps.Fnsvc

open BufProg

/-! ## The request -/

/-- The request as it is built in `req_buf`. -/
def listRequestBuf (reqBuf : Nat → UInt8) (uri : List UInt8) (uriLen start : Nat) : FrameBuf :=
  (FrameBuf.mk reqBuf 0).puts
    [[nioFileVersion], putU16le uriLen, uri.take uriLen, putU16le start,
      putU16le fnsvcListMaxPayload, [nioFileListFlagSortByName]]

/-- A listing request: a frame for the file device. -/
def listCall (frame : List UInt8) : Request where
  device := nioDeviceidFile
  command := nioFileListDirectory
  frame := frame
  capacity := fnsvcIoBufSize

/-- The frame for a uri and a start index: version, length-prefixed uri, start index, payload
limit and flags. -/
def listFrame (uri : List UInt8) (start : Nat) : List UInt8 :=
  nioFileVersion :: (leBytes 2 uri.length ++ (uri ++ (leBytes 2 start ++
    (leBytes 2 fnsvcListMaxPayload ++ [nioFileListFlagSortByName]))))

/-- The bytes of `uri` that `uri_len` counts: all of them below `2 ^ 16`. -/
def sentUri (uri : CStr) : List UInt8 := uri.bytes.take (u16 uri.len)

def listRequest (uri : CStr) (start : Nat) : Request := listCall (listFrame (sentUri uri) start)

/-- The start index a listing request carries, decoded from its bytes. -/
def Request.startIndex (r : Request) : Nat :=
  u16At (listMem r.frame) (3 + u16At (listMem r.frame) 1)

/-! ## The loop -/

/-- The state of the page loop: the statics, `start`, and what has been observed so far. -/
structure PageState where
  world : World
  start : Nat
  events : List PageEvent
  reads : List (Nat × Nat)

/-- How a call of `fnsvc_list_directory` ends. -/
structure ListResult where
  ret : Bool
  world : World
  events : List PageEvent
  reads : List (Nat × Nat)

def PageState.fail (s : PageState) (error : FnsvcErr) : ListResult :=
  ⟨false, s.world.fail error, s.events, s.reads⟩

/-- The observed part of a pass: its events and its reads under `respLen`. -/
def PageState.observe (s : PageState) (respLen : Nat) (out : Outcome PageEvent PageValue) :
    PageState where
  world := { s.world with listName := out.value.listName }
  start := s.start
  events := s.events ++ out.events
  reads := s.reads ++ out.reads.map fun i => (i, respLen)

/-- How a page that was parsed leaves the pass: advance `start`, stop when MORE is not set,
and let the progress guard reject MORE with no entries. -/
def finishPage (s : PageState) : Except FnsvcErr (UInt8 × Nat) → PageState ⊕ ListResult
  | .error e => .inr (s.fail e)
  | .ok (flags, count) =>
    -- `start = (uint16_t) (start + count)` comes before the progress guard
    let s := { s with start := u16 (s.start + count) }
    if flags &&& nioFileListRespMore = 0 then .inr ⟨true, s.world, s.events, s.reads⟩
    else if count = 0 then .inr (s.fail .shortResponse)
    else .inl s

/-- The pass after an answered exchange. -/
def listResponse (s : PageState) (status : UInt8) (respLen : Nat) : PageState ⊕ ListResult :=
  let s := { s with world := s.world.setLast status respLen }
  if status ≠ fnsvcStatusOk then .inr (s.fail .status)
  else
    let out := exec s.world.respBuf (pageProg respLen s.world.listName)
    finishPage (s.observe respLen out) out.value.exit

def listStep (dev : Device) (uri : CStr) (s : PageState) : PageState ⊕ ListResult :=
  let uriLen := u16 uri.len
  if uriLen + fnsvcListRequestOverhead > fnsvcIoBufSize then .inr (s.fail .requestTooLarge)
  else
    let b := listRequestBuf s.world.reqBuf uri.bytes uriLen s.start
    let w := { s.world with reqBuf := b.mem }
    match serviceCall dev (listCall b.frame) w with
    | (none, w) => .inr ({ s with world := w }.fail .transport)
    | (some (status, respLen), w) => listResponse { s with world := w } status respLen

def listStart (w : World) : PageState := ⟨w.clearLast, 0, [], []⟩

/-- `fnsvc_list_directory`, after at most `k` passes of the page loop. -/
def fnsvcListDirectory (dev : Device) (uri : CStr) (cb : Bool) (k : Nat) (w : World) :
    PageState ⊕ ListResult :=
  if cb then Loop.after (listStep dev uri) k (listStart w)
  else .inr ⟨false, w.fail .invalidArg, [], []⟩

/-- The listing requests a call sent, given the world it was made in and the one it left. -/
def sentSince (before after : World) : List Request := after.past.drop before.past.length

/-! ## What a pass sends -/

/-- The longest uri whose frame fits `req_buf`: the frame has eight bytes beside the uri. -/
def listUriMax : Nat := fnsvcIoBufSize - 8

theorem listFrame_length (uri : List UInt8) (start : Nat) :
    (listFrame uri start).length = uri.length + 8 := by
  simp [listFrame]
  omega

theorem sentUri_length (uri : CStr) : (sentUri uri).length = u16 uri.len := take_length_u16 uri

/-- **The request of a pass.** Whatever the length check lets through is built into the frame
for the bytes `uri_len` counts. -/
theorem listRequestBuf_frame (reqBuf : Nat → UInt8) {uri : CStr}
    (h : u16 uri.len + fnsvcListRequestOverhead ≤ fnsvcIoBufSize) (start : Nat) :
    (listRequestBuf reqBuf uri.bytes (u16 uri.len) start).frame =
      listFrame (sentUri uri) start := by
  have hlen : u16 uri.len + 6 ≤ 512 := h
  have hsent := sentUri_length uri
  -- at most 514 bytes are put, so the cursor does not wrap
  rw [listRequestBuf, show uri.bytes.take (u16 uri.len) = sentUri uri from rfl,
    FrameBuf.frame_puts, FrameBuf.frame_start]
  · simp [listFrame, putU16le_eq, hsent]
  · simp [hsent]
    omega

/-- The start index in a request is the one it was made with. -/
theorem startIndex_listRequest (uri : CStr) {start : Nat} (hstart : start < 65536) :
    (listRequest uri start).startIndex = start := by
  have hsent : (sentUri uri).length < 65536 := by
    rw [sentUri_length]
    exact u16_lt uri.len
  let tail := leBytes 2 fnsvcListMaxPayload ++ [nioFileListFlagSortByName]
  -- the uri length is the field after the version byte
  have huri : u16At (listMem (listFrame (sentUri uri) start)) 1 = (sentUri uri).length :=
    u16At_listMem [nioFileVersion] (sentUri uri ++ (leBytes 2 start ++ tail)) hsent
  -- the start index is the field after the uri
  have hpre : listFrame (sentUri uri) start =
      (nioFileVersion :: (leBytes 2 (sentUri uri).length ++ sentUri uri)) ++
        (leBytes 2 start ++ tail) := by
    simp [listFrame, tail]
  have hfield := u16At_listMem
    (nioFileVersion :: (leBytes 2 (sentUri uri).length ++ sentUri uri)) tail hstart
  unfold Request.startIndex listRequest listCall
  simp only
  rw [huri, hpre]
  rw [show 3 + (sentUri uri).length =
      (nioFileVersion :: (leBytes 2 (sentUri uri).length ++ sentUri uri)).length from by
    simp
    omega]
  exact hfield

/-! ## What a pass does -/

/-- The statics with the request of a pass built in `req_buf`. -/
def World.withListRequest (w : World) (uri : CStr) (start : Nat) : World :=
  { w with reqBuf := (listRequestBuf w.reqBuf uri.bytes (u16 uri.len) start).mem }

/-- The state of a pass whose exchange was answered, before the page is looked at. -/
def PageState.exchanged (s : PageState) (uri : CStr) (status : UInt8) (payload : List UInt8) :
    PageState :=
  { s with
    world := ((s.world.withListRequest uri s.start).answeredCall
      (listRequest uri s.start) payload).setLast status payload.length }

/-- A uri over the checked length is refused before anything is stored. -/
theorem listStep_tooLarge (dev : Device) {uri : CStr} (s : PageState)
    (h : fnsvcIoBufSize < u16 uri.len + fnsvcListRequestOverhead) :
    listStep dev uri s = .inr (s.fail .requestTooLarge) := by
  unfold listStep
  rw [if_pos h]

/-- Any other pass stores the frame and makes its call. -/
theorem listStep_call (dev : Device) {uri : CStr} (s : PageState)
    (h : u16 uri.len + fnsvcListRequestOverhead ≤ fnsvcIoBufSize) :
    listStep dev uri s =
      match serviceCall dev (listRequest uri s.start) (s.world.withListRequest uri s.start) with
      | (none, w) => .inr ({ s with world := w }.fail .transport)
      | (some (status, respLen), w) => listResponse { s with world := w } status respLen := by
  unfold listStep
  rw [if_neg (by omega)]
  simp only [listRequestBuf_frame _ h]
  rfl

/-- The statics after a call that `fnctl_nio_call` refused for its size. -/
def World.unsentCall (w : World) : World :=
  { w with lastRawError := UInt8.ofNat w.lastDosError }

/-- **A frame that does not fit.** The length check allows for six bytes beside the uri where
the frame has eight: two uri lengths get past it with a frame longer than `FNCTL_MAX_DATA`,
which `fnctl_nio_call` refuses without sending anything. -/
theorem listStep_unsent (dev : Device) {uri : CStr} (s : PageState)
    (h : u16 uri.len + fnsvcListRequestOverhead ≤ fnsvcIoBufSize)
    (hlong : listUriMax < u16 uri.len) :
    listStep dev uri s = .inr ({ s with
      world := (s.world.withListRequest uri s.start).unsentCall }.fail .transport) := by
  have hmax : 504 < u16 uri.len := hlong
  have hsize : (listRequest uri s.start).frame.length > fnctlMaxData := by
    simp only [listRequest, listCall, listFrame_length, sentUri_length, fnctlMaxData]
    omega
  rw [listStep_call dev s h]
  simp [serviceCall, fnctlNioCall, hsize, World.unsentCall]

/-- Up to 504 bytes the whole frame fits the transport. -/
theorem listRequest_fits {uri : CStr} (h : u16 uri.len ≤ listUriMax) (start : Nat) :
    (listRequest uri start).frame.length ≤ fnctlMaxData := by
  have hmax : u16 uri.len ≤ 504 := h
  simp only [listRequest, listCall, listFrame_length, sentUri_length, fnctlMaxData]
  omega

/-- The check of the code lets these through. -/
theorem listUriMax_checked {uri : CStr} (h : u16 uri.len ≤ listUriMax) :
    u16 uri.len + fnsvcListRequestOverhead ≤ fnsvcIoBufSize := by
  have hmax : u16 uri.len ≤ 504 := h
  simp only [fnsvcListRequestOverhead, fnsvcIoBufSize, fnctlMaxData]
  omega

/-- A pass whose call fails ends the listing. -/
theorem listStep_failed {dev : Device} {uri : CStr} {s : PageState} {code : UInt8}
    (hfit : u16 uri.len ≤ listUriMax)
    (hresp : dev.respond s.world.past (listRequest uri s.start) = .failed code) :
    listStep dev uri s = .inr ({ s with
      world := (s.world.withListRequest uri s.start).failedCall
        (listRequest uri s.start) code }.fail .transport) := by
  have hresp' : dev.respond (s.world.withListRequest uri s.start).past
      (listRequest uri s.start) = .failed code := hresp
  rw [listStep_call dev s (listUriMax_checked hfit),
    serviceCall_failed (listRequest_fits hfit _) (Nat.le_refl _) hresp']

/-- A pass whose call is answered goes on with the answer. -/
theorem listStep_answered {dev : Device} {uri : CStr} {s : PageState} {status : UInt8}
    {payload : List UInt8} (hfit : u16 uri.len ≤ listUriMax)
    (hresp : dev.respond s.world.past (listRequest uri s.start) = .answered status payload) :
    listStep dev uri s = listResponse { s with
      world := (s.world.withListRequest uri s.start).answeredCall
        (listRequest uri s.start) payload } status payload.length := by
  have hresp' : dev.respond (s.world.withListRequest uri s.start).past
      (listRequest uri s.start) = .answered status payload := hresp
  rw [listStep_call dev s (listUriMax_checked hfit),
    serviceCall_answered (listRequest_fits hfit _) (Nat.le_refl _) hresp']

/-- What the parser does on `resp_buf` after an answered exchange, it does on the payload
alone: it reads nothing else. -/
theorem exec_pageProg_payload (m : Nat → UInt8) {payload : List UInt8}
    (hlen : payload.length ≤ fnsvcIoBufSize) {listName : List UInt8}
    (hname : listName.length = fnsvcListNameMax + 1) :
    exec (overlay m 0 payload) (pageProg payload.length listName) =
      exec (listMem payload) (pageProg payload.length listName) := by
  have hbelow : ReadsBelow (listMem payload) payload.length
      (pageProg payload.length listName) :=
    (pageProg_run (listMem payload) hlen hname).sound.reads_lt
  exact hbelow.exec_congr fun i hi => (overlay_zero_of_lt hi).symm

/-- **One answered pass.** A non-OK status fails the call; otherwise the page leaves as the
exact integers of its payload say, whatever `resp_buf` held before. -/
theorem listStep_page {dev : Device} {uri : CStr} {s : PageState} {status : UInt8}
    {payload : List UInt8} (hfit : u16 uri.len ≤ listUriMax)
    (hresp : dev.respond s.world.past (listRequest uri s.start) = .answered status payload)
    (hname : s.world.listName.length = fnsvcListNameMax + 1) :
    (status ≠ fnsvcStatusOk →
      listStep dev uri s = .inr ((s.exchanged uri status payload).fail .status)) ∧
    (status = fnsvcStatusOk → ∃ out, PageRun (listMem payload) payload.length out ∧
      listStep dev uri s =
        finishPage ((s.exchanged uri status payload).observe payload.length out)
          (pageExit (listMem payload) payload.length)) := by
  rw [listStep_answered hfit hresp]
  constructor
  · intro hstatus
    rw [listResponse, if_pos hstatus]
    rfl
  · intro hstatus
    -- the answer fits `resp_buf`, so that the page is decoded from the answer alone
    have hlen : payload.length ≤ fnsvcIoBufSize := dev.within_capacity _ _ _ _ hresp
    have hrun := pageProg_run (listMem payload) hlen hname
    refine ⟨_, hrun, ?_⟩
    rw [listResponse, if_neg (by simp [hstatus]), ← hrun.exit,
      ← exec_pageProg_payload s.world.respBuf hlen hname]
    rfl

/-- What a pass can do: be refused for the length of the uri, be refused for the length of
the frame, fail in the transport, fail by its status, or parse a page. -/
inductive PassRun (dev : Device) (uri : CStr) (s : PageState) : PageState ⊕ ListResult → Prop where
  | tooLarge (h : fnsvcIoBufSize < u16 uri.len + fnsvcListRequestOverhead) :
      PassRun dev uri s (.inr (s.fail .requestTooLarge))
  | unsent (h : u16 uri.len + fnsvcListRequestOverhead ≤ fnsvcIoBufSize)
      (hlong : listUriMax < u16 uri.len) :
      PassRun dev uri s (.inr ({ s with
        world := (s.world.withListRequest uri s.start).unsentCall }.fail .transport))
  | failed {code : UInt8} (hfit : u16 uri.len ≤ listUriMax)
      (hresp : dev.respond s.world.past (listRequest uri s.start) = .failed code) :
      PassRun dev uri s (.inr ({ s with
        world := (s.world.withListRequest uri s.start).failedCall
          (listRequest uri s.start) code }.fail .transport))
  | refused {status : UInt8} {payload : List UInt8} (hfit : u16 uri.len ≤ listUriMax)
      (hresp : dev.respond s.world.past (listRequest uri s.start) = .answered status payload)
      (hstatus : status ≠ fnsvcStatusOk) :
      PassRun dev uri s (.inr ((s.exchanged uri status payload).fail .status))
  | page {payload : List UInt8} {out : Outcome PageEvent PageValue}
      (hfit : u16 uri.len ≤ listUriMax)
      (hresp : dev.respond s.world.past (listRequest uri s.start) =
        .answered fnsvcStatusOk payload)
      (hrun : PageRun (listMem payload) payload.length out) :
      PassRun dev uri s
        (finishPage ((s.exchanged uri fnsvcStatusOk payload).observe payload.length out)
          (pageExit (listMem payload) payload.length))

/-- What one pass does, for every reply: refused, failed, answered with a bad status, or a page. -/
theorem listStep_run (dev : Device) (uri : CStr) {s : PageState}
    (hname : s.world.listName.length = fnsvcListNameMax + 1) :
    PassRun dev uri s (listStep dev uri s) := by
  -- the check of the code, and then the limit of the transport
  by_cases hcheck : fnsvcIoBufSize < u16 uri.len + fnsvcListRequestOverhead
  · rw [listStep_tooLarge dev s hcheck]
    exact .tooLarge hcheck
  have hchecked : u16 uri.len + fnsvcListRequestOverhead ≤ fnsvcIoBufSize := by omega
  by_cases hlong : listUriMax < u16 uri.len
  · rw [listStep_unsent dev s hchecked hlong]
    exact .unsent hchecked hlong
  have hfit : u16 uri.len ≤ listUriMax := by omega
  cases hresp : dev.respond s.world.past (listRequest uri s.start) with
  | failed code =>
    rw [listStep_failed hfit hresp]
    exact .failed hfit hresp
  | answered status payload =>
    -- the device answered
    obtain ⟨hbad, hok⟩ := listStep_page hfit hresp hname
    by_cases hstatus : status = fnsvcStatusOk
    · obtain ⟨out, hrun, hstep⟩ := hok hstatus
      rw [hstep, hstatus]
      exact .page hfit (by rw [hresp, hstatus]) hrun
    · rw [hbad hstatus]
      exact .refused hfit hresp hstatus

/-! ## What is observed of a call, running or left -/

def worldOf : PageState ⊕ ListResult → World
  | .inl s => s.world
  | .inr r => r.world

def eventsOf : PageState ⊕ ListResult → List PageEvent
  | .inl s => s.events
  | .inr r => r.events

/-- The reads of `resp_buf` so far, each with the response length of its page. -/
def readsOf : PageState ⊕ ListResult → List (Nat × Nat)
  | .inl s => s.reads
  | .inr r => r.reads

def retOf : PageState ⊕ ListResult → Option Bool
  | .inl _ => none
  | .inr r => some r.ret

/-- A parsed page changes nothing of what has been observed and sent. -/
theorem finishPage_keeps (s : PageState) (exit : Except FnsvcErr (UInt8 × Nat)) :
    eventsOf (finishPage s exit) = s.events ∧ readsOf (finishPage s exit) = s.reads ∧
      (worldOf (finishPage s exit)).listName = s.world.listName ∧
      (worldOf (finishPage s exit)).past = s.world.past := by
  cases exit with
  | error e => exact ⟨rfl, rfl, rfl, rfl⟩
  | ok v =>
    obtain ⟨flags, count⟩ := v
    unfold finishPage
    dsimp only
    -- the last page, MORE with no entries, MORE
    split
    · exact ⟨rfl, rfl, rfl, rfl⟩
    · split <;> exact ⟨rfl, rfl, rfl, rfl⟩

/-- The end of a page does not touch the request buffer. -/
theorem reqBuf_finishPage (s : PageState) (exit : Except FnsvcErr (UInt8 × Nat)) :
    (worldOf (finishPage s exit)).reqBuf = s.world.reqBuf := by
  cases exit with
  | error e => rfl
  | ok v =>
    unfold finishPage
    dsimp only
    split
    · rfl
    · split <;> rfl

@[simp] theorem eventsOf_finishPage (s : PageState) (exit : Except FnsvcErr (UInt8 × Nat)) :
    eventsOf (finishPage s exit) = s.events := (finishPage_keeps s exit).1

@[simp] theorem readsOf_finishPage (s : PageState) (exit : Except FnsvcErr (UInt8 × Nat)) :
    readsOf (finishPage s exit) = s.reads := (finishPage_keeps s exit).2.1

@[simp] theorem listName_finishPage (s : PageState) (exit : Except FnsvcErr (UInt8 × Nat)) :
    (worldOf (finishPage s exit)).listName = s.world.listName := (finishPage_keeps s exit).2.2.1

@[simp] theorem past_finishPage (s : PageState) (exit : Except FnsvcErr (UInt8 × Nat)) :
    (worldOf (finishPage s exit)).past = s.world.past := (finishPage_keeps s exit).2.2.2

/-- The loop goes on only after an accepted page with MORE and at least one entry. -/
theorem finishPage_inl {s s' : PageState} {exit : Except FnsvcErr (UInt8 × Nat)}
    (h : finishPage s exit = .inl s') :
    ∃ flags count, exit = .ok (flags, count) ∧ flags &&& nioFileListRespMore ≠ 0 ∧ count ≠ 0 ∧
      s' = { s with start := u16 (s.start + count) } := by
  unfold finishPage at h
  split at h
  · cases h
  next flags count =>
    dsimp only at h
    split at h
    · cases h
    next hmore =>
      split at h
      · cases h
      next hcount => exact ⟨flags, count, rfl, hmore, hcount, (Sum.inl.inj h).symm⟩

/-- What is made of an answer sends nothing and stores nothing in `req_buf`. -/
theorem listResponse_keeps (s : PageState) (status : UInt8) (respLen : Nat) :
    (worldOf (listResponse s status respLen)).past = s.world.past ∧
      (worldOf (listResponse s status respLen)).reqBuf = s.world.reqBuf := by
  unfold listResponse
  dsimp only
  split
  · exact ⟨rfl, rfl⟩
  · exact ⟨past_finishPage _ _, reqBuf_finishPage _ _⟩

/-- **What a pass leaves of its request**: it is recorded, and stands in `req_buf`. -/
theorem listStep_sends (dev : Device) {uri : CStr} (s : PageState)
    (hfit : u16 uri.len ≤ listUriMax) :
    (worldOf (listStep dev uri s)).past = s.world.past ++ [listRequest uri s.start] ∧
      (worldOf (listStep dev uri s)).reqBuf = (s.world.withListRequest uri s.start).reqBuf := by
  cases hresp : dev.respond s.world.past (listRequest uri s.start) with
  | failed code =>
    rw [listStep_failed hfit hresp]
    exact ⟨rfl, rfl⟩
  | answered status payload =>
    rw [listStep_answered hfit hresp]
    exact listResponse_keeps _ status payload.length

/-- Past the longest uri a pass sends nothing and the call returns 0. -/
theorem listStep_refuses (dev : Device) {uri : CStr} (s : PageState)
    (hlong : listUriMax < u16 uri.len) :
    ∃ r, listStep dev uri s = .inr r ∧ r.ret = false ∧ r.world.past = s.world.past := by
  rcases Nat.lt_or_ge fnsvcIoBufSize (u16 uri.len + fnsvcListRequestOverhead) with hlarge | hchecked
  · exact ⟨_, listStep_tooLarge dev s hlarge, rfl, rfl⟩
  · exact ⟨_, listStep_unsent dev s hchecked hlong, rfl, rfl⟩

/-- A uri of `n` letters. -/
def letters (n : Nat) : CStr := ⟨List.replicate n 0x61, by simp⟩

end NioApps.Fnsvc
