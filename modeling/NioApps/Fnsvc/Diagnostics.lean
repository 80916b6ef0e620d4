import NioApps.Fnsvc.DiskContract
import NioApps.Fnsvc.ListBounds
import NioApps.Fnsvc.RequestFrames
import NioApps.Fnsvc.ResolveBounds

/-!
# Fnsvc — what a call leaves in the diagnostics

`fnsvc_last_error`, `fnsvc_last_status` and `fnsvc_last_response_len` after a listing, a resolve
or a restore, written as a function of the call and the replies it got: `diagnosticsOf` starts
from what the opening assignments leave and records one reply after the other.

* `answers` — the replies to the requests of a call.
* `Resets`, `Overruns`, `Strays` — a call that opens with the assignments; one that stores past
  `req_buf`; an answer whose second length is read past `resp_buf`.
* `makes_reqBuf` — no other call stores past `req_buf`.
* `makes_diagnostics` — a call that opens with them, and neither stores nor reads past a buffer,
  leaves `diagnosticsOf` of its own replies, with NONE exactly when it returned 1.
-/

namespace NioApps.Fnsvc

open BufProg

structure Diagnostics where
  error : FnsvcErr
  status : UInt8
  responseLen : Nat
  deriving DecidableEq

/-- What `fnsvc_last_error`, `fnsvc_last_status` and `fnsvc_last_response_len` return. -/
def World.diagnostics (w : World) : Diagnostics :=
  ⟨w.lastError, w.lastStatus, w.lastResponseLen⟩

/-- The replies to `requests`, sent one after the other once `past` has been sent. -/
def answers (dev : Device) : List Request → List Request → List Reply
  | _, [] => []
  | past, r :: requests => dev.respond past r :: answers dev (past ++ [r]) requests

theorem answers_concat (dev : Device) (past requests : List Request) (r : Request) :
    answers dev past (requests ++ [r]) =
      answers dev past requests ++ [dev.respond (past ++ requests) r] := by
  induction requests generalizing past with
  | nil => simp [answers]
  | cons r' requests ih => simp [answers, ih]

/-! ## Which calls, and which answers -/

/-- The calls whose outcome the diagnostics are about. -/
inductive FnsvcCall.Diagnosed : FnsvcCall → Prop where
  | listDirectory (uri : CStr) (cb : Bool) : Diagnosed (.listDirectory uri cb)
  | resolvePath (a : ResolveArgs) : Diagnosed (.resolvePath a)
  | restoreBoot (slot : UInt8) : Diagnosed (.disk (.restoreBoot slot))

/-- The calls that get to the four opening assignments. -/
def FnsvcCall.Resets : FnsvcCall → Prop
  | .listDirectory _ cb => cb = true
  | .resolvePath a => ∃ base, a.Valid base ∧ u16 (a.total base) ≤ fnsvcIoBufSize
  | .disk (.restoreBoot slot) => slot.toNat < fnctlMaxUnits
  | .disk _ => False

/-- The calls whose size check lets a request through that is longer than `req_buf`. -/
def FnsvcCall.Overruns : FnsvcCall → Prop
  | .listDirectory uri cb =>
    cb = true ∧ fnsvcIoBufSize < u16 uri.len + 8 ∧
      u16 uri.len + fnsvcListRequestOverhead ≤ fnsvcIoBufSize
  | .resolvePath a =>
    ∃ base, a.Valid base ∧ fnsvcIoBufSize < u16 base.len + u16 a.argStr.len + 5 ∧
      u16 (a.total base) ≤ fnsvcIoBufSize
  | .disk _ => False

/-- An answer to a resolve whose first length puts the second length at offset 65534 or 65535
of the 512 bytes of `resp_buf`. -/
def FnsvcCall.Strays : FnsvcCall → Reply → Prop
  | .resolvePath _, .answered status payload =>
    status = fnsvcStatusOk ∧ 8 ≤ payload.length ∧ listMem payload 0 = nioFileVersion ∧
      (firstLen (listMem payload) = 65528 ∨ firstLen (listMem payload) = 65529)
  | _, _ => False

/-- A listing that passes its size check and does not overrun has a uri that fits. -/
theorem listUriMax_of_not_overruns {uri : CStr}
    (hover : ¬ (FnsvcCall.listDirectory uri true).Overruns)
    (hchecked : u16 uri.len + fnsvcListRequestOverhead ≤ fnsvcIoBufSize) :
    u16 uri.len ≤ listUriMax := by
  have hnot : ¬ fnsvcIoBufSize < u16 uri.len + 8 := fun hlong => hover ⟨rfl, hlong, hchecked⟩
  have hle : u16 uri.len + 8 ≤ 512 := Nat.le_of_not_lt hnot
  show u16 uri.len ≤ 504
  omega

/-! ## Stores past `req_buf` -/

section Stores

variable {h : FujinetNio} {dev : Device} {w : World} {i : Nat}

variable (dev w) in
/-- A listing that does not overrun stores nothing past `req_buf`. -/
theorem listing_reqBuf {uri : CStr} (hover : ¬ (FnsvcCall.listDirectory uri true).Overruns)
    (hi : fnsvcIoBufSize ≤ i) (k : Nat) :
    (worldOf (fnsvcListDirectory dev uri true k w)).reqBuf i = w.reqBuf i := by
  rw [fnsvcListDirectory, if_pos rfl]
  apply Loop.after_preserves fun out => (worldOf out).reqBuf i = w.reqBuf i
  · intro s hs
    rcases Nat.lt_or_ge fnsvcIoBufSize (u16 uri.len + fnsvcListRequestOverhead) with hlarge | hchecked
    · rw [listStep_tooLarge dev s hlarge]
      exact hs
    · have hfit := listUriMax_of_not_overruns hover hchecked
      rw [(listStep_sends dev s hfit).2, withListRequest_of_ge hfit hi]
      exact hs
  · rfl

/-- The two bytes of a slot request are stored in `req_buf`. -/
theorem slotChunk_mem_of_ge (reqBuf : Nat → UInt8) (slot : UInt8) (hi : fnsvcIoBufSize ≤ i) :
    ((FrameBuf.mk reqBuf 0).put (slotChunk slot)).mem i = reqBuf i := by
  have hi' : 512 ≤ i := hi
  apply overlay_of_ge
  show 0 + 2 ≤ i
  omega

/-- A restore stores nothing past `req_buf`. -/
theorem fnsvcDiskRestoreBoot_reqBuf (slot : UInt8) (hi : fnsvcIoBufSize ≤ i) :
    (fnsvcDiskRestoreBoot h dev slot w).2.reqBuf i = w.reqBuf i := by
  unfold fnsvcDiskRestoreBoot
  split
  · rfl
  -- the two bytes of the request fit the transport, so that only the device can fail the call
  rw [diskExchange_reply (slotChunk_fits w.reqBuf slot) (by decide)]
  cases dev.respond w.clearLast.past _ with
  | failed code =>
    dsimp only
    obtain ⟨e, he⟩ := diskResult_records h false 0 0 _
    rw [he]
    exact slotChunk_mem_of_ge w.reqBuf slot hi
  | answered status payload =>
    dsimp only
    obtain ⟨e, he⟩ := diskResult_records h true status payload.length _
    obtain ⟨e', he'⟩ := restoreBootChecks_records status payload.length _
    rw [he', he]
    exact slotChunk_mem_of_ge w.reqBuf slot hi

/-- Nor does any other disk call: the mount checks its frame against the buffer first. -/
theorem diskCall_reqBuf (c : DiskCall) (hi : fnsvcIoBufSize ≤ i) :
    (c.call h dev w).2.reqBuf i = w.reqBuf i := by
  -- a rejected call stores nothing at all
  rcases Classical.em c.Rejected with hrejected | hargs
  · rw [(diskCall_run c w).rejected hrejected]
  cases c with
  | mount slot uri readonly sectorSizeHint =>
    -- the check of the mount counts all eight bytes of its header
    have hlen : u16 uri.len + 8 ≤ fnsvcIoBufSize :=
      Nat.le_of_not_lt fun hlt => hargs (.inr (.inr hlt))
    exact (congrFun (fnsvcDiskMount_sends h dev w hargs).2 i).trans (mountChunks_mem_of_ge hlen hi)
  | unmount slot =>
    have hsends := diskService_sends h dev nioDiskUnmount w (slotChunk_fits w.reqBuf slot)
      (show 16 ≤ fnctlMaxData by decide)
    have hslot : ¬ slot.toNat ≥ fnctlMaxUnits := hargs
    unfold DiskCall.call fnsvcDiskUnmount
    dsimp only
    rw [if_neg hslot, hsends.2]
    exact slotChunk_mem_of_ge w.reqBuf slot hi
  | restoreBoot slot => exact fnsvcDiskRestoreBoot_reqBuf slot hi

/-- **No other call stores past `req_buf`.** -/
theorem makes_reqBuf {c : FnsvcCall} {w' : World} {ret : Bool} (hmakes : Makes h dev c w ret w')
    (hover : ¬ c.Overruns) (hi : fnsvcIoBufSize ≤ i) : w'.reqBuf i = w.reqBuf i := by
  cases hmakes with
  | @listDirectory uri cb _ k r hr =>
    -- without a callback the listing returns before it stores anything
    cases cb with
    | false =>
      rw [← Sum.inr.inj hr]
      rfl
    | true =>
      have hkeeps := listing_reqBuf dev w hover hi k
      rw [hr] at hkeeps
      exact hkeeps
  | @resolvePath a =>
    by_cases hvalid : ∃ base, a.Valid base
    case neg =>
      rw [fnsvcResolvePath_invalid (not_exists.mp hvalid)]
      rfl
    obtain ⟨base, hvalid⟩ := hvalid
    rcases Nat.lt_or_ge 512 (u16 (a.total base)) with hlarge | hfit
    · rw [fnsvcResolvePath_tooLarge hvalid hlarge]
      rfl
    · -- what passes the check and does not overrun is inside
      have hinside : ¬ fnsvcIoBufSize < u16 base.len + u16 a.argStr.len + 5 :=
        fun hlong => hover ⟨base, hvalid, hlong, hfit⟩
      rw [(fnsvcResolvePath_sends dev w hvalid hfit).2]
      exact resolveBuf_mem_of_ge (Nat.le_of_not_lt hinside) hi
  | disk => exact diskCall_reqBuf _ hi

end Stores

/-! ## What a reply leaves -/

/-- The error of a page with status OK. -/
def pageVerdict (payload : List UInt8) : FnsvcErr :=
  match pageExit (listMem payload) payload.length with
  | .error e => e
  | .ok (flags, count) =>
    if flags &&& nioFileListRespMore ≠ 0 ∧ count = 0 then .shortResponse else .none

/-- The error of a resolved path with status OK. -/
def resolveVerdict (a : ResolveArgs) (payload : List UInt8) : FnsvcErr :=
  match (exec (listMem payload) (resolveProg a payload.length)).value with
  | .error e => e
  | .ok _ => .none

/-- The error of a restore answered with status OK. -/
def bootVerdict (payload : List UInt8) : FnsvcErr :=
  if payload.length < 12 then .shortResponse
  else if listMem payload 0 ≠ nioDiskVersion then .badVersion
  else .none

def FnsvcCall.verdict : FnsvcCall → List UInt8 → FnsvcErr
  | .listDirectory _ _ => pageVerdict
  | .resolvePath a => resolveVerdict a
  | .disk _ => bootVerdict

/-- What one more reply makes of the diagnostics. A transport failure leaves the status and the
length of the page before. -/
def FnsvcCall.record (c : FnsvcCall) (d : Diagnostics) : Reply → Diagnostics
  | .failed _ => { d with error := .transport }
  | .answered status payload =>
    ⟨if status = fnsvcStatusOk then c.verdict payload else .status, status, payload.length⟩

/-- The diagnostics before any reply. -/
def FnsvcCall.unsent : FnsvcCall → Diagnostics
  | .listDirectory uri _ =>
    ⟨if fnsvcIoBufSize < u16 uri.len + fnsvcListRequestOverhead then .requestTooLarge else .none,
      0, 0⟩
  | _ => ⟨.none, 0, 0⟩

/-- The diagnostics as a function of the call and its replies. -/
def FnsvcCall.diagnosticsOf (c : FnsvcCall) (replies : List Reply) : Diagnostics :=
  replies.foldl c.record c.unsent

/-- One reply more is recorded over what the replies before it left. -/
theorem diagnosticsOf_answers_concat (c : FnsvcCall) (dev : Device)
    (past requests : List Request) (r : Request) :
    c.diagnosticsOf (answers dev past (requests ++ [r])) =
      c.record (c.diagnosticsOf (answers dev past requests))
        (dev.respond (past ++ requests) r) := by
  simp [FnsvcCall.diagnosticsOf, answers_concat]

/-- Without a reply the diagnostics are those of a call that sends nothing. -/
theorem diagnosticsOf_answers_nil (c : FnsvcCall) (dev : Device) (past : List Request) :
    c.diagnosticsOf (answers dev past []) = c.unsent := rfl

theorem diagnosticsOf_answers_single (c : FnsvcCall) (dev : Device) (past : List Request)
    (r : Request) :
    c.diagnosticsOf (answers dev past [r]) = c.record c.unsent (dev.respond past r) := rfl

/-- What is to hold of a call made in `w`: it leaves the diagnostics of its own replies, with
NONE exactly when it returned 1. -/
structure OwnDiagnostics (dev : Device) (c : FnsvcCall) (w : World) (ret : Bool) (w' : World) :
    Prop where
  eq : w'.diagnostics = c.diagnosticsOf (answers dev w.past (sentSince w w'))
  none_iff : w'.lastError = .none ↔ ret = true

theorem sentSince_append {before after : World} {requests : List Request}
    (hpast : after.past = before.past ++ requests) : sentSince before after = requests := by
  rw [sentSince, hpast, List.drop_left]

/-! ## A listing -/

/-- A page refused for its header records an error. -/
theorem headerExit_ne_none {m : Nat → UInt8} {respLen : Nat} {e : FnsvcErr}
    (h : headerExit m respLen = .error e) : e ≠ .none := by
  rintro rfl
  unfold headerExit at h
  -- the three errors of the header
  split at h
  · simp at h
  · split at h
    · simp at h
    · split at h <;> simp at h

/-- A page refused for any reason records an error. -/
theorem pageExit_ne_none {m : Nat → UInt8} {respLen : Nat} {e : FnsvcErr}
    (h : pageExit m respLen = .error e) : e ≠ .none := by
  unfold pageExit at h
  split at h
  next e' he =>
    rw [← Except.error.inj h]
    exact headerExit_ne_none he
  · split at h
    · cases h
    · rw [← Except.error.inj h]
      simp

section List

variable {dev : Device} {uri : CStr} {w : World}

/-- What holds between two passes: nothing has gone wrong, and the diagnostics are those of the
replies so far. -/
structure PassDiagnostics (dev : Device) (uri : CStr) (w : World) (s : PageState) : Prop where
  listName_length : s.world.listName.length = fnsvcListNameMax + 1
  error : s.world.lastError = .none
  eq : ∃ requests, s.world.past = w.past ++ requests ∧
    s.world.diagnostics =
      (FnsvcCall.listDirectory uri true).diagnosticsOf (answers dev w.past requests)

/-- The same of a pass that leaves. -/
def OutcomeDiagnostics (dev : Device) (uri : CStr) (w : World) : PageState ⊕ ListResult → Prop
  | .inl s => PassDiagnostics dev uri w s
  | .inr r => OwnDiagnostics dev (.listDirectory uri true) w r.ret r.world

/-- A pass that leaves after one more reply leaves what the reply makes of the diagnostics. -/
theorem PassDiagnostics.leave {s : PageState} (hs : PassDiagnostics dev uri w s) {r : ListResult}
    (hpast : r.world.past = s.world.past ++ [listRequest uri s.start])
    (heq : r.world.diagnostics = (FnsvcCall.listDirectory uri true).record s.world.diagnostics
      (dev.respond s.world.past (listRequest uri s.start)))
    (hnone : r.world.lastError = .none ↔ r.ret = true) :
    OwnDiagnostics dev (.listDirectory uri true) w r.ret r.world := by
  obtain ⟨requests, hsent, hdiag⟩ := hs.eq
  rw [hsent, List.append_assoc] at hpast
  refine ⟨?_, hnone⟩
  rw [sentSince_append hpast, diagnosticsOf_answers_concat, ← hsent, ← hdiag, heq]

/-- A pass that goes on has recorded the reply to its request, and no error. -/
theorem PassDiagnostics.again {s s' : PageState} (hs : PassDiagnostics dev uri w s)
    (hname : s'.world.listName.length = fnsvcListNameMax + 1)
    (hpast : s'.world.past = s.world.past ++ [listRequest uri s.start])
    (heq : s'.world.diagnostics = (FnsvcCall.listDirectory uri true).record s.world.diagnostics
      (dev.respond s.world.past (listRequest uri s.start)))
    (herror : s'.world.lastError = .none) : PassDiagnostics dev uri w s' := by
  obtain ⟨requests, hsent, hdiag⟩ := hs.eq
  rw [hsent, List.append_assoc] at hpast
  refine ⟨hname, herror, requests ++ [listRequest uri s.start], hpast, ?_⟩
  rw [diagnosticsOf_answers_concat, ← hsent, ← hdiag, heq]

/-- An OK page goes on, or leaves, as its payload says. -/
theorem PassDiagnostics.page {s : PageState} (hs : PassDiagnostics dev uri w s)
    {payload : List UInt8} {out : Outcome PageEvent PageValue}
    (hresp : dev.respond s.world.past (listRequest uri s.start) = .answered fnsvcStatusOk payload)
    (hpage : PageRun (listMem payload) payload.length out) :
    OutcomeDiagnostics dev uri w
      (finishPage ((s.exchanged uri fnsvcStatusOk payload).observe payload.length out)
        (pageExit (listMem payload) payload.length)) := by
  have herror : s.world.lastError = .none := hs.error
  have hrecord : (FnsvcCall.listDirectory uri true).record s.world.diagnostics
      (dev.respond s.world.past (listRequest uri s.start)) =
        ⟨pageVerdict payload, fnsvcStatusOk, payload.length⟩ := by
    rw [hresp, FnsvcCall.record, if_pos rfl]
    rfl
  unfold pageVerdict at hrecord
  unfold finishPage
  cases hexit : pageExit (listMem payload) payload.length with
  | error e =>
    rw [hexit] at hrecord
    apply hs.leave rfl
    · rw [hrecord]
      rfl
    · simp [PageState.fail, World.fail, pageExit_ne_none hexit]
  | ok v =>
    obtain ⟨flags, count⟩ := v
    rw [hexit] at hrecord
    dsimp only at hrecord ⊢
    -- the last page, MORE with no entries, MORE
    split
    next hlast =>
      rw [if_neg (by simp [hlast])] at hrecord
      apply hs.leave rfl
      · rw [hrecord, ← herror]
        rfl
      · exact ⟨fun _ => rfl, fun _ => herror⟩
    next hmore =>
      split
      next hzero =>
        rw [if_pos ⟨hmore, hzero⟩] at hrecord
        apply hs.leave rfl
        · rw [hrecord]
          rfl
        · simp [PageState.fail, World.fail]
      next hcount =>
        rw [if_neg (by simp [hcount])] at hrecord
        apply hs.again hpage.sound.listName_length rfl
        · rw [hrecord, ← herror]
          rfl
        · exact herror

/-- **One pass.** It goes on with the diagnostics of one more reply, or leaves them. -/
theorem listStep_diagnostics (hfit : u16 uri.len ≤ listUriMax) {s : PageState}
    (hs : PassDiagnostics dev uri w s) : OutcomeDiagnostics dev uri w (listStep dev uri s) := by
  have hrun := listStep_run dev uri hs.listName_length
  have hchecked := listUriMax_checked hfit
  generalize listStep dev uri s = out at hrun
  cases hrun with
  -- a uri that fits is neither refused nor left unsent
  | tooLarge hlarge => exact absurd hchecked (Nat.not_le_of_lt hlarge)
  | unsent _ hlong => exact absurd hfit (Nat.not_le_of_lt hlong)
  | failed _ hresp =>
    apply hs.leave rfl
    · rw [hresp]
      rfl
    · simp [PageState.fail, World.fail]
  | refused _ hresp hstatus =>
    apply hs.leave rfl
    · rw [hresp, FnsvcCall.record, if_neg hstatus]
      rfl
    · simp [PageState.fail, World.fail]
  -- only a page can lead to another pass
  | page _ hresp hpage => exact hs.page hresp hpage

/-- The loop starts with nothing sent and nothing recorded. -/
theorem passDiagnostics_start (hfit : u16 uri.len ≤ listUriMax)
    (hname : w.listName.length = fnsvcListNameMax + 1) :
    PassDiagnostics dev uri w (listStart w) := by
  have hchecked := listUriMax_checked hfit
  refine ⟨hname, rfl, [], by simp [listStart, World.clearLast], ?_⟩
  rw [diagnosticsOf_answers_nil, FnsvcCall.unsent, if_neg (Nat.not_lt_of_le hchecked)]
  rfl

/-- **A listing** leaves the diagnostics of its own pages. -/
theorem fnsvcListDirectory_diagnostics (hname : w.listName.length = fnsvcListNameMax + 1)
    (hover : ¬ (FnsvcCall.listDirectory uri true).Overruns) {k : Nat} {r : ListResult}
    (hr : fnsvcListDirectory dev uri true k w = .inr r) :
    OwnDiagnostics dev (.listDirectory uri true) w r.ret r.world := by
  rw [fnsvcListDirectory, if_pos rfl] at hr
  rcases Nat.lt_or_ge fnsvcIoBufSize (u16 uri.len + fnsvcListRequestOverhead) with hlarge | hchecked
  · -- refused in the first pass
    have hleft : Loop.Returns (listStep dev uri) (listStart w)
        ((listStart w).fail .requestTooLarge) := .of_step (listStep_tooLarge dev _ hlarge)
    obtain rfl := hleft.unique ⟨k, hr⟩
    refine ⟨?_, by simp [PageState.fail, World.fail]⟩
    have hsent : sentSince w ((listStart w).fail .requestTooLarge).world = [] :=
      sentSince_eq_nil rfl
    rw [hsent, diagnosticsOf_answers_nil, FnsvcCall.unsent, if_pos hlarge]
    rfl
  · have hfit := listUriMax_of_not_overruns hover hchecked
    -- every pass records its reply, and the last one is what is left
    have hall := Loop.after_preserves (OutcomeDiagnostics dev uri w)
      (fun _ hs => listStep_diagnostics hfit hs) (passDiagnostics_start hfit hname) k
    rw [hr] at hall
    exact hall

end List

/-! ## A resolve -/

section Resolve

variable {dev : Device} {a : ResolveArgs} {base : CStr} {w : World}

/-- A field inside the reply is that of the reply, whatever stood in the buffer. -/
theorem u16At_overlay (m : Nat → UInt8) {payload : List UInt8} {i : Nat}
    (h : i + 1 < payload.length) : u16At (overlay m 0 payload) i = u16At (listMem payload) i := by
  unfold u16At
  rw [overlay_zero_of_lt h, overlay_zero_of_lt (Nat.lt_of_succ_lt h)]

/-- How the decoding ends after the first string: only the second length decides. -/
theorem value_resolveTail (m : Nat → UInt8) (a : ResolveArgs) (respLen : Nat) (flags : UInt8)
    (off : Nat) :
    (exec m (resolveTail a respLen flags off)).value =
      if u16 (u16 (off + 2) + u16At m off) > respLen then .error .shortResponse else .ok ⟨⟩ := by
  rw [exec_resolveTail]
  split <;> rfl

/-- How the decoding ends: the first length decides, and then the second. -/
theorem value_resolveProg (m : Nat → UInt8) (a : ResolveArgs) {respLen : Nat} (hlen : 8 ≤ respLen)
    (hver : m 0 = nioFileVersion) :
    (exec m (resolveProg a respLen)).value =
      if u16 (6 + u16At m 4 + 2) > respLen then .error .shortResponse
      else (exec m (resolveTail a respLen (m 1) (u16 (6 + u16At m 4)))).value := by
  rw [exec_resolveProg m a respLen hlen hver]
  split <;> rfl

/-- An answer to a resolve that is refused records an error. -/
theorem resolveProg_ne_none (m : Nat → UInt8) (a : ResolveArgs) {respLen : Nat} {e : FnsvcErr}
    (h : (exec m (resolveProg a respLen)).value = .error e) : e ≠ .none := by
  rintro rfl
  by_cases hbad : respLen < 8 ∨ m 0 ≠ nioFileVersion
  · rw [(exec_resolveProg_badVersion m a respLen hbad).1] at h
    simp at h
  · push Not at hbad
    rw [value_resolveProg m a hbad.1 hbad.2, value_resolveTail] at h
    split at h
    · simp at h
    · split at h <;> simp at h

/-- **The parser and the rest of `resp_buf`.** How the parser leaves depends on the answer alone,
unless the answer strays. -/
theorem value_resolveProg_overlay (m : Nat → UInt8) {payload : List UInt8}
    (hstay : ¬ (FnsvcCall.resolvePath a).Strays (.answered fnsvcStatusOk payload)) :
    (exec (overlay m 0 payload) (resolveProg a payload.length)).value =
      (exec (listMem payload) (resolveProg a payload.length)).value := by
  rcases Nat.lt_or_ge payload.length 8 with hshort | hlen
  · rw [(exec_resolveProg_badVersion _ a _ (.inl hshort)).1,
      (exec_resolveProg_badVersion _ a _ (.inl hshort)).1]
  have hbyte : overlay m 0 payload 0 = listMem payload 0 := overlay_zero_of_lt (by omega)
  by_cases hver : listMem payload 0 = nioFileVersion
  case neg =>
    rw [(exec_resolveProg_badVersion _ a _ (.inr (hbyte ▸ hver))).1,
      (exec_resolveProg_badVersion _ a _ (.inr hver)).1]
  have hfirst : u16At (overlay m 0 payload) 4 = u16At (listMem payload) 4 :=
    u16At_overlay m (by omega)
  rw [value_resolveProg _ a hlen (hbyte.trans hver), value_resolveProg _ a hlen hver, hfirst]
  split
  · rfl
  next hin =>
    -- the second length is inside the answer: at `6 + L` or, past `2 ^ 16`, at 0 to 5
    have hoff : u16 (6 + u16At (listMem payload) 4) + 1 < payload.length := by
      have hlt : u16At (listMem payload) 4 < 65536 := u16At_lt _ 4
      have hne : ¬ (u16At (listMem payload) 4 = 65528 ∨ u16At (listMem payload) 4 = 65529) :=
        fun heq => hstay ⟨rfl, hlen, hver, heq⟩
      generalize u16At (listMem payload) 4 = len at hin hlt hne
      unfold u16 at hin ⊢
      omega
    rw [value_resolveTail, value_resolveTail, u16At_overlay m hoff]

/-- What a resolve records of its answer. The answer must not stray, so that the second length is
read from the reply. -/
theorem resolveResponse_diagnostics (status : UInt8) {payload : List UInt8} (m : Nat → UInt8)
    (hbuf : w.respBuf = overlay m 0 payload) (hnone : w.lastError = .none)
    (hstay : ¬ (FnsvcCall.resolvePath a).Strays (.answered status payload)) (d : Diagnostics) :
    (resolveResponse a w status payload.length).world.diagnostics =
        (FnsvcCall.resolvePath a).record d (.answered status payload) ∧
      ((resolveResponse a w status payload.length).world.lastError = .none ↔
        (resolveResponse a w status payload.length).ret = true) := by
  unfold resolveResponse
  by_cases hstatus : status = fnsvcStatusOk
  -- a bad status is recorded, and nothing is decoded
  case neg =>
    rw [if_pos hstatus, FnsvcCall.record, if_neg hstatus]
    exact ⟨rfl, by simp [World.fail]⟩
  subst hstatus
  rw [if_neg (by simp), FnsvcCall.record, if_pos rfl, FnsvcCall.verdict, resolveVerdict]
  dsimp only
  -- the answer does not stray, so that what stood in the buffer before it plays no part
  rw [show (w.setLast fnsvcStatusOk payload.length).respBuf = overlay m 0 payload from hbuf,
    value_resolveProg_overlay m hstay]
  cases hvalue : (exec (listMem payload) (resolveProg a payload.length)).value with
  | error e => exact ⟨rfl, by simp [World.fail, resolveProg_ne_none _ a hvalue]⟩
  | ok _ => exact ⟨by rw [← hnone]; rfl, by simp [World.setLast, hnone]⟩

/-- **A resolve** leaves the diagnostics of its one reply. -/
theorem fnsvcResolvePath_diagnostics (hargs : (FnsvcCall.resolvePath a).Resets)
    (hstay : ∀ reply ∈ answers dev w.past (sentSince w (fnsvcResolvePath dev a w).world),
      ¬ (FnsvcCall.resolvePath a).Strays reply) :
    OwnDiagnostics dev (.resolvePath a) w (fnsvcResolvePath dev a w).ret
      (fnsvcResolvePath dev a w).world := by
  obtain ⟨base, hvalid, hfit⟩ := hargs
  have hsent := sentSince_append (fnsvcResolvePath_sends dev w hvalid hfit).1
  rw [hsent] at hstay
  have hreply := hstay _ (List.mem_singleton.mpr rfl)
  -- one request is sent, so that the diagnostics are those of its reply
  suffices hleft : (fnsvcResolvePath dev a w).world.diagnostics =
        (FnsvcCall.resolvePath a).record (FnsvcCall.resolvePath a).unsent
          (dev.respond w.past (w.resolveSent a base)) ∧
      ((fnsvcResolvePath dev a w).world.lastError = .none ↔
        (fnsvcResolvePath dev a w).ret = true) by
    refine ⟨?_, hleft.2⟩
    rw [hsent, diagnosticsOf_answers_single, hleft.1]
  rw [fnsvcResolvePath_exchange hvalid hfit]
  cases hresp : dev.respond w.past (w.resolveSent a base) with
  | failed code => exact ⟨rfl, by simp [World.fail]⟩
  | answered status payload =>
    rw [hresp] at hreply
    exact resolveResponse_diagnostics status w.respBuf rfl rfl hreply _

end Resolve

/-! ## A restore -/

section Disk

variable {h : FujinetNio} {dev : Device} {w : World}

/-- What a restore records of its answer. -/
theorem restoreBootChecks_diagnostics (slot : UInt8) {status : UInt8} {payload : List UInt8}
    (m : Nat → UInt8) (hbuf : w.respBuf = overlay m 0 payload)
    (hdiag : w.diagnostics = ⟨.none, status, payload.length⟩) (d : Diagnostics) :
    (restoreBootChecks status payload.length w).2.diagnostics =
        (FnsvcCall.disk (.restoreBoot slot)).record d (.answered status payload) ∧
      ((restoreBootChecks status payload.length w).2.lastError = .none ↔
        (restoreBootChecks status payload.length w).1 = true) := by
  have herror : w.lastError = .none := congrArg Diagnostics.error hdiag
  have hstatus : w.lastStatus = status := congrArg Diagnostics.status hdiag
  have hlen : w.lastResponseLen = payload.length := congrArg Diagnostics.responseLen hdiag
  unfold restoreBootChecks
  by_cases hok : status = fnsvcStatusOk
  -- a bad status is recorded, and the body is not looked at
  case neg =>
    rw [if_pos hok, FnsvcCall.record, if_neg hok]
    exact ⟨by simp [World.diagnostics, World.fail, hstatus, hlen], by simp [World.fail]⟩
  rw [if_neg (not_not.mpr hok), FnsvcCall.record, if_pos hok, FnsvcCall.verdict, bootVerdict]
  -- the body is checked for its length first, and then for its version
  rcases Nat.lt_or_ge payload.length 12 with hshort | hlong
  · rw [if_pos hshort, if_pos hshort]
    exact ⟨by simp [World.diagnostics, World.fail, hstatus, hlen], by simp [World.fail]⟩
  have hbyte : w.respBuf 0 = listMem payload 0 := by
    rw [hbuf]
    exact overlay_zero_of_lt (by omega)
  rw [if_neg (Nat.not_lt_of_le hlong), if_neg (Nat.not_lt_of_le hlong), hbyte]
  split
  · exact ⟨by simp [World.diagnostics, World.fail, hstatus, hlen], by simp [World.fail]⟩
  · exact ⟨hdiag, by simp [herror]⟩

/-- A restore of a valid slot sends its request and records the reply. -/
theorem fnsvcDiskRestoreBoot_leaves (h : FujinetNio) (dev : Device) {slot : UInt8}
    (hslot : slot.toNat < fnctlMaxUnits) (w : World) :
    (fnsvcDiskRestoreBoot h dev slot w).2.past =
        w.past ++ [(DiskCall.restoreBoot slot).request] ∧
      (fnsvcDiskRestoreBoot h dev slot w).2.diagnostics =
        (FnsvcCall.disk (.restoreBoot slot)).record (FnsvcCall.disk (.restoreBoot slot)).unsent
          (dev.respond w.past (DiskCall.restoreBoot slot).request) ∧
      ((fnsvcDiskRestoreBoot h dev slot w).2.lastError = .none ↔
        (fnsvcDiskRestoreBoot h dev slot w).1 = true) := by
  unfold fnsvcDiskRestoreBoot DiskCall.request
  rw [if_neg (Nat.not_le_of_lt hslot), diskExchange_reply (slotChunk_fits w.reqBuf slot)
    (by decide), slotChunk_frame, show w.clearLast.past = w.past from rfl]
  cases dev.respond w.past ⟨nioDeviceidDisk, nioDiskRestoreBoot, slotChunk slot, 16⟩ with
  | failed code => exact ⟨rfl, rfl, by simp [World.fail]⟩
  | answered status payload =>
    -- `disk_result` and the checks after it record an error each, and nothing else
    dsimp only
    obtain ⟨e, he⟩ := diskResult_records h true status payload.length _
    rw [he]
    refine ⟨?_, restoreBootChecks_diagnostics slot w.respBuf rfl rfl _⟩
    obtain ⟨e', he'⟩ := restoreBootChecks_records status payload.length _
    rw [he']
    rfl

/-- **A restore** leaves the diagnostics of its one reply. -/
theorem fnsvcDiskRestoreBoot_diagnostics {slot : UInt8} (hslot : slot.toNat < fnctlMaxUnits) :
    OwnDiagnostics dev (.disk (.restoreBoot slot)) w (fnsvcDiskRestoreBoot h dev slot w).1
      (fnsvcDiskRestoreBoot h dev slot w).2 := by
  obtain ⟨hpast, hdiag, hnone⟩ := fnsvcDiskRestoreBoot_leaves h dev hslot w
  refine ⟨?_, hnone⟩
  rw [sentSince_append hpast, diagnosticsOf_answers_single, hdiag]

end Disk

/-! ## Any of the three -/

/-- **What a call leaves in the diagnostics**: for every device and every state of the statics,
`diagnosticsOf` of its own replies, with NONE exactly when it returned 1. -/
theorem makes_diagnostics {h : FujinetNio} {dev : Device} {c : FnsvcCall} {w w' : World}
    {ret : Bool} (hmakes : Makes h dev c w ret w') (hname : w.listName.length = fnsvcListNameMax + 1)
    (hresets : c.Resets) (hover : ¬ c.Overruns)
    (hstay : ∀ reply ∈ answers dev w.past (sentSince w w'), ¬ c.Strays reply) :
    OwnDiagnostics dev c w ret w' := by
  cases hmakes with
  | @listDirectory uri cb _ k r hr =>
    obtain rfl : cb = true := hresets
    exact fnsvcListDirectory_diagnostics hname hover hr
  | resolvePath => exact fnsvcResolvePath_diagnostics hresets hstay
  | @disk c =>
    cases c with
    | restoreBoot slot => exact fnsvcDiskRestoreBoot_diagnostics hresets
    | mount _ _ _ _ => exact absurd hresets id
    | unmount _ => exact absurd hresets id

end NioApps.Fnsvc
