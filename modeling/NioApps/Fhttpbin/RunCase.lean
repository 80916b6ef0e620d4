import NioApps.Fhttpbin.BuildUrl
import NioApps.Fhttpbin.ReadBody

/-!
# Fhttpbin — `run_case`

One case of the smoke test: open, write and commit the body, ask for the status, read the response
unless the method is HEAD, look for the expected text and close.

* `runCase` — the function, with the calls of the library it makes.
* `Sound` — what a verdict of 1 should rest on.
* `Checked` — what the function itself checks on the way to that verdict.
* `NothingMissed` — that none of the four outcomes occurs that it lets pass.
* `runCase_sound_iff` — a verdict of 1 is sound exactly where none of the four occurs.
-/

namespace NioApps.Fhttpbin

/-! ## The library -/

/-- What `fn_write` answers to a request of `requested` bytes. -/
structure WriteOutcome (requested : Nat) where
  result : UInt8
  written : Nat
  upTo : written ≤ requested

/-- What `fn_info` answers. -/
structure InfoOutcome where
  result : UInt8
  status : UInt16
  flags : UInt8

/-- What the library answers during one case. -/
structure Network (build : Build) where
  openResult : UInt8
  write : (requested : Nat) → WriteOutcome requested
  commit : WriteOutcome 0
  info : InfoOutcome
  reads : Nat → ReadOutcome build
  closeResult : UInt8

/-- The calls of one case, with their arguments and what they answered. -/
inductive LibCall (build : Build) where
  | opened (method : UInt8) (url : List UInt8) (flags result : UInt8)
  | write (offset : Nat) (data : List UInt8) (result : UInt8) (written : Nat)
  | info (outcome : InfoOutcome)
  | read (call : ReadCall build)
  | closed (result : UInt8)

def LibCall.result {build : Build} : LibCall build → UInt8
  | .opened _ _ _ result => result
  | .write _ _ result _ => result
  | .info outcome => outcome.result
  | .read call => call.outcome.result
  | .closed result => result

/-! ## The function -/

/-- The arguments of `run_case`: `base_url` and the fields of `test` that decide something. -/
structure CaseArgs (build : Build) extends UrlArgs build where
  method : UInt8
  body : Option CStr
  expectStatus : UInt16
  expectBody : Option CStr
  flags : UInt8

/-- What `run_case` leaves: the value it returns, the calls it made, `url_buf` and `body_buf`. -/
structure CaseResult (build : Build) where
  ret : Nat
  calls : List (LibCall build)
  urlBuf : List UInt8
  body : Nat → UInt8

/-- The bytes of `body_buf`. -/
def bodyBuf (body : Nat → UInt8) : List UInt8 := (List.range (maxBody + 1)).map body

section

variable (h : NetworkHeader) {build : Build}

/-- `get_info`: its result and `*http_status`. -/
def getInfo (info : InfoOutcome) : UInt8 × UInt16 :=
  if info.result ≠ h.fnOk then (info.result, 0)
  else if info.flags &&& h.infoHasStatus ≠ 0 then (h.fnOk, info.status)
  else (h.fnOk, 0)

/-- `if (test->body)`: whether the case goes on, and the calls made. -/
def sendBody (body : Option CStr) (net : Network build) : Bool × List (LibCall build) :=
  match body with
  | none => (true, [])
  | some body =>
    let requested := u16 body.len
    let write := net.write requested
    let writeCall : LibCall build :=
      .write 0 (body.bytes.take requested) write.result write.written
    if write.result ≠ h.fnOk then (false, [writeCall])
    else
      let commitCall : LibCall build :=
        .write write.written [] net.commit.result net.commit.written
      if net.commit.result ≠ h.fnOk then (false, [writeCall, commitCall])
      else (true, [writeCall, commitCall])

/-- From the test for the expected text on. -/
def finish (args : CaseArgs build) (net : Network build) (ok : Bool) (s : CaseResult build) :
    CaseResult build :=
  let missing :=
    match args.expectBody with
    | none => false
    | some expected => !strstr (bodyBuf s.body) expected.bytes
  let ok := ok && !missing && net.closeResult == h.fnOk
  { s with ret := if ok then 1 else 0, calls := s.calls ++ [.closed net.closeResult] }

/-- `run_case`, with the read loop within a number of passes. -/
def runCase (fuel : Nat) (args : CaseArgs build) (net : Network build) (urlBuf : List UInt8)
    (body : Nat → UInt8) : Option (CaseResult build) :=
  let url := buildUrl args.toUrlArgs urlBuf
  let urlBuf := url.2
  if url.1 = false then some ⟨0, [], urlBuf, body⟩
  else
    let opened : List (LibCall build) :=
      [.opened args.method (cstr urlBuf) args.flags net.openResult]
    if net.openResult ≠ h.fnOk then some ⟨0, opened, urlBuf, body⟩
    else
      let sent := sendBody h args.body net
      if sent.1 = false then
        some ⟨0, opened ++ sent.2 ++ [.closed net.closeResult], urlBuf, body⟩
      else
        let calls := opened ++ sent.2 ++ [.info net.info]
        let info := getInfo h net.info
        let ok := !(info.1 == h.fnOk && info.2 != 0 && info.2 != args.expectStatus)
        if args.method ≠ h.methodHead then
          (readBody h net.reads fuel (some 0) body).map fun r =>
            let calls := calls ++ r.calls.map .read
            if r.result ≠ h.fnOk then
              ⟨0, calls ++ [.closed net.closeResult], urlBuf, r.body⟩
            else finish h args net ok ⟨0, calls, urlBuf, r.body⟩
        else some (finish h args net ok ⟨0, calls, urlBuf, body⟩)

/-! ## What a verdict should rest on -/

/-- The body received by the calls of a case. -/
def received (calls : List (LibCall build)) : List UInt8 :=
  calls.flatMap fun
    | .read call => call.delivered h
    | _ => []

/-- What a verdict of 1 should rest on, in terms of the calls that were made. -/
structure Sound (args : CaseArgs build) (calls : List (LibCall build)) : Prop where
  body : ∀ body, args.body = some body →
    .write 0 body.bytes h.fnOk body.len ∈ calls ∧
      ∃ written, .write body.len [] h.fnOk written ∈ calls
  info : ∃ outcome, .info outcome ∈ calls ∧ outcome.result = h.fnOk ∧
    (outcome.flags &&& h.infoHasStatus ≠ 0 → outcome.status = args.expectStatus)
  needed : (∃ url, .opened args.method url args.flags h.fnOk ∈ calls) ∧ .closed h.fnOk ∈ calls ∧
    (args.method ≠ h.methodHead → ∃ call, .read call ∈ calls ∧ call.Ends h)
  allOk : ∀ call ∈ calls, call.result = h.fnOk ∨ ∃ read, call = .read read ∧ read.again h = true
  found : ∀ expected, args.expectBody = some expected → expected.bytes <:+: received h calls

/-- What `run_case` checks on the way to a verdict of 1, in terms of the case, of what the library
answers and of `body_buf` before the call. -/
structure Checked (args : CaseArgs build) (net : Network build) (body : Nat → UInt8) : Prop where
  url : args.baseUrl.len + args.path.len + 1 ≤ build.urlMax
  opened : net.openResult = h.fnOk
  sent : ∀ body, args.body = some body →
    (net.write (u16 body.len)).result = h.fnOk ∧ net.commit.result = h.fnOk
  status : net.info.result = h.fnOk → net.info.flags &&& h.infoHasStatus ≠ 0 →
    net.info.status ≠ 0 → net.info.status = args.expectStatus
  answered : args.method ≠ h.methodHead → ∃ n, Answered h net.reads n ∧
    ∀ expected, args.expectBody = some expected →
      strstr ((response h net.reads n).take maxBody) expected.bytes = true
  stale : args.method = h.methodHead → ∀ expected, args.expectBody = some expected →
    strstr (bodyBuf body) expected.bytes = true
  closed : net.closeResult = h.fnOk

/-- None of the four outcomes that `run_case` lets pass: a body accepted in part only, a failed
`fn_info`, a reported status of 0, and a HEAD case that expects a text. -/
structure NothingMissed (args : CaseArgs build) (net : Network build) : Prop where
  whole : ∀ body, args.body = some body → (net.write (u16 body.len)).written = body.len
  info : net.info.result = h.fnOk
  status : net.info.flags &&& h.infoHasStatus ≠ 0 → net.info.status = 0 → args.expectStatus = 0
  head : args.method = h.methodHead → ∀ expected, args.expectBody = some expected →
    expected.bytes = []

/-- The calls of `read_body` on the way to a verdict of 1. -/
structure ResponseRead (fuel : Nat) (args : CaseArgs build) (net : Network build)
    (body : Nat → UInt8) (reads : List (ReadCall build)) : Prop where
  ofHead : args.method = h.methodHead → reads = []
  ofOther : args.method ≠ h.methodHead → ∃ r, readBody h net.reads fuel (some 0) body = some r ∧
    r.result = h.fnOk ∧ r.calls = reads ∧ ∀ expected, args.expectBody = some expected →
      strstr (bodyBuf r.body) expected.bytes = true

/-- A run that passed: its checks, and the calls it made. -/
structure Passed (fuel : Nat) (args : CaseArgs build) (net : Network build)
    (body : Nat → UInt8) (calls : List (LibCall build)) : Prop where
  checked : Checked h args net body
  made : ∃ url reads, ResponseRead h fuel args net body reads ∧
    calls = [.opened args.method url args.flags h.fnOk] ++ (sendBody h args.body net).2 ++
      [.info net.info] ++ reads.map .read ++ [.closed h.fnOk]

/-! ## One lemma for each part of the function -/

variable {h} {args : CaseArgs build} {net : Network build} {fuel : Nat} {urlBuf : List UInt8}
  {body : Nat → UInt8} {out : CaseResult build}

/-- The status is wrong only where one is reported that is neither 0 nor the expected one. -/
theorem status_check_iff :
    (!((getInfo h net.info).1 == h.fnOk && (getInfo h net.info).2 != 0 &&
        (getInfo h net.info).2 != args.expectStatus)) = true ↔
      (net.info.result = h.fnOk → net.info.flags &&& h.infoHasStatus ≠ 0 →
        net.info.status ≠ 0 → net.info.status = args.expectStatus) := by
  unfold getInfo
  split
  next hfail => simp [hfail]
  next hok =>
    have hresult : net.info.result = h.fnOk := Decidable.not_not.mp hok
    split
    next hflag => simp [hresult, hflag, imp_iff_not_or]
    next hflag => simp [hresult, Decidable.not_not.mp hflag]

/-- A body goes through where the write and the commit return OK; how many bytes were written plays
no part. -/
theorem sendBody_fst_iff :
    (sendBody h args.body net).1 = true ↔ ∀ body, args.body = some body →
      (net.write (u16 body.len)).result = h.fnOk ∧ net.commit.result = h.fnOk := by
  unfold sendBody
  cases args.body with
  | none => simp
  | some body =>
    simp only [Option.some.injEq, forall_eq']
    split
    next hwrite => simp [hwrite]
    next hwrite =>
      have hwrite' := Decidable.not_not.mp hwrite
      split
      next hcommit => simp [hcommit]
      next hcommit => simp [hwrite', Decidable.not_not.mp hcommit]

/-- A case passes where all went well so far, the expected text is found and the close returns OK.
-/
theorem finish_ret_iff {ok : Bool} {s : CaseResult build} :
    (finish h args net ok s).ret = 1 ↔ ok = true ∧
      (∀ expected, args.expectBody = some expected →
        strstr (bodyBuf s.body) expected.bytes = true) ∧ net.closeResult = h.fnOk := by
  unfold finish
  cases args.expectBody with
  | none => simp
  | some expected => simp [and_assoc]

/-- The end of a case closes the handle, whatever went before. -/
theorem finish_calls {ok : Bool} {s : CaseResult build} :
    (finish h args net ok s).calls = s.calls ++ [.closed net.closeResult] := rfl

/-- After a successful `read_body` a reader of `body_buf` sees the front of the stream. -/
theorem cstr_bodyBuf {reads : Nat → ReadOutcome build} {r : ReadResult build} {mem : Nat → UInt8}
    {totalOut : Option Nat} (hr : Reassembles h reads mem totalOut r) (hok : r.result = h.fnOk) :
    cstr (bodyBuf r.body) = cstr ((delivered h r.calls).take maxBody) := by
  have hlast : min (delivered h r.calls).length maxBody + 1 ≤ maxBody + 1 :=
    Nat.succ_le_succ (Nat.min_le_right _ _)
  have hfront : (bodyBuf r.body).take (min (delivered h r.calls).length maxBody + 1) =
      (delivered h r.calls).take maxBody ++ [0] := by
    rw [bodyBuf, ← List.map_take, List.take_range, Nat.min_eq_left hlast, hr.body hok]
  have hsplit := List.take_append_drop (min (delivered h r.calls).length maxBody + 1)
    (bodyBuf r.body)
  rw [hfront, List.append_assoc, List.singleton_append] at hsplit
  rw [← hsplit, cstr_append_nul]

/-- What `run_case` looks for in `body_buf`, in terms of the reads. -/
theorem answered_found_iff {r : ReadResult build} {totalOut : Option Nat}
    (hr : readBody h net.reads fuel totalOut body = some r) :
    (∃ n, Answered h net.reads n ∧ ∀ expected, args.expectBody = some expected →
        strstr ((response h net.reads n).take maxBody) expected.bytes = true) ↔
      r.result = h.fnOk ∧ ∀ expected, args.expectBody = some expected →
        strstr (bodyBuf r.body) expected.bytes = true := by
  have hread := reassembles_of_readBody hr
  -- the search sees what the buffer holds up to its first NUL, and both sides hold the same
  have hseen : ∀ n, r.result = h.fnOk → r.calls.length = n + 1 → ∀ expected,
      strstr ((response h net.reads n).take maxBody) expected = strstr (bodyBuf r.body) expected := by
    intro n hok hlen expected
    rw [strstr, strstr, cstr_bodyBuf hread hok, hread.logged.response_eq hlen]
  constructor
  · rintro ⟨n, hans, hfound⟩
    obtain ⟨hok, hlen⟩ := (answered_iff hr).mp hans
    refine ⟨hok, fun expected hexpected => ?_⟩
    rw [← hseen n hok hlen]
    exact hfound expected hexpected
  · rintro ⟨hok, hfound⟩
    -- the last call of the log ends the response
    obtain ⟨front, c, hcalls, -⟩ := hread.last
    have hlen : r.calls.length = front.length + 1 := by
      rw [hcalls, List.length_append, List.length_singleton]
    refine ⟨front.length, (answered_iff hr).mpr ⟨hok, hlen⟩, fun expected hexpected => ?_⟩
    rw [hseen _ hok hlen]
    exact hfound expected hexpected

/-- From the test for the expected text on, once everything before it is in order: `buf` is
`body_buf` by then, and `reads` are the calls of `read_body`. -/
theorem finish_spec {ok : Bool} {url : List UInt8} {calls : List (LibCall build)}
    {buf : Nat → UInt8} {reads : List (ReadCall build)}
    (hurl : args.baseUrl.len + args.path.len + 1 ≤ build.urlMax)
    (hopened : net.openResult = h.fnOk) (hsent : (sendBody h args.body net).1 = true)
    (hok : ok = true ↔ (net.info.result = h.fnOk → net.info.flags &&& h.infoHasStatus ≠ 0 →
      net.info.status ≠ 0 → net.info.status = args.expectStatus))
    (hcalls : calls = [.opened args.method url args.flags h.fnOk] ++
      (sendBody h args.body net).2 ++ [.info net.info])
    (hread : (∀ expected, args.expectBody = some expected →
      strstr (bodyBuf buf) expected.bytes = true) → ResponseRead h fuel args net body reads)
    (hbuf : args.method = h.methodHead → buf = body)
    (hchecked : Checked h args net body → ∀ expected, args.expectBody = some expected →
      strstr (bodyBuf buf) expected.bytes = true)
    (out : CaseResult build)
    (hout : out = finish h args net ok ⟨0, calls ++ reads.map .read, urlBuf, buf⟩) :
    (out.ret = 1 ∧ Passed h fuel args net body out.calls) ∨
      (¬ out.ret = 1 ∧ ¬ Checked h args net body) := by
  rw [hout, finish_ret_iff, finish_calls]
  by_cases hpass : ok = true ∧ (∀ expected, args.expectBody = some expected →
      strstr (bodyBuf buf) expected.bytes = true) ∧ net.closeResult = h.fnOk
  · obtain ⟨hstatus, hfound, hclosed⟩ := hpass
    -- passed: each field of what is checked is one test of the code
    have hreads := hread hfound
    refine .inl ⟨⟨hstatus, hfound, hclosed⟩, ⟨hurl, hopened, sendBody_fst_iff.mp hsent,
      hok.mp hstatus, fun hmethod => ?_, fun hhead => ?_, hclosed⟩, url, reads, hreads, ?_⟩
    · obtain ⟨r, hr, hresult, -, hseen⟩ := hreads.ofOther hmethod
      exact (answered_found_iff hr).mpr ⟨hresult, hseen⟩
    · exact hbuf hhead ▸ hfound
    · rw [hcalls, hclosed]
  · exact .inr ⟨hpass, fun hc => hpass ⟨hok.mpr hc.status, hchecked hc, hc.closed⟩⟩

/-- **What a run is about.** It returns 1 when everything it checks is in order, and then made its
calls in this order; otherwise it returns 0. -/
theorem runCase_spec (hret : runCase h fuel args net urlBuf body = some out) :
    (out.ret = 1 ∧ Passed h fuel args net body out.calls) ∨
      (¬ out.ret = 1 ∧ ¬ Checked h args net body) := by
  unfold runCase at hret
  extract_lets url urlBuf' opened sent calls info ok at hret
  have hurl : url = if args.baseUrl.len + args.path.len + 1 ≤ build.urlMax then
      (true, strcpy urlBuf (joined args.baseUrl args.path)) else (false, urlBuf) :=
    buildUrl_eq args.toUrlArgs urlBuf
  -- one case for each way out of `run_case`, with the test that led there
  split at hret
  next hlong =>
    cases hret
    refine .inr ⟨by simp, fun hchecked => ?_⟩
    rw [hurl, if_pos hchecked.url] at hlong
    cases hlong
  next hfits =>
    have hshort : args.baseUrl.len + args.path.len + 1 ≤ build.urlMax := by
      by_contra hlong
      rw [hurl, if_neg hlong] at hfits
      exact hfits rfl
    split at hret
    next hopen =>
      cases hret
      exact .inr ⟨by simp, fun hchecked => hopen hchecked.opened⟩
    next hopen =>
      have hopened : net.openResult = h.fnOk := Decidable.not_not.mp hopen
      split at hret
      next hsent =>
        cases hret
        refine .inr ⟨by simp, fun hchecked => ?_⟩
        rw [show sent.1 = true from sendBody_fst_iff.mpr hchecked.sent] at hsent
        cases hsent
      next hsent =>
        have hcalls : calls = [.opened args.method (cstr urlBuf') args.flags h.fnOk] ++
            (sendBody h args.body net).2 ++ [.info net.info] := by
          rw [← hopened]
        split at hret
        next hmethod =>
          obtain ⟨r, hr, rfl⟩ := Option.map_eq_some_iff.mp hret
          -- the reading is the same question as whether the stream answers
          have hsame : Checked h args net body → r.result = h.fnOk ∧
              ∀ expected, args.expectBody = some expected →
                strstr (bodyBuf r.body) expected.bytes = true :=
            fun hchecked => (answered_found_iff hr).mp (hchecked.answered hmethod)
          dsimp only
          split
          next hread => exact .inr ⟨by simp, fun hchecked => hread (hsame hchecked).1⟩
          next hread =>
            apply finish_spec hshort hopened (eq_true_of_ne_false hsent) status_check_iff hcalls
              (fun hfound => ⟨fun hhead => absurd hhead hmethod, fun _ => ?_⟩)
              (fun hhead => absurd hhead hmethod) (fun hchecked => (hsame hchecked).2) _ rfl
            exact ⟨r, hr, Decidable.not_not.mp hread, rfl, hfound⟩
        next hmethod =>
          have hhead : args.method = h.methodHead := Decidable.not_not.mp hmethod
          apply finish_spec hshort hopened (eq_true_of_ne_false hsent) status_check_iff hcalls
            (fun _ => ⟨fun _ => rfl, fun hother => absurd hhead hother⟩) (fun _ => rfl)
            (fun hchecked => hchecked.stale hhead)
          rw [List.map_nil, List.append_nil]
          exact (Option.some.inj hret).symm

/-! ## When the verdict is sound -/

/-- The text found in `body_buf` is part of the stream that was read. -/
theorem infix_of_found {r : ReadResult build} {mem : Nat → UInt8} {totalOut : Option Nat}
    (hr : Reassembles h net.reads mem totalOut r) (hok : r.result = h.fnOk) {expected : List UInt8}
    (hfound : strstr (bodyBuf r.body) expected = true) : expected <:+: delivered h r.calls := by
  have hseen : cstr (bodyBuf r.body) <+: delivered h r.calls := by
    rw [cstr_bodyBuf hr hok]
    exact (List.takeWhile_prefix _).trans (List.take_prefix _ _)
  exact (strstr_iff.mp hfound).trans hseen.isInfix

theorem received_append (front back : List (LibCall build)) :
    received h (front ++ back) = received h front ++ received h back := List.flatMap_append

theorem received_reads (calls : List (ReadCall build)) :
    received h (calls.map .read) = delivered h calls := by
  rw [received, List.flatMap_map]
  rfl

/-- Nothing is received while the body is sent. -/
theorem received_sendBody : received h (sendBody h args.body net).2 = [] := by
  unfold sendBody
  cases args.body with
  | none => rfl
  | some body =>
    dsimp only
    split
    next => rfl
    next =>
      split
      next => rfl
      next => rfl

/-- What was received on the way to a verdict of 1. -/
theorem received_passed {url : List UInt8} {reads : List (ReadCall build)} :
    received h ([.opened args.method url args.flags h.fnOk] ++ (sendBody h args.body net).2 ++
      [.info net.info] ++ reads.map .read ++ [.closed h.fnOk]) = delivered h reads := by
  simp only [received_append, received_reads, received_sendBody]
  simp [received]

/-- The writes of a case with a body. -/
theorem mem_sendBody_iff {content : CStr} (hbody : args.body = some content)
    (hsent : (net.write (u16 content.len)).result = h.fnOk ∧ net.commit.result = h.fnOk)
    (call : LibCall build) : call ∈ (sendBody h args.body net).2 ↔
      call = .write 0 (content.bytes.take (u16 content.len)) h.fnOk
          (net.write (u16 content.len)).written ∨
        call = .write (net.write (u16 content.len)).written [] h.fnOk net.commit.written := by
  rw [hbody, sendBody]
  dsimp only
  rw [if_neg (not_not.mpr hsent.1), if_neg (not_not.mpr hsent.2), hsent.1, hsent.2]
  simp

/-- What is sent of a case are writes, and they went through. -/
theorem write_of_mem_sendBody (hsent : ∀ body, args.body = some body →
      (net.write (u16 body.len)).result = h.fnOk ∧ net.commit.result = h.fnOk)
    {call : LibCall build} (hmem : call ∈ (sendBody h args.body net).2) :
    ∃ offset data written, call = .write offset data h.fnOk written := by
  cases hcontent : args.body with
  | none =>
    rw [hcontent] at hmem
    cases hmem
  | some content =>
    rcases (mem_sendBody_iff hcontent (hsent content hcontent) call).mp hmem with rfl | rfl
    · exact ⟨_, _, _, rfl⟩
    · exact ⟨_, _, _, rfl⟩

/-- The calls on the way to a verdict of 1. -/
theorem mem_passed {url : List UInt8} {reads : List (ReadCall build)} {call : LibCall build} :
    call ∈ [.opened args.method url args.flags h.fnOk] ++ (sendBody h args.body net).2 ++
        [.info net.info] ++ reads.map .read ++ [.closed h.fnOk] ↔
      call = .opened args.method url args.flags h.fnOk ∨ call ∈ (sendBody h args.body net).2 ∨
        call = .info net.info ∨ (∃ read ∈ reads, .read read = call) ∨ call = .closed h.fnOk := by
  simp only [List.mem_append, List.mem_singleton, List.mem_map, or_assoc]

/-- The reads that made up a response were right or read again, and the last one ended it. -/
theorem response_reads {r : ReadResult build} {mem : Nat → UInt8} {totalOut : Option Nat}
    (hr : Reassembles h net.reads mem totalOut r) (hok : r.result = h.fnOk) :
    (∀ read ∈ r.calls, read.outcome.result = h.fnOk ∨ read.again h = true) ∧
      ∃ read ∈ r.calls, read.Ends h := by
  constructor
  · intro read hmem
    obtain ⟨before, after, hsplit⟩ := List.append_of_mem hmem
    by_contra hbad
    rw [not_or, Bool.not_eq_true] at hbad
    have hlast := (hr.atOnce before read after hsplit hbad.2 hbad.1).2
    exact hbad.1 (hlast.symm.trans hok)
  · obtain ⟨front, read, hcalls, hends, -⟩ := hr.stops hok
    exact ⟨read, by simp [hcalls], hends⟩

/-- A run that passed is sound where none of the four outcomes occurred. -/
theorem Passed.sound {calls : List (LibCall build)} (hpassed : Passed h fuel args net body calls)
    (hnone : NothingMissed h args net) : Sound h args calls := by
  obtain ⟨hchecked, url, reads, hreads, rfl⟩ := hpassed
  refine ⟨fun content hcontent => ?_, ?_, ⟨⟨url, ?_⟩, ?_, fun hmethod => ?_⟩, ?_, ?_⟩
  · -- the whole body was accepted, and the commit was made at its end
    have hsent := hchecked.sent content hcontent
    have hwhole := hnone.whole content hcontent
    -- a body of 65536 bytes or more would have been cut before the write
    have hle := (net.write (u16 content.len)).upTo
    have hfits : u16 content.len = content.len := by
      have hcast := u16_le content.len
      omega
    have htake : content.bytes.take (u16 content.len) = content.bytes := by
      rw [hfits]
      exact List.take_length
    have hmem := mem_sendBody_iff hcontent hsent
    rw [htake, hwhole] at hmem
    refine ⟨mem_passed.mpr (.inr (.inl ((hmem _).mpr (.inl rfl)))), net.commit.written, ?_⟩
    exact mem_passed.mpr (.inr (.inl ((hmem _).mpr (.inr rfl))))
  · -- the status that was reported
    refine ⟨net.info, mem_passed.mpr (.inr (.inr (.inl rfl))), hnone.info, fun hflag => ?_⟩
    by_cases hzero : net.info.status = 0
    · rw [hzero, hnone.status hflag hzero]
    · exact hchecked.status hnone.info hflag hzero
  · exact mem_passed.mpr (.inl rfl)
  · exact mem_passed.mpr (.inr (.inr (.inr (.inr rfl))))
  · -- the read that ended the response
    obtain ⟨r, hr, hok, rfl, -⟩ := hreads.ofOther hmethod
    obtain ⟨read, hread, hends⟩ := (response_reads (reassembles_of_readBody hr) hok).2
    exact ⟨read, mem_passed.mpr (.inr (.inr (.inr (.inl ⟨read, hread, rfl⟩)))), hends⟩
  · -- every call of the log went well, or was a read to make again
    intro call hcall
    rcases mem_passed.mp hcall with rfl | hsend | rfl | ⟨read, hread, rfl⟩ | rfl
    · exact .inl rfl
    · obtain ⟨_, _, _, rfl⟩ := write_of_mem_sendBody hchecked.sent hsend
      exact .inl rfl
    · exact .inl hnone.info
    · by_cases hmethod : args.method = h.methodHead
      · rw [hreads.ofHead hmethod] at hread
        cases hread
      · obtain ⟨r, hr, hok, rfl, -⟩ := hreads.ofOther hmethod
        rcases (response_reads (reassembles_of_readBody hr) hok).1 read hread with hfine | hagain
        · exact .inl hfine
        · exact .inr ⟨read, rfl, hagain⟩
    · exact .inl rfl
  · intro expected hexpected
    rw [received_passed]
    by_cases hmethod : args.method = h.methodHead
    · -- nothing is received of a HEAD, and nothing was expected of it
      rw [hnone.head hmethod expected hexpected]
      exact List.nil_infix
    · obtain ⟨r, hr, hok, rfl, hfound⟩ := hreads.ofOther hmethod
      exact infix_of_found (reassembles_of_readBody hr) hok (hfound expected hexpected)

/-- A run that passed and is sound missed none of the four outcomes. -/
theorem Passed.nothingMissed {calls : List (LibCall build)}
    (hpassed : Passed h fuel args net body calls) (hsound : Sound h args calls) :
    NothingMissed h args net := by
  obtain ⟨hchecked, url, reads, hreads, rfl⟩ := hpassed
  -- the one call in the log that can be an info is the info of the case
  have hinfo : net.info.result = h.fnOk ∧
      (net.info.flags &&& h.infoHasStatus ≠ 0 → net.info.status = args.expectStatus) := by
    obtain ⟨outcome, hmem, hrest⟩ := hsound.info
    rcases mem_passed.mp hmem with heq | hsend | heq | ⟨read, -, heq⟩ | heq
    · cases heq
    · obtain ⟨_, _, _, heq⟩ := write_of_mem_sendBody hchecked.sent hsend
      cases heq
    · cases heq
      exact hrest
    · cases heq
    · cases heq
  refine ⟨fun content hcontent => ?_, hinfo.1, fun hflag hzero => ?_, ?_⟩
  · -- and the one that can be a write is the write of its body
    rcases mem_passed.mp (hsound.body content hcontent).1 with
      heq | hsend | heq | ⟨read, -, heq⟩ | heq
    · cases heq
    · rcases (mem_sendBody_iff hcontent (hchecked.sent content hcontent) _).mp hsend with heq | heq
      · exact (LibCall.write.inj heq).2.2.2.symm
      · -- the commit, of an empty body
        have hnil : content.len = 0 := by
          rw [CStr.len, (LibCall.write.inj heq).2.1, List.length_nil]
        exact (LibCall.write.inj heq).1.symm.trans hnil.symm
    · cases heq
    · cases heq
    · cases heq
  · rw [← hinfo.2 hflag, hzero]
  · -- a HEAD receives nothing, so that only the empty text can be found
    intro hmethod expected hexpected
    have hfound := hsound.found expected hexpected
    rw [received_passed, hreads.ofHead hmethod, delivered_nil] at hfound
    exact List.infix_nil.mp hfound

end

/-- **When the smoke test has no false pass.** A verdict of 1 is sound unless everything `run_case`
checks is in order while a body was accepted only in part, `fn_info` failed, a status of 0 was
reported, or a HEAD case found its text in what an earlier case had left in `body_buf`. -/
theorem runCase_sound_iff (h : NetworkHeader) {build : Build} (fuel : Nat) (args : CaseArgs build)
    (net : Network build) (urlBuf : List UInt8) (body : Nat → UInt8) (out : CaseResult build)
    (hret : runCase h fuel args net urlBuf body = some out) :
    (out.ret = 1 → Sound h args out.calls) ↔
      (Checked h args net body → NothingMissed h args net) := by
  rcases runCase_spec hret with ⟨hone, hpassed⟩ | ⟨hzero, hunchecked⟩
  · constructor
    · exact fun hsound _ => hpassed.nothingMissed (hsound hone)
    · exact fun hnone _ => hpassed.sound (hnone hpassed.checked)
  · exact ⟨fun _ hchecked => absurd hchecked hunchecked, fun _ hone => absurd hone hzero⟩

/-- A POST of the four characters `test`, with the status 200 expected. -/
def postCase : CaseArgs .cc65 where
  sizeBits := 16
  baseUrl := ⟨[0x68], by decide⟩
  path := ⟨[slash, 0x70], by decide⟩
  standing := by decide
  method := 2
  body := some ⟨[0x74, 0x65, 0x73, 0x74], by decide⟩
  expectStatus := 200
  expectBody := none
  flags := 0

/-- A library that accepts one byte of a body less than it is asked to, and answers the rest in
order. -/
def shortWriter : Network .cc65 where
  openResult := 0
  write requested := ⟨0, requested - 1, Nat.sub_le _ _⟩
  commit := ⟨0, 0, Nat.le_refl 0⟩
  info := ⟨0, 200, 1⟩
  reads _ := okChunk
  closeResult := 0

/-- A body accepted in part passes. -/
theorem runCase_passes_a_short_write :
    ∃ out, runCase sampleNetworkHeader 1 postCase shortWriter (List.replicate 129 0) (fun _ => 0) =
        some out ∧ out.ret = 1 ∧ ¬ Sound sampleNetworkHeader postCase out.calls := by
  obtain ⟨out, hret, hone⟩ : ∃ out, runCase sampleNetworkHeader 1 postCase shortWriter
      (List.replicate 129 0) (fun _ => 0) = some out ∧ out.ret = 1 := ⟨_, rfl, rfl⟩
  refine ⟨out, hret, hone, fun hsound => ?_⟩
  rcases runCase_spec hret with ⟨-, hpassed⟩ | ⟨hzero, -⟩
  · -- three of the four bytes were written
    have hwhole := (hpassed.nothingMissed hsound).whole _ rfl
    cases hwhole
  · exact hzero hone

theorem runCase_sound_iff_shortWriter :
    ∃ out, runCase sampleNetworkHeader 1 postCase shortWriter (List.replicate 129 0) (fun _ => 0) =
        some out ∧
      ((out.ret = 1 → Sound sampleNetworkHeader postCase out.calls) ↔
        (Checked sampleNetworkHeader postCase shortWriter (fun _ => 0) →
          NothingMissed sampleNetworkHeader postCase shortWriter)) :=
  ⟨_, rfl, runCase_sound_iff sampleNetworkHeader 1 postCase shortWriter (List.replicate 129 0)
    (fun _ => 0) _ rfl⟩

end NioApps.Fhttpbin
