import NioApps.Fhttpbin.Endless
import NioApps.Fhttpbin.RunCase
import NioApps.Fnctl.AppStore
import Mathlib.Data.Bool.Count

/-!
# Fhttpbin — the smoke test

`main`: the arguments, the base URL, the library started, and the eight cases one after the other.
What the cases share are the two buffers `url_buf` and `body_buf`.

* `cases`, `configuredBaseUrl`, `runCases`, `smokeTest` — the code.
* `main_protocol` — the library is started once, and every handle opened is closed before the next.
* `main_verdicts` — the cases do not depend on each other, and the exit code sums them up.
* `main_returns_iff` — the test comes to an end unless a case reads an endless response.
-/

namespace NioApps.Fhttpbin

open NioApps.Fnctl (ascii)

/-! ## The table -/

/-- What the table of cases takes from `fujinet-nio.h`. No other method is HEAD. -/
structure CasesHeader extends NetworkHeader where
  methodGet : UInt8
  methodPost : UInt8
  methodPut : UInt8
  methodDelete : UInt8
  openBodyUnknown : UInt8
  openFollowRedir : UInt8
  head_ne : methodHead ∉ [methodGet, methodPost, methodPut, methodDelete]

/-- `httpbin_case_t`, without the name that is printed. -/
structure HttpbinCase where
  method : UInt8
  path : CStr
  body : Option CStr
  expectStatus : UInt16
  expectBody : Option CStr
  flags : UInt8
  shortPath : path.len ≤ 15

def cases (h : CasesHeader) : List HttpbinCase :=
  [⟨h.methodGet, ⟨ascii "/get", by decide⟩, none, 200, some ⟨ascii "\"url\"", by decide⟩, 0,
      by decide⟩,
    ⟨h.methodPost, ⟨ascii "/post", by decide⟩,
      some ⟨ascii "\x7b\"test\":\"post\"\x7d", by decide⟩, 200,
      some ⟨ascii "\"json\"", by decide⟩, h.openBodyUnknown, by decide⟩,
    ⟨h.methodPut, ⟨ascii "/put", by decide⟩,
      some ⟨ascii "\x7b\"test\":\"put\"\x7d", by decide⟩, 200,
      some ⟨ascii "\"json\"", by decide⟩, h.openBodyUnknown, by decide⟩,
    ⟨h.methodDelete, ⟨ascii "/delete", by decide⟩, none, 200,
      some ⟨ascii "\"url\"", by decide⟩, 0, by decide⟩,
    ⟨h.methodHead, ⟨ascii "/get", by decide⟩, none, 200, none, 0, by decide⟩,
    ⟨h.methodGet, ⟨ascii "/status/204", by decide⟩, none, 204, none, 0, by decide⟩,
    ⟨h.methodGet, ⟨ascii "/redirect/1", by decide⟩, none, 200,
      some ⟨ascii "\"url\"", by decide⟩, h.openFollowRedir, by decide⟩,
    ⟨h.methodPost, ⟨ascii "/anything", by decide⟩,
      some ⟨ascii "\x7b\"choices\":[1,2,3]\x7d", by decide⟩, 200,
      some ⟨ascii "\"choices\"", by decide⟩, h.openBodyUnknown, by decide⟩]

/-! ## The base URL -/

/-- `fgets` into an array of `size` bytes: up to the first newline, as far as it fits. -/
def fgets (size : Nat) (input : List UInt8) : List UInt8 :=
  let line := input.takeWhile (· ≠ 0x0A)
  (if line.length < input.length then line ++ [0x0A] else line).take (size - 1)

/-- `trim_line`, for the string in the array. -/
def trimLine (s : List UInt8) : List UInt8 := (s.takeWhile (· ≠ 0x0A)).takeWhile (· ≠ 0x0D)

/-- How the program was built and started. `argv` are the arguments after the program's name;
`prompt` is there in a build with `FHTTPBIN_PROMPT_URL`, with what is typed, if `fgets` reads it. -/
structure Invocation (build : Build) where
  defaultUrl : CStr
  argv : List CStr
  env : Option CStr
  prompt : Option (Option (List UInt8))

/-- What is left of a trimmed line has no NUL in it. -/
theorem nulFree_trimLine (s : List UInt8) : 0 ∉ trimLine (cstr s) := by
  intro hmem
  have hline := (List.takeWhile_sublist _).mem hmem
  have hcstr := (List.takeWhile_sublist _).mem hline
  simpa using List.mem_takeWhile_imp hcstr

def configuredBaseUrl {build : Build} (inv : Invocation build) : CStr :=
  match build with
  | .cc65 =>
    match inv.prompt with
    | none => inv.defaultUrl
    | some typed =>
      let inputBuf := fgets (Build.cc65.urlMax + 1) (typed.getD [])
      if trimLine (cstr inputBuf) ≠ [] then ⟨trimLine (cstr inputBuf), nulFree_trimLine inputBuf⟩
      else inv.defaultUrl
  | .other =>
    match inv.argv with
    | url :: _ => url
    | [] =>
      match inv.env with
      | some url => if url.bytes ≠ [] then url else inv.defaultUrl
      | none => inv.defaultUrl

/-- An invocation in a memory, of sizes counted in `sizeBits` bits, where the base URL stands beside
`url_buf` and the longest path. -/
structure Started (build : Build) extends Invocation build where
  sizeBits : Nat
  standing : (configuredBaseUrl toInvocation).len + 1 + 16 + (build.urlMax + 1) ≤ 2 ^ sizeBits

/-- The arguments of `run_case` for a case. -/
def HttpbinCase.args {build : Build} (inv : Started build) (test : HttpbinCase) :
    CaseArgs build where
  sizeBits := inv.sizeBits
  baseUrl := configuredBaseUrl inv.toInvocation
  path := test.path
  standing := by
    have hstanding := inv.standing
    have hpath := test.shortPath
    omega
  method := test.method
  body := test.body
  expectStatus := test.expectStatus
  expectBody := test.expectBody
  flags := test.flags

/-! ## The program -/

/-- What the library answers during one run: to `fn_init`, to `fn_is_ready`, and during the `i`-th
case, with the handle its `fn_open` stores. -/
structure Service (build : Build) (η : Type) where
  init : UInt8
  ready : Bool
  net : Nat → Network build
  handle : Nat → η

/-- A call of the library. -/
inductive ProgramCall (build : Build) (η : Type) where
  | init (result : UInt8)
  | isReady (answer : Bool)
  | onHandle (handle : η) (call : LibCall build)

/-- The variables of the loop over the cases, the two buffers, and the calls so far. -/
structure SuiteState (build : Build) (η : Type) where
  pass : Nat
  fail : Nat
  urlBuf : List UInt8
  body : Nat → UInt8
  calls : List (ProgramCall build η)

/-- The exit code, the two counts as they are printed, and the calls. -/
structure ProgramResult (build : Build) (η : Type) where
  exit : Nat
  counts : Option (Nat × Nat)
  calls : List (ProgramCall build η)

section

variable (h : CasesHeader) {build : Build} {η : Type} (fuel : Nat) (inv : Started build)
  (svc : Service build η)

def SuiteState.afterCase (i : Nat) (s : SuiteState build η) (out : CaseResult build) :
    SuiteState build η where
  pass := if out.ret ≠ 0 then s.pass + 1 else s.pass
  fail := if out.ret ≠ 0 then s.fail else s.fail + 1
  urlBuf := out.urlBuf
  body := out.body
  calls := s.calls ++ out.calls.map (.onHandle (svc.handle i))

/-- The loop over the cases from the `i`-th on. -/
def runCases : List HttpbinCase → Nat → SuiteState build η → Option (SuiteState build η)
  | [], _, s => some s
  | test :: tests, i, s =>
    (runCase h.toNetworkHeader fuel (test.args inv) (svc.net i) s.urlBuf s.body).bind fun out =>
      runCases tests (i + 1) (s.afterCase svc i out)

/-- Whether `main` goes on with the arguments: one at most, and not a question mark. -/
def Invocation.accepted (inv : Invocation build) : Bool :=
  match inv.argv with
  | [] => true
  | [url] => url.bytes.head? != some 0x3F
  | _ => false

/-- `main`, with each read loop within a number of passes. -/
def smokeTest : Option (ProgramResult build η) :=
  if inv.accepted = false then some ⟨1, none, []⟩
  else if svc.init ≠ h.fnOk then some ⟨2, none, [.init svc.init]⟩
  else if svc.ready = false then some ⟨2, none, [.init svc.init, .isReady false]⟩
  else
    let start : SuiteState build η :=
      ⟨0, 0, List.replicate (build.urlMax + 1) 0, fun _ => 0, [.init svc.init, .isReady svc.ready]⟩
    (runCases h fuel inv svc (cases h) 0 start).map fun s =>
      ⟨if s.fail ≠ 0 then 1 else 0, some (s.pass, s.fail), s.calls⟩

end

/-! ## A run -/

/-- A header for the table. -/
def sampleCasesHeader : CasesHeader where
  toNetworkHeader := sampleNetworkHeader
  methodGet := 1
  methodPost := 2
  methodPut := 3
  methodDelete := 4
  openBodyUnknown := 1
  openFollowRedir := 2
  head_ne := by decide

theorem nothing_written : 0 ≤ 0 := Nat.le_refl 0

/-- A library that opens nothing but the sixth case, and answers it with an empty response of status
204. -/
def sampleService : Service .cc65 Nat where
  init := 0
  ready := true
  net i :=
    { openResult := if i = 5 then 0 else 1
      write := fun _ => ⟨0, 0, Nat.zero_le _⟩
      commit := ⟨0, 0, nothing_written⟩
      info := ⟨0, 204, 1⟩
      reads := fun _ => ⟨0, 1, [], Nat.zero_le _⟩
      closeResult := 0 }
  handle i := i + 7

/-- A start without arguments. -/
def sampleStart : Started .cc65 where
  defaultUrl := ⟨ascii "h", by decide⟩
  argv := []
  env := none
  prompt := none
  sizeBits := 16
  standing := by decide

/-! ## The protocol of the library -/

/-- What may be called next: nothing was called yet, the library was started, no handle is open, one
is open, or nothing is called any more. -/
inductive Phase (η : Type) where
  | loaded
  | initialized
  | idle
  | busy (handle : η)
  | stopped
  deriving DecidableEq

/-- The phase after a call; no phase where the call is out of turn. -/
def Phase.next {build : Build} {η : Type} [DecidableEq η] (h : NetworkHeader) :
    Phase η → ProgramCall build η → Option (Phase η)
  | .loaded, .init result => some (if result = h.fnOk then .initialized else .stopped)
  | .initialized, .isReady answer => some (if answer then .idle else .stopped)
  | .idle, .onHandle handle (.opened _ _ _ result) =>
    some (if result = h.fnOk then .busy handle else .idle)
  | .busy handle, .onHandle handle' (.closed _) => if handle' = handle then some .idle else none
  | .busy _, .onHandle _ (.opened _ _ _ _) => none
  | .busy handle, .onHandle handle' _ => if handle' = handle then some (.busy handle) else none
  | _, _ => none

/-- A call between the opening of a handle and its closing. -/
def LibCall.Inner {build : Build} : LibCall build → Prop
  | .opened _ _ _ _ => False
  | .closed _ => False
  | _ => True

/-- The calls of one case: none, a refused opening, or an opening, calls on the handle and its
closing. -/
inductive Session (h : NetworkHeader) {build : Build} : List (LibCall build) → Prop where
  | none : Session h []
  | refused {method flags result : UInt8} {url : List UInt8} (hresult : result ≠ h.fnOk) :
      Session h [.opened method url flags result]
  | whole {method flags closed : UInt8} {url : List UInt8} {inner : List (LibCall build)}
      (hinner : ∀ call ∈ inner, call.Inner) :
      Session h (.opened method url flags h.fnOk :: (inner ++ [.closed closed]))

section

variable {h : NetworkHeader} {build : Build} {args : CaseArgs build} {net : Network build}
  {fuel : Nat} {urlBuf : List UInt8} {body : Nat → UInt8} {out : CaseResult build}

/-- Sending the body only writes and commits, between opening and closing. -/
theorem inner_of_mem_sendBody {call : LibCall build} (hmem : call ∈ (sendBody h args.body net).2) :
    call.Inner := by
  unfold sendBody at hmem
  cases hbody : args.body with
  -- without a body nothing is called
  | none =>
    rw [hbody] at hmem
    cases hmem
  | some content =>
    rw [hbody] at hmem
    dsimp only at hmem
    split at hmem
    -- the write fails, and the commit is not made
    next =>
      rw [List.mem_singleton.mp hmem]
      trivial
    next =>
      split at hmem
      all_goals
        rcases List.mem_cons.mp hmem with rfl | hmem
        · trivial
        · rw [List.mem_singleton.mp hmem]
          trivial

/-- **One case** opens at most one handle, and closes it. -/
theorem runCase_session (hret : runCase h fuel args net urlBuf body = some out) :
    Session h out.calls := by
  -- one case for each way out of `run_case`
  unfold runCase at hret
  extract_lets url urlBuf' opened sent calls info ok at hret
  have hsent : ∀ call ∈ sent.2, call.Inner := fun call => inner_of_mem_sendBody
  have hinfo : ∀ call ∈ sent.2 ++ [.info net.info], call.Inner := by
    intro call hcall
    rcases List.mem_append.mp hcall with hcall | hcall
    · exact hsent call hcall
    · rw [List.mem_singleton.mp hcall]
      trivial
  split at hret
  next =>
    cases hret
    exact .none
  next =>
    split at hret
    next hopen =>
      cases hret
      exact .refused hopen
    next hopen =>
      -- from here on the handle is open, and every way out closes it
      have hopened : opened = [.opened args.method (cstr urlBuf') args.flags h.fnOk] := by
        rw [← Decidable.not_not.mp hopen]
      split at hret
      next =>
        cases hret
        rw [hopened, List.append_assoc]
        exact .whole hsent
      next =>
        split at hret
        next =>
          obtain ⟨r, -, rfl⟩ := Option.map_eq_some_iff.mp hret
          have hreads : ∀ call ∈ sent.2 ++ [.info net.info] ++ r.calls.map .read,
              call.Inner := by
            intro call hcall
            rcases List.mem_append.mp hcall with hcall | hcall
            · exact hinfo call hcall
            · obtain ⟨read, -, rfl⟩ := List.mem_map.mp hcall
              trivial
          have hcalls : ∀ closed : UInt8, calls ++ r.calls.map .read ++ [.closed closed] =
              .opened args.method (cstr urlBuf') args.flags h.fnOk ::
                (sent.2 ++ [.info net.info] ++ r.calls.map .read ++ [.closed closed]) := by
            intro closed
            show opened ++ sent.2 ++ [.info net.info] ++ r.calls.map .read ++ [.closed closed] = _
            rw [hopened]
            simp only [List.append_assoc, List.cons_append, List.nil_append]
          dsimp only
          split
          next =>
            -- the reading failed: the log ends in the same way
            show Session h (calls ++ r.calls.map .read ++ [.closed net.closeResult])
            rw [hcalls]
            exact .whole hreads
          next =>
            rw [finish_calls, hcalls]
            exact .whole hreads
        next =>
          cases hret
          rw [finish_calls]
          show Session h (opened ++ sent.2 ++ [.info net.info] ++ [.closed net.closeResult])
          rw [hopened, List.append_assoc, List.append_assoc, ← List.append_assoc sent.2]
          exact .whole hinfo

variable {η : Type} [DecidableEq η]

/-- Calls on the open handle leave it open. -/
theorem foldlM_inner (handle : η) {inner : List (LibCall build)}
    (hinner : ∀ call ∈ inner, call.Inner) :
    (inner.map (ProgramCall.onHandle handle)).foldlM (Phase.next h) (.busy handle) =
      some (.busy handle) := by
  induction inner with
  | nil => rfl
  | cons call inner ih =>
    have hnext : Phase.next h (.busy handle) (.onHandle handle call) = some (.busy handle) := by
      have hcall := hinner call List.mem_cons_self
      cases call with
      | opened => exact absurd hcall id
      | closed => exact absurd hcall id
      | _ => exact if_pos rfl
    rw [List.map_cons, List.foldlM_cons, hnext]
    exact ih fun c hc => hinner c (List.mem_cons_of_mem _ hc)

/-- The calls of a case are in turn, and leave no handle open. -/
theorem Session.foldlM_next {calls : List (LibCall build)} (hsession : Session h calls)
    (handle : η) :
    (calls.map (ProgramCall.onHandle handle)).foldlM (Phase.next h) .idle = some .idle := by
  cases hsession with
  | none => rfl
  | refused hresult =>
    rw [List.map_singleton, List.foldlM_cons, Phase.next, if_neg hresult]
    rfl
  | whole hinner =>
    rw [List.map_cons, List.map_append, List.foldlM_cons, Phase.next, if_pos rfl]
    show List.foldlM (Phase.next h) (.busy handle) _ = _
    rw [List.foldlM_append, foldlM_inner handle hinner]
    show (Phase.next h (.busy handle) (.onHandle handle (.closed _))).bind _ = _
    rw [Phase.next, if_pos rfl]
    rfl

end

section

variable {h : CasesHeader} {build : Build} {η : Type} {fuel : Nat} {inv : Started build}
  {svc : Service build η}

/-- The protocol over the cases: each starts and ends with nothing open. -/
theorem runCases_calls [DecidableEq η] {tests : List HttpbinCase} {i : Nat}
    {s s' : SuiteState build η} (hret : runCases h fuel inv svc tests i s = some s')
    {start : Phase η} (hs : s.calls.foldlM (Phase.next h.toNetworkHeader) start = some .idle) :
    s'.calls.foldlM (Phase.next h.toNetworkHeader) start = some .idle := by
  induction tests generalizing i s with
  | nil =>
    cases hret
    exact hs
  | cons test tests ih =>
    obtain ⟨out, hout, hrest⟩ := Option.bind_eq_some_iff.mp hret
    refine ih hrest ?_
    show List.foldlM _ start (s.calls ++ out.calls.map (.onHandle (svc.handle i))) = _
    rw [List.foldlM_append, hs]
    exact (runCase_session hout).foldlM_next (svc.handle i)

end

section

variable {h : CasesHeader} {build : Build} {η : Type} {fuel : Nat} {inv : Started build}
  {svc : Service build η}

/-- No HEAD case of the table expects a text. -/
theorem cases_head {test : HttpbinCase} (hmem : test ∈ cases h)
    (hmethod : test.method = h.methodHead) : test.expectBody = none := by
  have hne := h.head_ne
  simp only [List.mem_cons, List.not_mem_nil, or_false, not_or] at hne
  obtain ⟨hget, hpost, hput, hdelete⟩ := hne
  simp only [cases, List.mem_cons, List.not_mem_nil, or_false] at hmem
  rcases hmem with rfl | rfl | rfl | rfl | rfl | rfl | rfl | rfl
  · exact absurd hmethod.symm hget
  · exact absurd hmethod.symm hpost
  · exact absurd hmethod.symm hput
  · exact absurd hmethod.symm hdelete
  · rfl
  · rfl
  · exact absurd hmethod.symm hget
  · exact absurd hmethod.symm hpost

/-- What a case of the table checks does not depend on what stands in `body_buf` before it. -/
theorem checked_cases {test : HttpbinCase} (hmem : test ∈ cases h) {net : Network build}
    {body body' : Nat → UInt8}
    (hchecked : Checked h.toNetworkHeader (test.args inv) net body) :
    Checked h.toNetworkHeader (test.args inv) net body' :=
  { hchecked with
    stale := fun hmethod expected hexpected => by
      have hnone : (test.args inv).expectBody = none := cases_head hmem hmethod
      rw [hnone] at hexpected
      cases hexpected }

/-- The verdict on one case of the table. -/
def Verdict (h : CasesHeader) (inv : Started build) (svc : Service build η)
    (case : HttpbinCase × Nat) (verdict : Bool) : Prop :=
  verdict = true ↔ ∀ body, Checked h.toNetworkHeader (case.1.args inv) (svc.net case.2) body

theorem finish_ret {h : NetworkHeader} {args : CaseArgs build} {net : Network build} {ok : Bool}
    {s : CaseResult build} : (finish h args net ok s).ret = 0 ∨ (finish h args net ok s).ret = 1 :=
  (ite_eq_or_eq _ 1 0).symm

/-- `run_case` returns 0 or 1. -/
theorem runCase_ret {h : NetworkHeader} {args : CaseArgs build} {net : Network build}
    {urlBuf : List UInt8} {body : Nat → UInt8} {out : CaseResult build}
    (hret : runCase h fuel args net urlBuf body = some out) : out.ret = 0 ∨ out.ret = 1 := by
  unfold runCase at hret
  extract_lets url urlBuf' opened sent calls info ok at hret
  split at hret
  next => cases hret; exact .inl rfl
  next =>
    split at hret
    next => cases hret; exact .inl rfl
    next =>
      split at hret
      next => cases hret; exact .inl rfl
      next =>
        split at hret
        next =>
          obtain ⟨r, -, rfl⟩ := Option.map_eq_some_iff.mp hret
          dsimp only
          split
          · exact .inl rfl
          · exact finish_ret
        next =>
          cases hret
          exact finish_ret

variable (svc) in
theorem afterCase_passed (i : Nat) (s : SuiteState build η) {out : CaseResult build}
    (hret : out.ret = 1) :
    (s.afterCase svc i out).pass = s.pass + 1 ∧ (s.afterCase svc i out).fail = s.fail := by
  simp [SuiteState.afterCase, hret]

variable (svc) in
theorem afterCase_failed (i : Nat) (s : SuiteState build η) {out : CaseResult build}
    (hret : out.ret = 0) :
    (s.afterCase svc i out).pass = s.pass ∧ (s.afterCase svc i out).fail = s.fail + 1 := by
  simp [SuiteState.afterCase, hret]

/-- The counts after the cases, by induction over them: each adds its own verdict. -/
theorem runCases_verdicts {tests : List HttpbinCase} (hmem : ∀ test ∈ tests, test ∈ cases h)
    {i : Nat} {s s' : SuiteState build η} (hret : runCases h fuel inv svc tests i s = some s') :
    ∃ verdicts, List.Forall₂ (Verdict h inv svc) (tests.zipIdx i) verdicts ∧
      s'.pass = s.pass + verdicts.count true ∧ s'.fail = s.fail + verdicts.count false := by
  induction tests generalizing i s with
  | nil =>
    cases hret
    exact ⟨[], .nil, rfl, rfl⟩
  | cons test tests ih =>
    obtain ⟨out, hout, hrest⟩ := Option.bind_eq_some_iff.mp hret
    obtain ⟨verdicts, hverdicts, hpass, hfail⟩ :=
      ih (fun t ht => hmem t (List.mem_cons_of_mem test ht)) hrest
    rw [List.zipIdx_cons]
    -- the verdict is fixed by the answers: what the buffers hold plays no part
    rcases runCase_spec hout with ⟨hone, hpassed⟩ | ⟨hnot, hunchecked⟩
    · obtain ⟨hp, hf⟩ := afterCase_passed svc i s hone
      refine ⟨true :: verdicts, .cons ?_ hverdicts, ?_, ?_⟩
      · exact iff_of_true rfl fun body =>
          checked_cases (hmem test List.mem_cons_self) hpassed.checked
      · rw [hpass, hp, List.count_cons_self]
        omega
      · rw [hfail, hf, List.count_cons_of_ne (by decide)]
    · obtain ⟨hp, hf⟩ := afterCase_failed svc i s ((runCase_ret hout).resolve_right hnot)
      refine ⟨false :: verdicts, .cons ?_ hverdicts, ?_, ?_⟩
      · -- a case that is not passed fails with any buffer
        exact iff_of_false Bool.false_ne_true fun hchecked => hunchecked (hchecked s.body)
      · rw [hpass, hp, List.count_cons_of_ne (by decide)]
      · rw [hfail, hf, List.count_cons_self]
        omega

/-- **The verdicts.** In every run that gets to the cases each of the eight has a verdict, which is
what `run_case` checks of it whatever the cases before it left in the buffers; the program prints how
many passed and how many failed, and its exit code is 0 exactly when all passed. -/
theorem main_verdicts (h : CasesHeader) {build : Build} {η : Type} (fuel : Nat)
    (inv : Started build) (svc : Service build η) (out : ProgramResult build η)
    (hret : smokeTest h fuel inv svc = some out) (hargs : inv.accepted = true)
    (hinit : svc.init = h.fnOk) (hready : svc.ready = true) :
    ∃ verdicts, List.Forall₂ (Verdict h inv svc) (cases h).zipIdx verdicts ∧
      out.counts = some (verdicts.count true, verdicts.count false) ∧
      verdicts.count true + verdicts.count false = 8 ∧
      (out.exit = 0 ↔ ∀ verdict ∈ verdicts, verdict = true) := by
  rw [smokeTest, if_neg (by simp [hargs]), if_neg (not_not.mpr hinit), if_neg (by simp [hready])]
    at hret
  obtain ⟨s, hs, rfl⟩ := Option.map_eq_some_iff.mp hret
  obtain ⟨verdicts, hverdicts, hpass, hfail⟩ := runCases_verdicts (fun _ ht => ht) hs
  rw [Nat.zero_add] at hpass hfail
  have hlen : verdicts.length = 8 := hverdicts.length_eq.symm
  refine ⟨verdicts, hverdicts, by rw [hpass, hfail], ?_, ?_⟩
  · rw [List.count_true_add_count_false, hlen]
  · have hfalse : verdicts.count false = 0 ↔ ∀ verdict ∈ verdicts, verdict = true := by
      rw [List.count_eq_zero]
      constructor
      · intro hnone verdict hverdict
        exact eq_true_of_ne_false fun hbad => hnone (hbad ▸ hverdict)
      · intro hall hbad
        exact Bool.false_ne_true (hall false hbad)
    rw [← hfalse, ← hfail]
    show (if s.fail ≠ 0 then 1 else 0) = 0 ↔ s.fail = 0
    split
    next hne => exact iff_of_false Nat.one_ne_zero hne
    next heq => exact iff_of_true rfl (not_not.mp heq)

end

/-- The verdicts of a run in which one case passes. -/
theorem main_verdicts_sampleService :
    ∃ out, smokeTest sampleCasesHeader 1 sampleStart sampleService = some out ∧
      out.counts = some (1, 7) ∧ ∃ verdicts,
        List.Forall₂ (Verdict sampleCasesHeader sampleStart sampleService)
          (cases sampleCasesHeader).zipIdx verdicts ∧
        out.counts = some (verdicts.count true, verdicts.count false) ∧
        verdicts.count true + verdicts.count false = 8 ∧
        (out.exit = 0 ↔ ∀ verdict ∈ verdicts, verdict = true) :=
  ⟨_, rfl, rfl, main_verdicts sampleCasesHeader 1 sampleStart sampleService _ rfl rfl rfl rfl⟩

/-! ## When the test comes to an end -/

section

variable (h : NetworkHeader) {build : Build} (args : CaseArgs build) (net : Network build)

/-- What must have gone well for `run_case` to get to its read loop. -/
structure ReadsBody : Prop where
  url : args.baseUrl.len + args.path.len + 1 ≤ build.urlMax
  opened : net.openResult = h.fnOk
  sent : (sendBody h args.body net).1 = true
  method : args.method ≠ h.methodHead

variable {h args net} {fuel fuel' : Nat} {urlBuf : List UInt8} {body : Nat → UInt8}
  {out : CaseResult build}

/-- A case without a read loop returns at once. -/
theorem runCase_of_not_reads (hnot : ¬ ReadsBody h args net) (urlBuf : List UInt8)
    (body : Nat → UInt8) : ∃ out, ∀ fuel, runCase h fuel args net urlBuf body = some out := by
  have hurl : buildUrl args.toUrlArgs urlBuf =
      if args.baseUrl.len + args.path.len + 1 ≤ build.urlMax then
        (true, strcpy urlBuf (joined args.baseUrl args.path)) else (false, urlBuf) :=
    buildUrl_eq args.toUrlArgs urlBuf
  by_cases hfits : args.baseUrl.len + args.path.len + 1 ≤ build.urlMax
  · rw [if_pos hfits] at hurl
    by_cases hopen : net.openResult = h.fnOk
    · by_cases hsent : (sendBody h args.body net).1 = true
      · -- of the four conditions only the method is left to fail
        have hmethod : args.method = h.methodHead := by
          by_contra hmethod
          exact hnot ⟨hfits, hopen, hsent, hmethod⟩
        exact ⟨_, fun fuel => by simp [runCase, hurl, hopen, hsent, hmethod]; rfl⟩
      · exact ⟨_, fun fuel => by simp [runCase, hurl, hopen, hsent]; rfl⟩
    · exact ⟨_, fun fuel => by simp [runCase, hurl, hopen]; rfl⟩
  · rw [if_neg hfits] at hurl
    exact ⟨_, fun fuel => by simp [runCase, hurl]; rfl⟩

/-- A case with a read loop returns when the loop does. -/
theorem runCase_of_reads (hreads : ReadsBody h args net) (urlBuf : List UInt8)
    (body : Nat → UInt8) : ∃ after : ReadResult build → CaseResult build, ∀ fuel,
      runCase h fuel args net urlBuf body =
        (readBody h net.reads fuel (some 0) body).map after := by
  have hurl : buildUrl args.toUrlArgs urlBuf =
      if args.baseUrl.len + args.path.len + 1 ≤ build.urlMax then
        (true, strcpy urlBuf (joined args.baseUrl args.path)) else (false, urlBuf) :=
    buildUrl_eq args.toUrlArgs urlBuf
  rw [if_pos hreads.url] at hurl
  exact ⟨_, fun fuel => by
    simp [runCase, hurl, hreads.opened, hreads.sent, hreads.method]
    rfl⟩

/-- More passes do not change a result. -/
theorem runCase_mono (hle : fuel ≤ fuel') (hret : runCase h fuel args net urlBuf body = some out) :
    runCase h fuel' args net urlBuf body = some out := by
  by_cases hreads : ReadsBody h args net
  · obtain ⟨after, hafter⟩ := runCase_of_reads hreads urlBuf body
    rw [hafter] at hret ⊢
    obtain ⟨r, hr, rfl⟩ := Option.map_eq_some_iff.mp hret
    rw [readBody, Sum.getRight?_eq_some_iff] at hr
    rw [readBody, Loop.after_inr_mono hle hr]
    rfl
  · obtain ⟨out', hout'⟩ := runCase_of_not_reads hreads urlBuf body
    rw [hout'] at hret ⊢
    exact hret

/-- A case returns unless it reads an endless response. -/
theorem runCase_returns_iff (urlBuf : List UInt8) (body : Nat → UInt8) :
    (∃ fuel out, runCase h fuel args net urlBuf body = some out) ↔
      (ReadsBody h args net → ¬ Endless h net.reads) := by
  by_cases hreads : ReadsBody h args net
  · obtain ⟨after, hafter⟩ := runCase_of_reads hreads urlBuf body
    rw [← readBody_returns_iff h net.reads (some 0) body]
    constructor
    · rintro ⟨fuel, out, hret⟩ -
      rw [hafter] at hret
      obtain ⟨r, hr, -⟩ := Option.map_eq_some_iff.mp hret
      exact ⟨fuel, r, hr⟩
    · intro hends
      obtain ⟨fuel, r, hr⟩ := hends hreads
      exact ⟨fuel, after r, by rw [hafter, hr]; rfl⟩
  · obtain ⟨out, hout⟩ := runCase_of_not_reads hreads urlBuf body
    exact ⟨fun _ habsurd => absurd habsurd hreads, fun _ => ⟨0, out, hout 0⟩⟩

end

section

variable {h : CasesHeader} {build : Build} {η : Type} {fuel fuel' : Nat} {inv : Started build}
  {svc : Service build η}

/-- A case that reads an endless response. -/
def Hangs (h : CasesHeader) (inv : Started build) (svc : Service build η)
    (case : HttpbinCase × Nat) : Prop :=
  ReadsBody h.toNetworkHeader (case.1.args inv) (svc.net case.2) ∧
    Endless h.toNetworkHeader (svc.net case.2).reads

/-- More fuel does not change a run that came to its end. -/
theorem runCases_mono (hle : fuel ≤ fuel') {tests : List HttpbinCase} {i : Nat}
    {s s' : SuiteState build η} (hret : runCases h fuel inv svc tests i s = some s') :
    runCases h fuel' inv svc tests i s = some s' := by
  induction tests generalizing i s with
  | nil => exact hret
  | cons test tests ih =>
    obtain ⟨out, hout, hrest⟩ := Option.bind_eq_some_iff.mp hret
    exact Option.bind_eq_some_iff.mpr ⟨out, runCase_mono hle hout, ih hrest⟩

/-- The cases come to their end exactly where none of them hangs. -/
theorem runCases_returns_iff (tests : List HttpbinCase) (i : Nat) (s : SuiteState build η) :
    (∃ fuel s', runCases h fuel inv svc tests i s = some s') ↔
      ∀ case ∈ tests.zipIdx i, ¬ Hangs h inv svc case := by
  induction tests generalizing i s with
  | nil => exact iff_of_true ⟨0, s, rfl⟩ fun _ hcase => absurd hcase List.not_mem_nil
  | cons test tests ih =>
    rw [List.zipIdx_cons, List.forall_mem_cons]
    have hfirst : (∃ fuel out, runCase h.toNetworkHeader fuel (test.args inv) (svc.net i) s.urlBuf
        s.body = some out) ↔ (ReadsBody h.toNetworkHeader (test.args inv) (svc.net i) →
          ¬ Endless h.toNetworkHeader (svc.net i).reads) := runCase_returns_iff s.urlBuf s.body
    constructor
    · rintro ⟨fuel, s', hret⟩
      obtain ⟨out, hout, hrest⟩ := Option.bind_eq_some_iff.mp hret
      refine ⟨fun hhangs => hfirst.mp ⟨fuel, out, hout⟩ hhangs.1 hhangs.2, ?_⟩
      exact (ih (i + 1) (s.afterCase svc i out)).mp ⟨fuel, s', hrest⟩
    · rintro ⟨hcase, hcases⟩
      obtain ⟨fuel, out, hout⟩ := hfirst.mpr fun hreads hendless => hcase ⟨hreads, hendless⟩
      obtain ⟨fuel', s', hrest⟩ := (ih (i + 1) (s.afterCase svc i out)).mpr hcases
      -- passes enough for the first case and for the others
      refine ⟨max fuel fuel', s', Option.bind_eq_some_iff.mpr ⟨out, ?_, ?_⟩⟩
      · exact runCase_mono (Nat.le_max_left _ _) hout
      · exact runCases_mono (Nat.le_max_right _ _) hrest

/-- A test that gets to the cases returns when they do. -/
theorem smokeTest_started (hargs : inv.accepted = true) (hinit : svc.init = h.fnOk)
    (hready : svc.ready = true) :
    ∃ (start : SuiteState build η) (after : SuiteState build η → ProgramResult build η), ∀ fuel,
      smokeTest h fuel inv svc = (runCases h fuel inv svc (cases h) 0 start).map after :=
  ⟨_, _, fun fuel => by
    rw [smokeTest, if_neg (by simp [hargs]), if_neg (not_not.mpr hinit), if_neg (by simp [hready])]⟩

/-- A test that does not get to the cases returns at once. -/
theorem smokeTest_refused
    (hnot : ¬ (inv.accepted = true ∧ svc.init = h.fnOk ∧ svc.ready = true)) :
    ∃ fuel out, smokeTest h fuel inv svc = some out := by
  by_cases hargs : inv.accepted = false
  · exact ⟨0, _, if_pos hargs⟩
  by_cases hinit : svc.init ≠ h.fnOk
  · exact ⟨0, _, by rw [smokeTest, if_neg hargs, if_pos hinit]⟩
  · have hready : svc.ready = false :=
      eq_false_of_ne_true fun hready =>
        hnot ⟨eq_true_of_ne_false hargs, not_not.mp hinit, hready⟩
    exact ⟨0, _, by rw [smokeTest, if_neg hargs, if_neg hinit, if_pos hready]⟩

/-- **When the smoke test comes to its end.** It does, within some number of passes of each read
loop, exactly when it does not get to the cases or none of the eight gets to the read loop on an
endless response. -/
theorem main_returns_iff (h : CasesHeader) {build : Build} {η : Type} (inv : Started build)
    (svc : Service build η) :
    (∃ fuel out, smokeTest h fuel inv svc = some out) ↔
      (inv.accepted = true ∧ svc.init = h.fnOk ∧ svc.ready = true →
        ∀ case ∈ (cases h).zipIdx, ¬ Hangs h inv svc case) := by
  by_cases hcases : inv.accepted = true ∧ svc.init = h.fnOk ∧ svc.ready = true
  · obtain ⟨start, after, hafter⟩ := smokeTest_started hcases.1 hcases.2.1 hcases.2.2
    have hloop : (∃ fuel s, runCases h fuel inv svc (cases h) 0 start = some s) ↔
        ∀ case ∈ (cases h).zipIdx, ¬ Hangs h inv svc case := runCases_returns_iff _ 0 start
    constructor
    · -- the suite returns exactly where its cases do
      rintro ⟨fuel, out, hret⟩ -
      rw [hafter] at hret
      obtain ⟨s, hs, -⟩ := Option.map_eq_some_iff.mp hret
      exact hloop.mp ⟨fuel, s, hs⟩
    · intro hends
      obtain ⟨fuel, s, hs⟩ := hloop.mpr (hends hcases)
      exact ⟨fuel, after s, by rw [hafter, hs]; rfl⟩
  · exact iff_of_true (smokeTest_refused hcases) fun habsurd => absurd habsurd hcases

end

end NioApps.Fhttpbin
