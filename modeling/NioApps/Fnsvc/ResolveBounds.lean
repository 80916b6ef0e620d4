import NioApps.Fnsvc.ResolvePath

/-!
# Fnsvc — the fields of a resolve answer

The parser checks the two length fields with sums cast to `uint16_t`. Where a sum wraps, the
check passes for a field that is not in the answer. `fnsvcResolvePath_safe_iff` is the exact
condition on the answer under which a call nevertheless stays inside it, stores nothing else and
rejects fields that do not fit.

* `parserSafe_unwrapped`, `parserSafe_wrapped` — the two ranges of the first length.
* `parserSafe_iff` — the condition, for the parser on any memory.
-/

namespace NioApps.Fnsvc

open BufProg

def firstLen (page : Nat → UInt8) : Nat := u16At page 4

/-- The length of the second field, where the first one fits. -/
def secondLen (page : Nat → UInt8) : Nat := u16At page (6 + firstLen page)

/-- Both fields lie in the answer, in exact integers. -/
def FieldsFit (page : Nat → UInt8) (respLen : Nat) : Prop :=
  8 + firstLen page ≤ respLen ∧ 8 + firstLen page + secondLen page ≤ respLen

instance (page : Nat → UInt8) (respLen : Nat) : Decidable (FieldsFit page respLen) := by
  unfold FieldsFit
  infer_instance

/-- What is asked of a call: it reads only the answer, what it stores and returns does not
depend on what `resp_buf` held before, and it returns 0 when the fields do not fit. -/
structure ResolveSafe (dev : Device) (a : ResolveArgs) (base : CStr) (w : World) : Prop where
  reads_lt : ∀ p ∈ (fnsvcResolvePath dev a w).reads, p.1 < p.2
  history_free : ∀ w' : World, w'.past = w.past →
    (fnsvcResolvePath dev a w').events = (fnsvcResolvePath dev a w).events ∧
    (fnsvcResolvePath dev a w').ret = (fnsvcResolvePath dev a w).ret
  rejects : ∀ status payload, dev.respond w.past (a.sent base) = .answered status payload →
    ¬ FieldsFit (listMem payload) payload.length → (fnsvcResolvePath dev a w).ret = false

/-- The length fields do not deceive the parser: no sum it is misled by wraps, or the first one
wraps so far that the parser finds its way back into the header, copies no more than is there
and then rejects the length it takes for the second one. -/
def FieldsRespected (cap : Nat) (page : Nat → UInt8) (respLen : Nat) : Prop :=
  (firstLen page < 65528 ∧
    (8 + firstLen page ≤ respLen → 8 + firstLen page + secondLen page < 65536)) ∨
  (65530 ≤ firstLen page ∧ cap + 5 ≤ respLen ∧
    respLen < u16 (firstLen page - 65528 + u16At page (firstLen page - 65530)))

/-- The same of the parser alone. -/
structure ParserSafe (a : ResolveArgs) (m : Nat → UInt8) (respLen : Nat) : Prop where
  reads_lt : ReadsBelow m respLen (resolveProg a respLen)
  rejects : ¬ FieldsFit m respLen → ∃ e, (exec m (resolveProg a respLen)).value = .error e

/-! ## Clamped copies -/

/-- What is copied is at most the string. -/
theorem clampLen_le (len : Nat) (cap : UInt16) : clampLen len cap ≤ len := by
  unfold clampLen
  split
  · have hle := u16_le (cap.toNat - 1)
    omega
  · exact Nat.le_refl _

/-- A string that does not fit is cut one byte before the capacity. -/
theorem clampLen_of_le {len : Nat} {cap : UInt16} (h : cap.toNat ≤ len) :
    clampLen len cap = cap.toNat - 1 := by
  have hcap := cap.toNat_lt
  rw [clampLen, if_pos h, u16_of_lt (by omega)]

/-- The bytes of a block all lie below a limit exactly when the block ends there or is empty. -/
theorem range'_below_iff (i n limit : Nat) :
    (∀ j ∈ List.range' i n, j < limit) ↔ n = 0 ∨ i + n ≤ limit := by
  simp only [List.mem_range'_1]
  constructor
  · intro h
    by_contra hout
    have hlast := h (i + n - 1) (by omega)
    omega
  · intro h j hj
    omega

section Parser

variable {a : ResolveArgs} {m : Nat → UInt8} {respLen : Nat}

/-! ## The second field -/

/-- The second string is refused exactly where its end, modulo 2^16, lies past the response. -/
theorem resolveTail_error_iff (flags : UInt8) (off : Nat) :
    (∃ e, (exec m (resolveTail a respLen flags off)).value = .error e) ↔
      respLen < u16 (u16 (off + 2) + u16At m off) := by
  rw [exec_resolveTail]
  split
  case isTrue h => exact ⟨fun _ => h, fun _ => ⟨_, rfl⟩⟩
  case isFalse h => exact ⟨fun ⟨_, he⟩ => absurd he (by simp), fun hlt => absurd hlt h⟩

/-- A refused second string is not read: only its length is. -/
theorem resolveTail_reads_of_error {flags : UInt8} {off : Nat}
    (h : respLen < u16 (u16 (off + 2) + u16At m off)) :
    (exec m (resolveTail a respLen flags off)).reads = [off, off + 1] := by
  rw [exec_resolveTail, if_pos h]

/-- The second length is read in any case. -/
theorem mem_reads_resolveTail (flags : UInt8) (off : Nat) :
    off ∈ (exec m (resolveTail a respLen flags off)).reads := by
  rw [exec_resolveTail]
  split <;> simp

/-- If the second length lies in the response and the sum does not wrap, all that is read lies in
it. -/
theorem readsBelow_resolveTail {flags : UInt8} {off : Nat} (hoff : off + 2 ≤ respLen)
    (hfit : off + 2 + u16At m off < 65536) :
    ReadsBelow m respLen (resolveTail a respLen flags off) := by
  -- neither sum wraps
  have h2 : u16 (off + 2) = off + 2 := u16_of_lt (by omega)
  have hsum : u16 (off + 2 + u16At m off) = off + 2 + u16At m off := u16_of_lt hfit
  intro i hi
  rw [exec_resolveTail, h2, hsum] at hi
  split at hi
  · simp only [List.mem_cons, List.not_mem_nil, or_false] at hi
    omega
  next hin =>
    rw [exec_storeDisplay] at hi
    have hclamp := clampLen_le (u16At m off) a.displayCap
    -- accepted: the second length, and then as much of the string as is copied
    rcases List.mem_append.mp hi with hi | hi
    · simp only [List.mem_cons, List.not_mem_nil, or_false] at hi
      omega
    · split at hi
      · have hbounds := List.mem_range'_1.mp hi
        omega
      · cases hi

/-! ## The two ranges of the first length -/

theorem header_reads_lt (hlen : 8 ≤ respLen) : ∀ i ∈ [0, 1, 4, 5], i < respLen := by
  simp
  omega

/-- The size check of a first length whose sum does not wrap is exact. -/
theorem u16_first_unwrapped (hfirst : firstLen m < 65528) :
    u16 (6 + u16At m 4 + 2) = 8 + firstLen m := by
  unfold firstLen at *
  rw [u16_of_lt (by omega)]
  omega

/-- A first field that is not in the answer is rejected before anything but the header is read. -/
theorem parserSafe_of_rejected (hver : m 0 = nioFileVersion) (hlen : 8 ≤ respLen)
    (hfirst : firstLen m < 65528) (hout : respLen < 8 + firstLen m) : ParserSafe a m respLen := by
  have hexec := exec_resolveProg m a respLen hlen hver
  rw [u16_first_unwrapped hfirst, if_pos hout] at hexec
  refine ⟨fun i hi => ?_, fun _ => ?_⟩
  · rw [hexec] at hi
    exact header_reads_lt hlen i hi
  · rw [hexec]
    exact ⟨_, rfl⟩

/-- With the first field in the answer, everything is up to the second sum. -/
theorem parserSafe_iff_of_accepted (hver : m 0 = nioFileVersion) (hlen : 8 ≤ respLen)
    (hmax : respLen ≤ 512) (hfits : 8 + firstLen m ≤ respLen) :
    ParserSafe a m respLen ↔ 8 + firstLen m + secondLen m < 65536 := by
  have hexec := exec_resolveProg m a respLen hlen hver
  have hoff : u16 (6 + u16At m 4) = 6 + firstLen m := u16_of_lt (by unfold firstLen at *; omega)
  rw [u16_first_unwrapped (by omega), hoff, if_neg (by omega)] at hexec
  have htail : u16 (u16 (6 + firstLen m + 2) + secondLen m) =
      u16 (8 + firstLen m + secondLen m) := by
    rw [u16_of_lt (n := 6 + firstLen m + 2) (by omega)]
    congr 1
    omega
  have herror : (∃ e, (exec m (resolveTail a respLen (m 1) (6 + firstLen m))).value = .error e) ↔
      respLen < u16 (u16 (6 + firstLen m + 2) + secondLen m) := resolveTail_error_iff (m 1) _
  rw [htail] at herror
  constructor
  · intro h
    -- a wrapped sum lies below the answer's end, so the field would be accepted
    by_contra hwrap
    have hsecond : secondLen m < 65536 := u16At_lt m _
    obtain ⟨e, he⟩ := h.rejects fun hfit => by
      have hle := hfit.2
      omega
    rw [hexec] at he
    have hover := herror.mp ⟨e, he⟩
    rw [u16_wrap (by omega) (by omega)] at hover
    omega
  · intro hexact
    refine ⟨fun i hi => ?_, fun hnot => ?_⟩
    · rw [hexec] at hi
      -- the header, the copy of the first field, its length again, the second field
      have hblock : clampLen (u16At m 4) a.resolvedCap ≤ firstLen m := clampLen_le _ _
      simp only [List.mem_append, List.mem_range'_1] at hi
      rcases hi with hi | hi | hi | hi
      · exact header_reads_lt hlen i hi
      · omega
      · exact header_reads_lt hlen i (by simp at hi ⊢; omega)
      · exact readsBelow_resolveTail (by omega)
          (by rw [show u16At m (6 + firstLen m) = secondLen m from rfl]; omega) i hi
    · rw [hexec]
      refine herror.mpr ?_
      rw [u16_of_lt hexact]
      by_contra hin
      exact hnot ⟨hfits, by omega⟩

/-- A first length whose sum does not wrap: the field is rejected exactly when it does not fit,
and where it fits everything is up to the second sum. -/
theorem parserSafe_unwrapped (hver : m 0 = nioFileVersion) (hlen : 8 ≤ respLen)
    (hmax : respLen ≤ 512) (hfirst : firstLen m < 65528) :
    ParserSafe a m respLen ↔
      (8 + firstLen m ≤ respLen → 8 + firstLen m + secondLen m < 65536) := by
  rcases Nat.lt_or_ge respLen (8 + firstLen m) with hout | hfits
  · exact ⟨fun _ h => by omega, fun _ => parserSafe_of_rejected hver hlen hfirst hout⟩
  · rw [parserSafe_iff_of_accepted hver hlen hmax hfits]
    exact ⟨fun h _ => h, fun h => h hfits⟩

/-- A first length whose sum wraps always passes its check. -/
theorem exec_resolveProg_wrapped (hver : m 0 = nioFileVersion) (hlen : 8 ≤ respLen)
    (hfirst : 65528 ≤ firstLen m) {off : Nat} (hoff : u16 (6 + firstLen m) = off) :
    exec m (resolveProg a respLen) =
      ⟨(exec m (resolveTail a respLen (m 1) off)).value,
        .resolvedStored ((List.range' 6 (clampLen (firstLen m) a.resolvedCap)).map m) ::
          (exec m (resolveTail a respLen (m 1) off)).events,
        [0, 1, 4, 5] ++ (List.range' 6 (clampLen (firstLen m) a.resolvedCap) ++
          ([4, 5] ++ (exec m (resolveTail a respLen (m 1) off)).reads))⟩ := by
  have hlt : firstLen m < 65536 := u16At_lt m 4
  have hsum : ¬ u16 (6 + u16At m 4 + 2) > respLen := by
    unfold firstLen at *
    rw [u16_wrap (by omega) (by omega)]
    omega
  rw [exec_resolveProg m a respLen hlen hver, if_neg hsum]
  subst hoff
  rfl

/-- The second length is looked for at the end of the 16-bit range. -/
theorem not_parserSafe_of_strays (hver : m 0 = nioFileVersion) (hlen : 8 ≤ respLen)
    (hmax : respLen ≤ 512) (hfirst : 65528 ≤ firstLen m) (hback : firstLen m < 65530) :
    ¬ ParserSafe a m respLen := by
  intro h
  have hexec := exec_resolveProg_wrapped (a := a) hver hlen hfirst (u16_of_lt (by omega))
  have hread := h.reads_lt (6 + firstLen m) (by
    rw [hexec]
    simp [mem_reads_resolveTail])
  omega

/-- The parser finds its way back into the header, to index `k`. -/
theorem parserSafe_iff_of_back (hver : m 0 = nioFileVersion) (hlen : 8 ≤ respLen)
    (hmax : respLen ≤ 512) {k : Nat} (hk : firstLen m = 65530 + k) :
    ParserSafe a m respLen ↔
      a.resolvedCap.toNat + 5 ≤ respLen ∧ respLen < u16 (k + 2 + u16At m k) := by
  have hlt : firstLen m < 65536 := u16At_lt m 4
  have hoff : u16 (6 + firstLen m) = k := by
    rw [u16_wrap (by omega) (by omega)]
    omega
  have hexec := exec_resolveProg_wrapped (a := a) hver hlen (by omega) hoff
  have h2 : u16 (k + 2) = k + 2 := u16_of_lt (by omega)
  have herror : (∃ e, (exec m (resolveTail a respLen (m 1) k)).value = .error e) ↔
      respLen < u16 (u16 (k + 2) + u16At m k) := resolveTail_error_iff (m 1) k
  rw [h2] at herror
  have hblock := range'_below_iff 6 (clampLen (firstLen m) a.resolvedCap) respLen
  constructor
  · intro h
    have hnot : ¬ FieldsFit m respLen := fun hfit => by
      have hle := hfit.1
      omega
    have hrejected := h.rejects hnot
    rw [hexec] at hrejected
    -- the copy was read inside the answer, so the capacity bounds it
    have hreads : ∀ j ∈ List.range' 6 (clampLen (firstLen m) a.resolvedCap), j < respLen := by
      intro j hj
      refine h.reads_lt j ?_
      rw [hexec]
      exact List.mem_append_right _ (List.mem_append_left _ hj)
    have hcopy := hblock.mp hreads
    refine ⟨?_, herror.mp hrejected⟩
    rcases Nat.lt_or_ge (firstLen m) a.resolvedCap.toNat with hlong | hcap
    · rw [clampLen, if_neg (by omega)] at hcopy
      omega
    · rw [clampLen_of_le hcap] at hcopy
      omega
  · rintro ⟨hcap, hover⟩
    have hcopy := hblock.mpr (by
      rw [clampLen_of_le (by omega)]
      omega)
    refine ⟨fun i hi => ?_, fun _ => ?_⟩
    · rw [hexec, resolveTail_reads_of_error (by rwa [h2])] at hi
      simp only [List.mem_append, List.mem_cons, List.not_mem_nil, or_false] at hi
      rcases hi with hi | hi | hi | hi
      · omega
      · exact hcopy i hi
      · omega
      · omega
    · rw [hexec]
      exact herror.mpr hover

/-- A first length whose sum wraps: the copy and the way to the second field start from a length
that is not there. -/
theorem parserSafe_wrapped (hver : m 0 = nioFileVersion) (hlen : 8 ≤ respLen)
    (hmax : respLen ≤ 512) (hfirst : 65528 ≤ firstLen m) :
    ParserSafe a m respLen ↔
      65530 ≤ firstLen m ∧ a.resolvedCap.toNat + 5 ≤ respLen ∧
        respLen < u16 (firstLen m - 65528 + u16At m (firstLen m - 65530)) := by
  rcases Nat.lt_or_ge (firstLen m) 65530 with hback | hback
  · have hunsafe := not_parserSafe_of_strays (a := a) hver hlen hmax hfirst hback
    exact ⟨fun h => absurd h hunsafe, fun h => by omega⟩
  · obtain ⟨k, hk⟩ := Nat.exists_eq_add_of_le hback
    rw [parserSafe_iff_of_back hver hlen hmax hk, hk,
      show 65530 + k - 65528 = k + 2 from by omega, Nat.add_sub_cancel_left]
    exact ⟨fun h => ⟨by omega, h⟩, fun h => h.2⟩

/-- **The parser.** On an answer that passes the version check it is safe exactly when the
length fields do not deceive it. -/
theorem parserSafe_iff (hver : m 0 = nioFileVersion) (hlen : 8 ≤ respLen)
    (hmax : respLen ≤ 512) :
    ParserSafe a m respLen ↔ FieldsRespected a.resolvedCap.toNat m respLen := by
  unfold FieldsRespected
  by_cases hfirst : firstLen m < 65528
  · rw [parserSafe_unwrapped hver hlen hmax hfirst]
    constructor
    · exact fun h => .inl ⟨hfirst, h⟩
    · rintro (⟨-, h⟩ | ⟨h, -⟩)
      · exact h
      · omega
  · rw [parserSafe_wrapped hver hlen hmax (by omega)]
    constructor
    · exact .inr
    · rintro (⟨h, -⟩ | h)
      · omega
      · exact h

end Parser

/-! ## The call -/

section Call

variable {dev : Device} {a : ResolveArgs} {base : CStr} {w : World} {payload : List UInt8}

/-- What is read of an answer with status OK is what the decoding reads. -/
theorem reads_resolveResponse (w : World) (respLen : Nat) :
    (resolveResponse a w fnsvcStatusOk respLen).reads =
      (exec w.respBuf (resolveProg a respLen)).reads.map fun i => (i, respLen) := by
  simp only [resolveResponse, ne_eq, not_true_eq_false, if_false]
  split <;> rfl

theorem events_resolveResponse (w : World) (respLen : Nat) :
    (resolveResponse a w fnsvcStatusOk respLen).events =
      (exec w.respBuf (resolveProg a respLen)).events := by
  simp only [resolveResponse, ne_eq, not_true_eq_false, if_false]
  split <;> rfl

/-- The call fails exactly where the decoding does. -/
theorem ret_resolveResponse (w : World) (respLen : Nat) :
    (resolveResponse a w fnsvcStatusOk respLen).ret = false ↔
      ∃ e, (exec w.respBuf (resolveProg a respLen)).value = .error e := by
  simp only [resolveResponse, ne_eq, not_true_eq_false, if_false]
  split
  next e he => exact ⟨fun _ => ⟨e, he⟩, fun _ => rfl⟩
  next he =>
    refine ⟨fun h => absurd h (by simp), fun ⟨e, he'⟩ => ?_⟩
    exact absurd (he.symm.trans he') (by simp)

/-- Two calls whose parser runs alike store and return the same. -/
theorem resolveResponse_congr {w w' : World} {respLen : Nat}
    (hsame : exec w'.respBuf (resolveProg a respLen) = exec w.respBuf (resolveProg a respLen)) :
    (resolveResponse a w' fnsvcStatusOk respLen).events =
        (resolveResponse a w fnsvcStatusOk respLen).events ∧
      (resolveResponse a w' fnsvcStatusOk respLen).ret =
        (resolveResponse a w fnsvcStatusOk respLen).ret := by
  simp only [resolveResponse, World.setLast, hsame, ne_eq, not_true_eq_false, if_false]
  cases (exec w.respBuf (resolveProg a respLen)).value with
  | error e => exact ⟨rfl, rfl⟩
  | ok v => exact ⟨rfl, rfl⟩

/-- A decoding that reads only the response does not see what stood in the buffer before it. -/
theorem exec_overlay_of_readsBelow
    (h : ReadsBelow (listMem payload) payload.length (resolveProg a payload.length))
    (m : Nat → UInt8) :
    exec (overlay m 0 payload) (resolveProg a payload.length) =
      exec (listMem payload) (resolveProg a payload.length) :=
  h.exec_congr fun _ hi => (overlay_zero_of_lt hi).symm

/-- A safe parser makes a safe call. -/
theorem resolveSafe_of_parserSafe (hfits : a.Fits base)
    (hresp : dev.respond w.past (a.sent base) = .answered fnsvcStatusOk payload)
    (h : ParserSafe a (listMem payload) payload.length) : ResolveSafe dev a base w := by
  have hexec := exec_overlay_of_readsBelow h.reads_lt
  refine ⟨fun p hp => ?_, fun w' hpast => ?_, fun status payload' hresp' hnot => ?_⟩
  · rw [fnsvcResolvePath_answered hfits hresp, reads_resolveResponse] at hp
    obtain ⟨i, hi, rfl⟩ := List.mem_map.mp hp
    refine h.reads_lt i ?_
    rw [← hexec w.respBuf]
    exact hi
  · have hresp' : dev.respond w'.past (a.sent base) = .answered fnsvcStatusOk payload := by
      rw [hpast, hresp]
    rw [fnsvcResolvePath_answered hfits hresp, fnsvcResolvePath_answered hfits hresp']
    -- both runs of the parser are the run on the answer alone
    exact resolveResponse_congr ((hexec w'.respBuf).trans (hexec w.respBuf).symm)
  · rw [hresp] at hresp'
    obtain ⟨-, rfl⟩ := Reply.answered.inj hresp'
    rw [fnsvcResolvePath_answered hfits hresp, ret_resolveResponse]
    obtain ⟨e, he⟩ := h.rejects hnot
    rw [← hexec w.respBuf] at he
    exact ⟨e, he⟩

/-- The parser is safe on the response if the call is safe with any buffer: the reads that matter do
not depend on what stood there. -/
theorem parserSafe_of_resolveSafe (hfits : a.Fits base)
    (hresp : dev.respond w.past (a.sent base) = .answered fnsvcStatusOk payload)
    (h : ResolveSafe dev a base w) : ParserSafe a (listMem payload) payload.length := by
  have hcall := fnsvcResolvePath_answered hfits hresp
  -- the reads on `resp_buf` lie in the answer, so they are those on the answer
  have hbelow : ReadsBelow (overlay w.respBuf 0 payload) payload.length
      (resolveProg a payload.length) := by
    intro i hi
    refine h.reads_lt (i, payload.length) ?_
    rw [hcall, reads_resolveResponse]
    exact List.mem_map.mpr ⟨i, hi, rfl⟩
  have hexec : exec (listMem payload) (resolveProg a payload.length) =
      exec (overlay w.respBuf 0 payload) (resolveProg a payload.length) :=
    hbelow.exec_congr fun _ hi => overlay_zero_of_lt hi
  -- the parser does on the answer what the call does on the buffer
  refine ⟨fun i hi => ?_, fun hnot => ?_⟩
  · rw [hexec] at hi
    exact hbelow i hi
  · have hret := h.rejects _ _ hresp hnot
    rw [hcall, ret_resolveResponse] at hret
    rw [hexec]
    exact hret

/-- A call that gets no answer, or one that fails the status check, is safe: it looks at no
byte of `resp_buf`. -/
theorem resolveSafe_of_unparsed (hfits : a.Fits base)
    (h : ∀ payload, dev.respond w.past (a.sent base) ≠ .answered fnsvcStatusOk payload) :
    ResolveSafe dev a base w := by
  -- nothing is decoded, whatever the statics hold
  have hquiet : ∀ w' : World, w'.past = w.past → (fnsvcResolvePath dev a w').events = [] ∧
      (fnsvcResolvePath dev a w').reads = [] ∧ (fnsvcResolvePath dev a w').ret = false := by
    intro w' hpast
    cases hresp : dev.respond w'.past (a.sent base) with
    | failed code =>
      rw [fnsvcResolvePath_failed hfits hresp]
      exact ⟨rfl, rfl, rfl⟩
    | answered status payload =>
      have hstatus : status ≠ fnsvcStatusOk := by
        rintro rfl
        exact h payload (by rw [← hpast, hresp])
      rw [fnsvcResolvePath_answered hfits hresp, resolveResponse, if_pos hstatus]
      exact ⟨rfl, rfl, rfl⟩
  obtain ⟨hevents, hreads, hret⟩ := hquiet w rfl
  -- so that every read, write and result is that of a call that only failed
  refine ⟨fun p hp => ?_, fun w' hpast => ?_, fun _ _ _ _ => hret⟩
  · rw [hreads] at hp
    cases hp
  · obtain ⟨hevents', -, hret'⟩ := hquiet w' hpast
    rw [hevents, hevents', hret, hret']
    exact ⟨rfl, rfl⟩

/-- A response that is too short or of another version is not parsed at all. -/
theorem parserSafe_of_badVersion
    (h : payload.length < 8 ∨ listMem payload 0 ≠ nioFileVersion) :
    ParserSafe a (listMem payload) payload.length := by
  obtain ⟨hvalue, -, hreads⟩ := exec_resolveProg_badVersion (listMem payload) a payload.length h
  exact ⟨hreads, fun _ => ⟨_, hvalue⟩⟩

/-- **When `fnsvc_resolve_path` stays inside the answer.** For every device, every call whose
request fits and every state of the statics: exactly when the length fields of an answer with
status OK, version 1 and at least 8 bytes do not deceive the parser. -/
theorem fnsvcResolvePath_safe_iff (hfits : a.Fits base) :
    ResolveSafe dev a base w ↔
      ∀ payload, dev.respond w.past (a.sent base) = .answered fnsvcStatusOk payload →
        8 ≤ payload.length → listMem payload 0 = nioFileVersion →
        FieldsRespected a.resolvedCap.toNat (listMem payload) payload.length := by
  by_cases hanswered : ∃ payload,
      dev.respond w.past (a.sent base) = .answered fnsvcStatusOk payload
  · obtain ⟨payload, hresp⟩ := hanswered
    have hmax : payload.length ≤ 512 := dev.within_capacity _ _ _ _ hresp
    -- there is one answer, and the condition on all answers is one on this
    constructor
    · intro h payload' hresp' hlen hver
      rw [hresp] at hresp'
      obtain ⟨-, rfl⟩ := Reply.answered.inj hresp'
      exact (parserSafe_iff hver hlen hmax).mp (parserSafe_of_resolveSafe hfits hresp h)
    · intro h
      refine resolveSafe_of_parserSafe hfits hresp ?_
      by_cases hgood : 8 ≤ payload.length ∧ listMem payload 0 = nioFileVersion
      · exact (parserSafe_iff hgood.2 hgood.1 hmax).mpr (h payload hresp hgood.1 hgood.2)
      · -- a bad header is refused before any length is read
        refine parserSafe_of_badVersion ?_
        by_cases hlen : 8 ≤ payload.length
        · exact .inr fun hver => hgood ⟨hlen, hver⟩
        · exact .inl (by omega)
  · have hnone : ∀ payload,
        dev.respond w.past (a.sent base) ≠ .answered fnsvcStatusOk payload :=
      fun payload hresp => hanswered ⟨payload, hresp⟩
    exact ⟨fun _ payload hresp => absurd hresp (hnone payload),
      fun _ => resolveSafe_of_unparsed hfits hnone⟩

end Call

/-- A call with room for 64 bytes of resolved uri and 32 of display path. -/
def plainCall : ResolveArgs where
  baseUri := some CStr.empty
  arg := none
  resolvedUri := true
  resolvedCap := 64
  displayPath := true
  displayCap := 32
  flagsOut := true

theorem plainCall_fits : plainCall.Fits CStr.empty := ⟨rfl, rfl, by decide, by decide⟩

/-- An answer of two fields of one byte. -/
def resolvedAnswer : List UInt8 := [1, 0, 0, 0, 1, 0, 0x61, 1, 0, 0x62]

/-- The equivalence for `resolvedAnswer`. -/
theorem fnsvcResolvePath_safe_resolvedAnswer :
    ResolveSafe (Device.script fun _ => .answered 0 resolvedAnswer) plainCall CStr.empty
        (World.initial 0) ↔
      ∀ payload, (Device.script fun _ => .answered 0 resolvedAnswer).respond []
          (plainCall.sent CStr.empty) = .answered fnsvcStatusOk payload →
        8 ≤ payload.length → listMem payload 0 = nioFileVersion →
        FieldsRespected 64 (listMem payload) payload.length :=
  fnsvcResolvePath_safe_iff plainCall_fits

/-- An answer of eight bytes whose first field claims 65535. -/
def wrappedAnswer : List UInt8 := [1, 0, 0, 0, 0xFF, 0xFF, 0xFF, 0]

/-- The call accepts `wrappedAnswer`: both sums wrap, and it stores 63 bytes of which two are
in the answer. -/
theorem fnsvcResolvePath_accepts_wrappedAnswer :
    ¬ ResolveSafe (Device.script fun _ => .answered 0 wrappedAnswer) plainCall CStr.empty
      (World.initial 0) := by
  intro h
  have hret := h.rejects 0 wrappedAnswer rfl (by decide)
  have haccepted : (fnsvcResolvePath (Device.script fun _ => .answered 0 wrappedAnswer)
      plainCall (World.initial 0)).ret = true := by decide +kernel
  rw [hret] at haccepted
  cases haccepted

end NioApps.Fnsvc
