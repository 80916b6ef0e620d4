import NioApps.Fnsvc.Diagnostics
import NioApps.Fnsvc.ResolveBounds

/-!
# Fnsvc — what `fnsvc_resolve_path` leaves in the caller's memory

The stores of a call are applied to the memory of its caller, in which `resolved_uri`,
`display_path` and `flags_out` point anywhere. A conforming answer is decoded into terminated,
truncated copies. A call that fails leaves the memory alone unless the second length field is the
one that is rejected, as `resolved_uri` is written before that field is looked at, or the request
is stored past the end of `req_buf`.

* `ResolveResult.callerMem` — the memory after a call.
* `fnsvcResolvePath_decodes` — conforming answers.
* `fnsvcResolvePath_keepsOutputs_iff` — failed calls.
-/

namespace NioApps.Fnsvc

open BufProg

/-! ## The caller's memory -/

/-- Where the pointers point; a null pointer has no use for its entry. -/
structure ResolvePtrs where
  resolvedUri : Nat
  displayPath : Nat
  flagsOut : Nat

/-- One store into the caller's memory. The strings are stored with their terminator. -/
def ResolveEvent.store (p : ResolvePtrs) (mem : Nat → UInt8) : ResolveEvent → Nat → UInt8
  | .resolvedStored bytes => overlay mem p.resolvedUri (bytes ++ [0])
  | .displayStored bytes => overlay mem p.displayPath (bytes ++ [0])
  | .flagsStored flags => overlay mem p.flagsOut [flags]

/-- The caller's memory after the call. -/
def ResolveResult.callerMem (r : ResolveResult) (p : ResolvePtrs) (mem : Nat → UInt8) :
    Nat → UInt8 := r.events.foldl (ResolveEvent.store p) mem

/-- The buffers a caller hands out do not overlap. -/
structure ResolveArgs.Separate (a : ResolveArgs) (p : ResolvePtrs) : Prop where
  display : a.displayPath = true →
    p.resolvedUri + a.resolvedCap.toNat ≤ p.displayPath ∨
      p.displayPath + a.displayCap.toNat ≤ p.resolvedUri
  flagsResolved : a.flagsOut = true →
    p.flagsOut < p.resolvedUri ∨ p.resolvedUri + a.resolvedCap.toNat ≤ p.flagsOut
  flagsDisplay : a.flagsOut = true → a.displayPath = true →
    p.flagsOut < p.displayPath ∨ p.displayPath + a.displayCap.toNat ≤ p.flagsOut

/-! ## Conforming answers -/

/-- An answer: version, flags, two ignored bytes, the two length-prefixed strings, and whatever
follows. -/
def resolveAnswer (flags i₀ i₁ : UInt8) (uri path rest : List UInt8) : List UInt8 :=
  [nioFileVersion, flags, i₀, i₁] ++ (leBytes 2 uri.length ++ (uri ++
    (leBytes 2 path.length ++ (path ++ rest))))

/-- A terminated copy in a buffer of `cap` bytes: the first `min |s| (cap - 1)` bytes and a NUL. -/
def truncated (cap : UInt16) (bytes : List UInt8) : List UInt8 :=
  bytes.take (min bytes.length (cap.toNat - 1)) ++ [0]

/-- What a conforming answer leaves: the two terminated copies, the flags, and nothing else. -/
structure Decoded (a : ResolveArgs) (p : ResolvePtrs) (flags : UInt8) (uri path : List UInt8)
    (mem mem' : Nat → UInt8) : Prop where
  resolved : (List.range' p.resolvedUri (truncated a.resolvedCap uri).length).map mem' =
    truncated a.resolvedCap uri
  display : a.displayPath = true ∧ a.displayCap > 0 →
    (List.range' p.displayPath (truncated a.displayCap path).length).map mem' =
      truncated a.displayCap path
  flags : a.flagsOut = true → mem' p.flagsOut = flags
  untouched : ∀ i,
    (i < p.resolvedUri ∨ p.resolvedUri + (truncated a.resolvedCap uri).length ≤ i) →
    (a.displayPath = true ∧ a.displayCap > 0 →
      i < p.displayPath ∨ p.displayPath + (truncated a.displayCap path).length ≤ i) →
    (a.flagsOut = true → i ≠ p.flagsOut) → mem' i = mem i

theorem toNat_pos {cap : UInt16} (hcap : cap > 0) : 0 < cap.toNat :=
  UInt16.lt_iff_toNat_lt.mp hcap

/-- The copy fits its buffer. -/
theorem length_truncated_le {cap : UInt16} (hcap : cap > 0) (bytes : List UInt8) :
    (truncated cap bytes).length ≤ cap.toNat := by
  have hpos := toNat_pos hcap
  rw [truncated, List.length_append, List.length_take, List.length_singleton]
  omega

/-- It is the copy the code makes. -/
theorem take_clampLen {cap : UInt16} (hcap : cap > 0) (bytes : List UInt8) :
    bytes.take (clampLen bytes.length cap) ++ [0] = truncated cap bytes := by
  have hpos := toNat_pos hcap
  have hclamp : clampLen bytes.length cap = min bytes.length (cap.toNat - 1) := by
    rcases Nat.lt_or_ge bytes.length cap.toNat with hlt | hge
    · rw [clampLen, if_neg (by omega)]
      omega
    · rw [clampLen_of_le hge]
      omega
  rw [hclamp, truncated]

section Answer

variable (flags i₀ i₁ : UInt8) (uri path rest : List UInt8)

/-- An encoded answer has eight bytes beside its two strings and what trails. -/
theorem resolveAnswer_length :
    (resolveAnswer flags i₀ i₁ uri path rest).length =
      8 + uri.length + path.length + rest.length := by
  simp [resolveAnswer]
  omega

variable {uri path}

/-- The first length in an encoded answer is that of the first string. -/
theorem firstLen_resolveAnswer (huri : uri.length < 65536) :
    firstLen (listMem (resolveAnswer flags i₀ i₁ uri path rest)) = uri.length :=
  u16At_listMem [nioFileVersion, flags, i₀, i₁] _ huri

/-- The second field is found after the whole first string, however much of it is copied. -/
theorem secondLen_resolveAnswer (huri : uri.length < 65536) (hpath : path.length < 65536) :
    secondLen (listMem (resolveAnswer flags i₀ i₁ uri path rest)) = path.length := by
  have hpre : resolveAnswer flags i₀ i₁ uri path rest =
      ([nioFileVersion, flags, i₀, i₁] ++ leBytes 2 uri.length ++ uri) ++
        (leBytes 2 path.length ++ (path ++ rest)) := by
    simp [resolveAnswer]
  have hlen : 6 + uri.length =
      ([nioFileVersion, flags, i₀, i₁] ++ leBytes 2 uri.length ++ uri).length := by
    simp
    omega
  rw [secondLen, firstLen_resolveAnswer flags i₀ i₁ rest huri, hpre, hlen]
  exact u16At_listMem _ _ hpath

variable (path) in
/-- A block at the start of the first string. -/
theorem map_resolveAnswer_uri {n : Nat} (hn : n ≤ uri.length) :
    (List.range' 6 n).map (listMem (resolveAnswer flags i₀ i₁ uri path rest)) = uri.take n := by
  have hpre : resolveAnswer flags i₀ i₁ uri path rest =
      ([nioFileVersion, flags, i₀, i₁] ++ leBytes 2 uri.length) ++
        (uri ++ (leBytes 2 path.length ++ (path ++ rest))) := by
    simp [resolveAnswer]
  rw [hpre]
  exact map_listMem_append ([nioFileVersion, flags, i₀, i₁] ++ leBytes 2 uri.length) uri _ hn

variable (uri) in
/-- A block at the start of the second string. -/
theorem map_resolveAnswer_path {n : Nat} (hn : n ≤ path.length) :
    (List.range' (8 + uri.length) n).map
      (listMem (resolveAnswer flags i₀ i₁ uri path rest)) = path.take n := by
  have hpre : resolveAnswer flags i₀ i₁ uri path rest =
      ([nioFileVersion, flags, i₀, i₁] ++ leBytes 2 uri.length ++ uri ++
        leBytes 2 path.length) ++ (path ++ rest) := by
    simp [resolveAnswer]
  have hlen : 8 + uri.length = ([nioFileVersion, flags, i₀, i₁] ++ leBytes 2 uri.length ++ uri ++
      leBytes 2 path.length).length := by
    simp
    omega
  rw [hpre, hlen]
  exact map_listMem_append _ path rest hn

variable {flags i₀ i₁ rest}

/-- **The parser on a conforming answer.** -/
theorem exec_resolveAnswer (a : ResolveArgs) {payload : List UInt8}
    (hpayload : payload = resolveAnswer flags i₀ i₁ uri path rest) (hmax : payload.length ≤ 512) :
    (exec (listMem payload) (resolveProg a payload.length)).value = .ok ⟨⟩ ∧
      (exec (listMem payload) (resolveProg a payload.length)).events =
        .resolvedStored (uri.take (clampLen uri.length a.resolvedCap)) ::
          ((if a.displayPath ∧ a.displayCap > 0 then
              [.displayStored (path.take (clampLen path.length a.displayCap))] else []) ++
            if a.flagsOut then [.flagsStored flags] else []) := by
  have hlen : payload.length = 8 + uri.length + path.length + rest.length := by
    rw [hpayload, resolveAnswer_length]
  have hfirst : u16At (listMem payload) 4 = uri.length := by
    rw [hpayload]
    exact firstLen_resolveAnswer flags i₀ i₁ rest (by omega)
  have hsecond : u16At (listMem payload) (6 + uri.length) = path.length := by
    have hfield := secondLen_resolveAnswer flags i₀ i₁ rest
      (show uri.length < 65536 by omega) (show path.length < 65536 by omega)
    rwa [secondLen, firstLen_resolveAnswer flags i₀ i₁ rest (by omega), ← hpayload] at hfield
  have hflags : listMem payload 1 = flags := by rw [hpayload]; rfl
  have hsum : u16 (6 + uri.length + 2) = 8 + uri.length := by
    rw [u16_of_lt (by omega)]
    omega
  have hoff : u16 (6 + uri.length) = 6 + uri.length := u16_of_lt (by omega)
  have hend : u16 (8 + uri.length + path.length) = 8 + uri.length + path.length :=
    u16_of_lt (by omega)
  have htail := exec_resolveTail (listMem payload) a payload.length flags (6 + uri.length)
  rw [hsecond, hsum, hend, if_neg (by omega), exec_storeDisplay] at htail
  rw [exec_resolveProg (listMem payload) a payload.length (by omega) (by rw [hpayload]; rfl),
    hfirst, hsum, if_neg (by omega), hoff, hflags, htail]
  -- what is copied are prefixes of the two strings
  have huri := map_resolveAnswer_uri flags i₀ i₁ path rest (clampLen_le uri.length a.resolvedCap)
  have hpath := map_resolveAnswer_path flags i₀ i₁ uri rest
    (clampLen_le path.length a.displayCap)
  rw [← hpayload] at huri hpath
  refine ⟨rfl, ?_⟩
  dsimp only
  rw [huri, hpath]
  split <;> rfl

end Answer

/-! ## The stores of a decoded answer -/

section Stores

variable {a : ResolveArgs} {p : ResolvePtrs}

/-- The copy into `display_path`, where there is one. -/
def storedPath (a : ResolveArgs) (p : ResolvePtrs) (path : List UInt8) (mem : Nat → UInt8) :
    Nat → UInt8 :=
  if a.displayPath = true ∧ a.displayCap > 0 then
    overlay mem p.displayPath (truncated a.displayCap path)
  else mem

/-- The store of the flags, where there is one. -/
def storedFlags (a : ResolveArgs) (p : ResolvePtrs) (flags : UInt8) (mem : Nat → UInt8) :
    Nat → UInt8 :=
  if a.flagsOut = true then overlay mem p.flagsOut [flags] else mem

/-- Storing the path touches only its own bytes. -/
theorem storedPath_of_outside {path : List UInt8} {mem : Nat → UInt8} {i : Nat}
    (h : a.displayPath = true ∧ a.displayCap > 0 →
      i < p.displayPath ∨ p.displayPath + (truncated a.displayCap path).length ≤ i) :
    storedPath a p path mem i = mem i := by
  unfold storedPath
  split
  next hdisplay =>
    rcases h hdisplay with hbelow | habove
    · exact overlay_of_lt hbelow
    · exact overlay_of_ge habove
  · rfl

/-- Storing the flags touches only its own byte. -/
theorem storedFlags_of_ne {flags : UInt8} {mem : Nat → UInt8} {i : Nat}
    (h : a.flagsOut = true → i ≠ p.flagsOut) : storedFlags a p flags mem i = mem i := by
  unfold storedFlags
  split
  next hflags =>
    rcases Nat.lt_or_gt_of_ne (h hflags) with hbelow | habove
    · exact overlay_of_lt hbelow
    · exact overlay_of_ge habove
  · rfl

/-- The events of a decoded answer, applied to a memory. -/
theorem foldl_stores (hcap : a.resolvedCap > 0) (flags : UInt8) (uri path : List UInt8)
    (mem : Nat → UInt8) :
    (ResolveEvent.resolvedStored (uri.take (clampLen uri.length a.resolvedCap)) ::
      ((if a.displayPath ∧ a.displayCap > 0 then
          [.displayStored (path.take (clampLen path.length a.displayCap))] else []) ++
        if a.flagsOut then [.flagsStored flags] else [])).foldl (ResolveEvent.store p) mem =
      storedFlags a p flags
        (storedPath a p path (overlay mem p.resolvedUri (truncated a.resolvedCap uri))) := by
  rw [List.foldl_cons, List.foldl_append, ResolveEvent.store, take_clampLen hcap, storedFlags,
    storedPath]
  split
  next hdisplay =>
    rw [List.foldl_cons, List.foldl_nil, ResolveEvent.store, take_clampLen hdisplay.2]
    split <;> rfl
  · split <;> rfl

/-- **The three stores**, made one after the other into buffers that do not overlap. -/
theorem decoded_stores (hcap : a.resolvedCap > 0) (hsep : a.Separate p) (flags : UInt8)
    (uri path : List UInt8) (mem : Nat → UInt8) :
    Decoded a p flags uri path mem (storedFlags a p flags
      (storedPath a p path (overlay mem p.resolvedUri (truncated a.resolvedCap uri)))) := by
  have huriLen := length_truncated_le hcap uri
  refine ⟨?_, fun hdisplay => ?_, fun hflags => ?_, fun i hresolved hdisplay hflags => ?_⟩
  · -- the two later stores are elsewhere
    refine (List.map_congr_left fun i hi => ?_).trans (map_overlay_range' mem _ _)
    have hbounds := List.mem_range'_1.mp hi
    rw [storedFlags_of_ne, storedPath_of_outside]
    · -- the display path stands apart from the uri
      intro hdisplay
      have hpathLen := length_truncated_le hdisplay.2 path
      have hapart := hsep.display hdisplay.1
      omega
    · -- and so does the byte of the flags
      intro hflags
      have hapart := hsep.flagsResolved hflags
      omega
  · -- the display path itself, which the flags do not touch
    have hpathLen := length_truncated_le hdisplay.2 path
    rw [storedPath, if_pos hdisplay]
    refine (List.map_congr_left fun i hi => ?_).trans (map_overlay_range'
      (overlay mem p.resolvedUri (truncated a.resolvedCap uri)) p.displayPath _)
    have hbounds := List.mem_range'_1.mp hi
    refine storedFlags_of_ne fun hflags => ?_
    have hapart := hsep.flagsDisplay hflags hdisplay.1
    omega
  · -- the flags are stored last
    rw [storedFlags, if_pos hflags]
    exact overlay_add (j := 0) (by simp)
  · -- what none of the three stores touches
    rw [storedFlags_of_ne hflags, storedPath_of_outside hdisplay]
    rcases hresolved with hbelow | habove
    · exact overlay_of_lt hbelow
    · exact overlay_of_ge habove

/-- **Conforming answers are decoded.** For every call whose request fits, every state of the
statics and every conforming answer: the call returns 1 and leaves the truncated copies and the
flags, wherever in its memory the caller wants them. -/
theorem fnsvcResolvePath_decodes {dev : Device} {base : CStr} {w : World} {flags i₀ i₁ : UInt8}
    {uri path rest : List UInt8} (hfits : a.Fits base)
    (hresp : dev.respond w.past (a.sent base) =
      .answered fnsvcStatusOk (resolveAnswer flags i₀ i₁ uri path rest))
    (hsep : a.Separate p) (mem : Nat → UInt8) :
    (fnsvcResolvePath dev a w).ret = true ∧
      Decoded a p flags uri path mem ((fnsvcResolvePath dev a w).callerMem p mem) := by
  have hcap : a.resolvedCap > 0 := UInt16.pos_iff_ne_zero.mpr hfits.resolvedCap
  have hmax : (resolveAnswer flags i₀ i₁ uri path rest).length ≤ 512 :=
    dev.within_capacity _ _ _ _ hresp
  have hlen := resolveAnswer_length flags i₀ i₁ uri path rest
  -- no sum of the parser wraps, so it stays inside the answer
  have hrespected : FieldsRespected a.resolvedCap.toNat
      (listMem (resolveAnswer flags i₀ i₁ uri path rest))
      (resolveAnswer flags i₀ i₁ uri path rest).length := by
    refine .inl ?_
    rw [firstLen_resolveAnswer flags i₀ i₁ rest (by omega),
      secondLen_resolveAnswer flags i₀ i₁ rest (by omega) (by omega)]
    omega
  have hsafe := (parserSafe_iff (a := a) rfl (by omega) hmax).mpr hrespected
  obtain ⟨hvalue, hevents⟩ := exec_resolveAnswer a rfl hmax
  have hexec := exec_overlay_of_readsBelow hsafe.reads_lt w.respBuf
  rw [fnsvcResolvePath_answered hfits hresp]
  constructor
  · rw [← Bool.not_eq_false, ret_resolveResponse]
    rintro ⟨e, he⟩
    rw [show (w.resolveAnswered a base _).respBuf = overlay w.respBuf 0 _ from rfl, hexec,
      hvalue] at he
    cases he
  · rw [ResolveResult.callerMem, events_resolveResponse,
      show (w.resolveAnswered a base _).respBuf = overlay w.respBuf 0 _ from rfl, hexec, hevents,
      foldl_stores hcap]
    exact decoded_stores hcap hsep flags uri path mem

end Stores

/-- Buffers for `plainCall`. -/
def plainPtrs : ResolvePtrs := ⟨0, 64, 96⟩

theorem plainPtrs_separate : plainCall.Separate plainPtrs :=
  ⟨fun _ => .inl (by decide), fun _ => .inr (by decide), fun _ _ => .inr (by decide)⟩

theorem fnsvcResolvePath_decodes_resolvedAnswer :
    (fnsvcResolvePath (Device.script fun _ => .answered 0 resolvedAnswer) plainCall
        (World.initial 0)).ret = true ∧
      Decoded plainCall plainPtrs 0 [0x61] [0x62] (fun _ => 0xFF)
        ((fnsvcResolvePath (Device.script fun _ => .answered 0 resolvedAnswer) plainCall
          (World.initial 0)).callerMem plainPtrs fun _ => 0xFF) := by
  have hresp : (Device.script fun _ => .answered 0 resolvedAnswer).respond (World.initial 0).past
      (plainCall.sent CStr.empty) =
        .answered fnsvcStatusOk (resolveAnswer 0 0 0 [0x61] [0x62] []) := rfl
  exact fnsvcResolvePath_decodes plainCall_fits hresp plainPtrs_separate _

/-! ## Failed calls -/

/-- The first length field passes its check and the second one does not. -/
def LateRejection (m : Nat → UInt8) (respLen : Nat) : Prop :=
  u16 (firstLen m + 8) ≤ respLen ∧
    respLen < u16 (firstLen m + 8 + u16At m (u16 (firstLen m + 6)))

section Failed

variable {m : Nat → UInt8} {a : ResolveArgs} {respLen : Nat}

/-- The sum that the code checks first, written with the first length. -/
theorem first_check (m : Nat → UInt8) : u16 (6 + u16At m 4 + 2) = u16 (firstLen m + 8) := by
  rw [firstLen]
  congr 1
  omega

/-- The second check, at the place where the code looks for the second length. -/
theorem resolveTail_rejects_iff (flags : UInt8) :
    (∃ e, (exec m (resolveTail a respLen flags (u16 (6 + u16At m 4)))).value = .error e) ↔
      respLen < u16 (firstLen m + 8 + u16At m (u16 (firstLen m + 6))) := by
  have hoff : u16 (6 + u16At m 4) = u16 (firstLen m + 6) := by
    rw [firstLen, Nat.add_comm]
  have hsum : u16 (u16 (u16 (firstLen m + 6) + 2) + u16At m (u16 (firstLen m + 6))) =
      u16 (firstLen m + 8 + u16At m (u16 (firstLen m + 6))) := by
    generalize u16At m (u16 (firstLen m + 6)) = second
    unfold u16
    omega
  rw [resolveTail_error_iff, hoff, hsum]

theorem resolveTail_events_of_error {flags : UInt8} {off : Nat}
    (h : ∃ e, (exec m (resolveTail a respLen flags off)).value = .error e) :
    (exec m (resolveTail a respLen flags off)).events = [] := by
  rw [resolveTail_error_iff] at h
  rw [exec_resolveTail, if_pos h]

/-- A parser that fails before the second check has stored nothing. -/
theorem events_of_failed (hlen : 8 ≤ respLen) (hver : m 0 = nioFileVersion)
    (hearly : ¬ LateRejection m respLen)
    (hfailed : ∃ e, (exec m (resolveProg a respLen)).value = .error e) :
    (exec m (resolveProg a respLen)).events = [] := by
  rw [exec_resolveProg m a respLen hlen hver, first_check] at hfailed ⊢
  split
  · rfl
  next hfirst =>
    rw [if_neg hfirst] at hfailed
    have hsecond := (resolveTail_rejects_iff (m 1)).mp hfailed
    exact absurd ⟨Nat.le_of_not_lt hfirst, hsecond⟩ hearly

/-- One that fails in the second check has stored a resolved uri. -/
theorem events_of_lateRejection (hlen : 8 ≤ respLen) (hver : m 0 = nioFileVersion)
    (hlate : LateRejection m respLen) :
    (∃ e, (exec m (resolveProg a respLen)).value = .error e) ∧
      ∃ bytes, (exec m (resolveProg a respLen)).events = [.resolvedStored bytes] := by
  have htail := (resolveTail_rejects_iff (a := a) (m 1)).mpr hlate.2
  rw [exec_resolveProg m a respLen hlen hver, first_check, if_neg (Nat.not_lt_of_le hlate.1)]
  refine ⟨htail, (List.range' 6 (clampLen (u16At m 4) a.resolvedCap)).map m, ?_⟩
  rw [resolveTail_events_of_error htail]

end Failed

/-- How a call may end: what it returns, and the caller's memory after it. A request that is stored
past the end of `req_buf` may overwrite anything, the caller's outputs included. -/
inductive Ends (dev : Device) (a : ResolveArgs) (w : World) (p : ResolvePtrs)
    (mem : Nat → UInt8) : Bool → (Nat → UInt8) → Prop where
  | made : Ends dev a w p mem (fnsvcResolvePath dev a w).ret
      ((fnsvcResolvePath dev a w).callerMem p mem)
  | overrun (hover : (FnsvcCall.resolvePath a).Overruns) (ret : Bool) (mem' : Nat → UInt8) :
      Ends dev a w p mem ret mem'

/-- A call that returns 0 leaves the caller's memory as it was. -/
def KeepsOutputs (dev : Device) (a : ResolveArgs) (w : World) : Prop :=
  ∀ (p : ResolvePtrs) (mem mem' : Nat → UInt8), Ends dev a w p mem false mem' → mem' = mem

theorem callerMem_of_events {r : ResolveResult} (h : r.events = []) (p : ResolvePtrs)
    (mem : Nat → UInt8) : r.callerMem p mem = mem := by
  rw [ResolveResult.callerMem, h]
  rfl

/-- The call is sent and its answer is rejected late: `resolved_uri` gets a terminator it did not
have. -/
theorem overwrites_of_lateRejection {dev : Device} {a : ResolveArgs} {w : World} {base : CStr}
    {payload : List UInt8} (hvalid : a.Valid base) (hfit : u16 (a.total base) ≤ 512)
    (hresp : dev.respond w.past (w.resolveSent a base) = .answered fnsvcStatusOk payload)
    (hlen : 8 ≤ payload.length) (hver : listMem payload 0 = nioFileVersion)
    (hlate : LateRejection (overlay w.respBuf 0 payload) payload.length) :
    (fnsvcResolvePath dev a w).ret = false ∧
      (fnsvcResolvePath dev a w).callerMem ⟨0, 0, 0⟩ (fun _ => 1) ≠ fun _ => 1 := by
  have hver' : overlay w.respBuf 0 payload 0 = nioFileVersion := by
    rw [overlay_zero_of_lt (by omega), hver]
  obtain ⟨hfailed, bytes, hevents⟩ := events_of_lateRejection (a := a) hlen hver' hlate
  rw [fnsvcResolvePath_exchange hvalid hfit, hresp]
  refine ⟨(ret_resolveResponse _ _).mpr hfailed, fun hmem => ?_⟩
  -- the terminator stands where there was none
  have hnul := congrFun hmem (0 + bytes.length)
  rw [ResolveResult.callerMem, events_resolveResponse] at hnul
  rw [show ((w.withResolveRequest a base).answeredCall (w.resolveSent a base) payload).respBuf =
    overlay w.respBuf 0 payload from rfl, hevents, List.foldl_cons, List.foldl_nil,
    ResolveEvent.store, overlay_add (by simp)] at hnul
  simp at hnul

/-- A call that fails without a late rejection has stored nothing. -/
theorem events_of_ret_false {dev : Device} {a : ResolveArgs} {w : World}
    (hearly : ∀ base payload, a.Valid base → u16 (a.total base) ≤ 512 →
      dev.respond w.past (w.resolveSent a base) = .answered fnsvcStatusOk payload →
      8 ≤ payload.length → listMem payload 0 = nioFileVersion →
      ¬ LateRejection (overlay w.respBuf 0 payload) payload.length)
    (hret : (fnsvcResolvePath dev a w).ret = false) : (fnsvcResolvePath dev a w).events = [] := by
  -- a call that returns before the exchange stores nothing
  rcases Classical.em (∃ base, a.Valid base) with ⟨base, hvalid⟩ | hinvalid
  swap
  · rw [fnsvcResolvePath_invalid (not_exists.mp hinvalid)]
  rcases Nat.lt_or_ge 512 (u16 (a.total base)) with hlarge | hfit
  · rw [fnsvcResolvePath_tooLarge hvalid hlarge]
  rw [fnsvcResolvePath_exchange hvalid hfit] at hret ⊢
  cases hresp : dev.respond w.past (w.resolveSent a base) with
  | failed code => rfl
  | answered status payload =>
    rw [hresp] at hret
    dsimp only at hret ⊢
    rcases eq_or_ne status fnsvcStatusOk with rfl | hstatus
    · rw [ret_resolveResponse] at hret
      rw [events_resolveResponse]
      rcases Classical.em (8 ≤ payload.length ∧ listMem payload 0 = nioFileVersion) with
        ⟨hlen, hver⟩ | hbad
      · -- an answer with a good header fails at one of the two length checks, and not at the second
        -- after the first has passed
        have hver' : overlay w.respBuf 0 payload 0 = nioFileVersion := by
          rw [overlay_zero_of_lt (by omega), hver]
        exact events_of_failed hlen hver' (hearly base payload hvalid hfit hresp hlen hver) hret
      · -- the header of the answer is refused before anything is stored
        refine (exec_resolveProg_badVersion _ a payload.length ?_).2.1
        rcases Nat.lt_or_ge payload.length 8 with hshort | hlen
        · exact .inl hshort
        · refine .inr fun hver => hbad ⟨hlen, ?_⟩
          rw [← hver]
          exact (overlay_zero_of_lt (by omega)).symm
    · rw [resolveResponse, if_pos hstatus]

/-- **When a failed call keeps the outputs.** For every device, all arguments and every state of
the statics: exactly when the request fits `req_buf`, and no answer with status OK, version 1 and
at least 8 bytes is rejected for its second length field after the first one passed. -/
theorem fnsvcResolvePath_keepsOutputs_iff (dev : Device) (a : ResolveArgs) (w : World) :
    KeepsOutputs dev a w ↔
      ¬ (FnsvcCall.resolvePath a).Overruns ∧
      ∀ base payload, a.Valid base → u16 (a.total base) ≤ 512 →
        dev.respond w.past (w.resolveSent a base) = .answered fnsvcStatusOk payload →
        8 ≤ payload.length → listMem payload 0 = nioFileVersion →
        ¬ LateRejection (overlay w.respBuf 0 payload) payload.length := by
  constructor
  · intro hkeeps
    refine ⟨fun hover => ?_, fun base payload hvalid hfit hresp hlen hver hlate => ?_⟩
    · -- an overrun may leave a 0 where there was a 1
      have hmem := hkeeps ⟨0, 0, 0⟩ (fun _ => 1) (fun _ => 0) (.overrun hover _ _)
      exact absurd (congrFun hmem 0) (by decide)
    · -- a late rejection overwrites the first string
      obtain ⟨hret, hmem⟩ := overwrites_of_lateRejection hvalid hfit hresp hlen hver hlate
      have hends : Ends dev a w ⟨0, 0, 0⟩ (fun _ => 1) _ _ := .made
      rw [hret] at hends
      exact hmem (hkeeps _ _ _ hends)
  · rintro ⟨hfits, hearly⟩ p mem mem' hends
    generalize hret : false = ret at hends
    cases hends with
    -- no answer is rejected late, so that a call that fails has stored nothing
    | made => exact callerMem_of_events (events_of_ret_false hearly hret.symm) p mem
    | overrun hover => exact absurd hover hfits

/-- An answer whose first field fits, and whose second one claims five bytes that are not there. -/
def lateAnswer : List UInt8 := [1, 0, 0, 0, 1, 0, 0x61, 5, 0]

/-- The call fails on `lateAnswer`, and `resolved_uri` is overwritten. -/
theorem fnsvcResolvePath_overwrites_lateAnswer :
    ¬ KeepsOutputs (Device.script fun _ => .answered 0 lateAnswer) plainCall (World.initial 0) := by
  intro hkeeps
  have hret : (fnsvcResolvePath (Device.script fun _ => .answered 0 lateAnswer) plainCall
      (World.initial 0)).ret = false := by decide +kernel
  have hends : Ends (Device.script fun _ => .answered 0 lateAnswer) plainCall (World.initial 0)
      plainPtrs (fun _ => 0xFF) _ _ := .made
  rw [hret] at hends
  exact absurd (congrFun (hkeeps _ _ _ hends) 0) (by decide +kernel)

end NioApps.Fnsvc
