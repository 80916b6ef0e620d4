import NioApps.Fnsvc.Disk
import NioApps.Fnsvc.ListDirectory
import NioApps.Fnsvc.ResolvePath

/-!
# Fnsvc — the requests, read back by their own length fields

Each encoder narrows the length of its strings to `uint16_t` before the size check. The decoders
here read a frame as the device does, so "the request carries the whole string" is a statement
about the bytes sent. It holds exactly for the strings the narrowed check is right about.

* `decodeResolve`, `decodeListing`, `decodeMount` — frames read by their length fields.
* `fnsvcResolvePath_complete_iff` — resolve requests.
* `wholeUri_iff` — listing and mount requests.
-/

namespace NioApps.Fnsvc

/-! ## Decoders -/

/-- A resolve request: version and two strings, with nothing left over. -/
def decodeResolve : List UInt8 → Option (List UInt8 × List UInt8)
  | version :: rest => do
    guard (version = nioFileVersion)
    let (base, rest) ← splitField rest
    let (arg, rest) ← splitField rest
    guard (rest = [])
    some (base, arg)
  | [] => none

structure ListingFields where
  uri : List UInt8
  start : Nat
  maxPayload : Nat
  flags : UInt8
  deriving DecidableEq

/-- A listing request: version, uri, start index, payload limit and flags. -/
def decodeListing : List UInt8 → Option ListingFields
  | version :: rest => do
    guard (version = nioFileVersion)
    let (uri, rest) ← splitField rest
    let (start, rest) ← splitU16 rest
    let (maxPayload, rest) ← splitU16 rest
    match rest with
    | [flags] => some ⟨uri, start, maxPayload, flags⟩
    | _ => none
  | [] => none

structure MountFields where
  slot : UInt8
  flags : UInt8
  sectorSizeHint : Nat
  uri : List UInt8
  deriving DecidableEq

/-- A mount request: version, slot, flags, a zero byte, sector size hint and uri. -/
def decodeMount : List UInt8 → Option MountFields
  | version :: slot :: flags :: reserved :: rest => do
    guard (version = nioDiskVersion ∧ reserved = 0)
    let (sectorSizeHint, rest) ← splitU16 rest
    let (uri, rest) ← splitField rest
    guard (rest = [])
    some ⟨slot, flags, sectorSizeHint, uri⟩
  | _ => none

theorem decodeResolve_frame {base arg : List UInt8} (hbase : base.length < 65536)
    (harg : arg.length < 65536) : decodeResolve (resolveFrame base arg) = some (base, arg) := by
  have hsecond := splitField_leBytes harg []
  rw [List.append_nil] at hsecond
  simp [resolveFrame, decodeResolve, splitField_leBytes hbase, hsecond]

/-- The frame of a listing decodes to its uri, start index, page size and flags. -/
theorem decodeListing_frame {uri : List UInt8} {start : Nat} (huri : uri.length < 65536)
    (hstart : start < 65536) :
    decodeListing (listFrame uri start) =
      some ⟨uri, start, fnsvcListMaxPayload, nioFileListFlagSortByName⟩ := by
  have hpayload : fnsvcListMaxPayload < 65536 := by decide
  simp [listFrame, decodeListing, splitField_leBytes huri, splitU16_leBytes hstart,
    splitU16_leBytes hpayload]

/-- The frame of a mount decodes to the slot, the flags, the sector size and the uri that was sent.
-/
theorem decodeMount_frame (slot : UInt8) (uri : CStr) (readonly : UInt8)
    (sectorSizeHint : UInt16) :
    decodeMount (mountFrame slot uri readonly sectorSizeHint) =
      some ⟨slot + 1, if readonly ≠ 0 then 0x01 else 0x00, sectorSizeHint.toNat, sentUri uri⟩ := by
  have hlen : u16 uri.len = (sentUri uri).length := (sentUri_length uri).symm
  have huri := splitField_leBytes (hlen ▸ u16_lt uri.len : (sentUri uri).length < 65536) []
  rw [List.append_nil, ← hlen] at huri
  have hhint : sectorSizeHint.toNat < 65536 := sectorSizeHint.toNat_lt
  rw [sentUri] at huri ⊢
  simp [mountFrame, decodeMount, splitU16_leBytes hhint, huri]

/-! ## Resolve requests -/

/-- The first outcome: 0 and REQUEST_TOO_LARGE, nothing written and nothing sent. -/
structure RefusedTooLarge (w : World) (out : ResolveResult) : Prop where
  ret : out.ret = false
  lastError : out.world.lastError = .requestTooLarge
  reqBuf : out.world.reqBuf = w.reqBuf
  past : out.world.past = w.past

/-- The second outcome: nothing is written outside `req_buf`, and the frame sent carries the two
strings. -/
structure SentWhole (w : World) (base arg : CStr) (out : ResolveResult) : Prop where
  inside : ∀ i, fnsvcIoBufSize ≤ i → out.world.reqBuf i = w.reqBuf i
  sent : ∃ frame, out.world.past = w.past ++ [resolveCall frame] ∧
    frame.length = 5 + base.len + arg.len ∧ frame.length ≤ fnsvcIoBufSize ∧
    decodeResolve frame = some (base.bytes, arg.bytes)

/-- What is asked of a call: one of the two outcomes, and the first one exactly for strings that
do not fit. -/
structure CompleteRequest (dev : Device) (a : ResolveArgs) (base : CStr) (w : World) : Prop where
  outcome : RefusedTooLarge w (fnsvcResolvePath dev a w) ∨
    SentWhole w base a.argStr (fnsvcResolvePath dev a w)
  refused_iff : RefusedTooLarge w (fnsvcResolvePath dev a w) ↔
    fnsvcIoBufSize < 5 + base.len + a.argStr.len

/-- What is made of an answer sends nothing and stores nothing in `req_buf`. -/
theorem resolveResponse_keeps (a : ResolveArgs) (w : World) (status : UInt8) (respLen : Nat) :
    (resolveResponse a w status respLen).world.past = w.past ∧
      (resolveResponse a w status respLen).world.reqBuf = w.reqBuf := by
  unfold resolveResponse
  dsimp only
  split
  · exact ⟨rfl, rfl⟩
  · split <;> exact ⟨rfl, rfl⟩

section Resolve

variable {dev : Device} {a : ResolveArgs} {base : CStr} {w : World}

variable (dev w) in
/-- What an exchange leaves of the request: it is recorded, and stands in `req_buf`. -/
theorem fnsvcResolvePath_sends (h : a.Valid base) (hfit : u16 (a.total base) ≤ 512) :
    (fnsvcResolvePath dev a w).world.past = w.past ++ [w.resolveSent a base] ∧
      (fnsvcResolvePath dev a w).world.reqBuf = (w.resolveBuf a base).mem := by
  rw [fnsvcResolvePath_exchange h hfit]
  cases dev.respond w.past (w.resolveSent a base) with
  | failed code => exact ⟨rfl, rfl⟩
  | answered status payload => exact resolveResponse_keeps a _ status payload.length

theorem ResolveArgs.Valid.fits (h : a.Valid base) (hfit : a.total base ≤ 512) : a.Fits base :=
  ⟨h.baseUri, h.resolvedUri, h.resolvedCap, hfit⟩

/-- Nothing is built past the end of a request that fits. -/
theorem resolveBuf_mem_of_ge (hfit : u16 base.len + u16 a.argStr.len + 5 ≤ 512) {i : Nat}
    (hi : 512 ≤ i) : (w.resolveBuf a base).mem i = w.reqBuf i := by
  have hchunks := resolveChunks_length base a.argStr
  apply FrameBuf.puts_mem_of_ge
  · rw [hchunks, Nat.zero_add]
    omega
  · rw [hchunks, Nat.zero_add]
    omega

variable (dev w) in
/-- A request that fits is sent whole. -/
theorem sentWhole_of_fits (h : a.Valid base) (hfit : a.total base ≤ 512) :
    SentWhole w base a.argStr (fnsvcResolvePath dev a w) := by
  obtain ⟨hpast, hbuf⟩ := fnsvcResolvePath_sends dev w h
    (Nat.le_trans (u16_le _) hfit)
  have hfits := h.fits hfit
  have hlen := resolveFrame_length base.bytes a.argStr.bytes
  have htotal : base.len + a.argStr.len + 5 ≤ 512 := hfit
  -- neither length is cut by the cast, as the total is at most 512
  have hbase : u16 base.len = base.len := u16_of_lt (by omega)
  have harg : u16 a.argStr.len = a.argStr.len := u16_of_lt (by omega)
  refine ⟨fun i hi => ?_, resolveFrame base.bytes a.argStr.bytes, ?_, ?_, ?_, ?_⟩
  · rw [hbuf]
    exact resolveBuf_mem_of_ge (by rw [hbase, harg]; exact htotal) hi
  · rw [hpast, hfits.resolveSent]
    rfl
  · rw [hlen, CStr.len, CStr.len]
    omega
  · rw [hlen]
    exact htotal
  · -- the frame decodes to both strings
    exact decodeResolve_frame (show base.len < 65536 by omega)
      (show a.argStr.len < 65536 by omega)

variable (dev w) in
/-- A total over 512 modulo 2^16 is refused before anything is sent. -/
theorem refusedTooLarge_of_large (h : a.Valid base) (hlarge : 512 < u16 (a.total base)) :
    RefusedTooLarge w (fnsvcResolvePath dev a w) := by
  rw [fnsvcResolvePath_tooLarge h hlarge]
  exact ⟨rfl, rfl, rfl, rfl⟩

/-- A call that sends something has not refused its strings. -/
theorem not_refusedTooLarge (h : a.Valid base) (hfit : u16 (a.total base) ≤ 512) :
    ¬ RefusedTooLarge w (fnsvcResolvePath dev a w) := by
  intro hrefused
  have hpast := (fnsvcResolvePath_sends dev w h hfit).1
  rw [hrefused.past] at hpast
  simp at hpast

/-- **A total that wraps** is sent, where it should be refused. -/
theorem not_completeRequest_of_wrap (h : a.Valid base) (hlarge : 512 < a.total base)
    (hwrap : u16 (a.total base) ≤ 512) : ¬ CompleteRequest dev a base w := by
  intro hcomplete
  unfold ResolveArgs.total at hlarge
  exact not_refusedTooLarge h hwrap (hcomplete.refused_iff.mpr (show 512 < _ by omega))

/-- **When a resolve request is complete.** For every device, every state of the statics and all
strings: exactly when they fit in 512 bytes, or their total is more than 512 even after the cast
to `uint16_t`. -/
theorem fnsvcResolvePath_complete_iff (h : a.Valid base) :
    CompleteRequest dev a base w ↔ a.total base ≤ 512 ∨ 512 < u16 (a.total base) := by
  have htotal : a.total base = base.len + a.argStr.len + 5 := rfl
  constructor
  · -- a total that is neither small nor refused wraps
    intro hcomplete
    by_contra hnot
    push Not at hnot
    exact not_completeRequest_of_wrap h hnot.1 hnot.2 hcomplete
  · rintro (hfit | hlarge)
    · have hwhole := sentWhole_of_fits dev w h hfit
      refine ⟨.inr hwhole, fun hrefused => ?_, fun hlong => ?_⟩
      · exact absurd hrefused (not_refusedTooLarge h (Nat.le_trans (u16_le _) hfit))
      · -- a total that fits is not over 512
        have hlong' : 512 < 5 + base.len + a.argStr.len := hlong
        omega
    · have hrefused := refusedTooLarge_of_large dev w h hlarge
      have hle := u16_le (a.total base)
      refine ⟨.inl hrefused, fun _ => ?_, fun _ => hrefused⟩
      show 512 < _
      omega

end Resolve

/-- A resolve call for a base uri, without an argument. -/
def plainResolve (base : CStr) : ResolveArgs where
  baseUri := some base
  arg := none
  resolvedUri := true
  resolvedCap := 64
  displayPath := false
  displayCap := 0
  flagsOut := false

theorem plainResolve_valid (base : CStr) : (plainResolve base).Valid base :=
  ⟨rfl, rfl, show (64 : UInt16) ≠ 0 from by decide⟩

theorem plainResolve_total (n : Nat) : (plainResolve (letters n)).total (letters n) = n + 5 :=
  congrArg (· + 5) List.length_replicate

theorem fnsvcResolvePath_complete_letters :
    CompleteRequest deadDevice (plainResolve (letters 3)) (letters 3) (World.initial 0) ↔
      (plainResolve (letters 3)).total (letters 3) ≤ 512 ∨
        512 < u16 ((plainResolve (letters 3)).total (letters 3)) :=
  fnsvcResolvePath_complete_iff (plainResolve_valid (letters 3))

/-- A base uri of 65531 letters makes a total of `2 ^ 16`, and the call sends an empty frame. -/
theorem fnsvcResolvePath_sends_wrapped :
    ¬ CompleteRequest deadDevice (plainResolve (letters 65531)) (letters 65531)
      (World.initial 0) := by
  apply not_completeRequest_of_wrap (plainResolve_valid (letters 65531))
  · rw [plainResolve_total]
    decide
  · rw [plainResolve_total]
    decide

/-! ## Listing and mount requests -/

/-- What is asked of a listing: whatever stands behind `req_buf` is left alone in every pass, every
request of every pass carries the whole uri under the start index of the pass, and for a uri that
does not fit the call sends nothing and returns 0. -/
structure ListsWhole (dev : Device) (uri : CStr) (w : World) : Prop where
  inside : ∀ (mem : Nat → UInt8) (s : PageState),
    Loop.Reaches (listStep dev uri) (listStart { w with reqBuf := mem }) s →
    ∀ i, fnsvcIoBufSize ≤ i → (worldOf (listStep dev uri s)).reqBuf i = mem i
  carried : ∀ s, Loop.Reaches (listStep dev uri) (listStart w) s →
    ∀ r ∈ sentSince s.world (worldOf (listStep dev uri s)),
      r.frame.length ≤ fnsvcIoBufSize ∧
      decodeListing r.frame =
        some ⟨uri.bytes, s.start, fnsvcListMaxPayload, nioFileListFlagSortByName⟩
  refused : fnsvcIoBufSize < uri.len + 8 →
    ∃ k r, fnsvcListDirectory dev uri true k w = .inr r ∧ r.ret = false ∧ r.world.past = w.past

/-- The same of a mount. -/
structure MountsWhole (h : FujinetNio) (dev : Device) (slot : UInt8) (uri : CStr)
    (readonly : UInt8) (sectorSizeHint : UInt16) (w : World) : Prop where
  inside : ∀ (mem : Nat → UInt8) (i : Nat), fnsvcIoBufSize ≤ i →
    (fnsvcDiskMount h dev slot uri readonly sectorSizeHint { w with reqBuf := mem }).2.reqBuf i =
      mem i
  carried : ∀ r ∈ sentSince w (fnsvcDiskMount h dev slot uri readonly sectorSizeHint w).2,
    r.frame.length ≤ fnsvcIoBufSize ∧
    decodeMount r.frame = some ⟨slot + 1, if readonly ≠ 0 then 0x01 else 0x00,
      sectorSizeHint.toNat, uri.bytes⟩
  refused : fnsvcIoBufSize < uri.len + 8 →
    (fnsvcDiskMount h dev slot uri readonly sectorSizeHint w).1 = false ∧
      (fnsvcDiskMount h dev slot uri readonly sectorSizeHint w).2.past = w.past

section List

variable {dev : Device} {uri : CStr}

theorem mem_sentSince {before after : World} {r r' : Request}
    (hpast : after.past = before.past ++ [r]) : r' ∈ sentSince before after ↔ r' = r := by
  rw [sentSince, hpast, List.drop_left, List.mem_singleton]

theorem sentSince_eq_nil {before after : World} (hpast : after.past = before.past) :
    sentSince before after = [] := by
  rw [sentSince, hpast, List.drop_length]

/-- The start index of a pass is a 16-bit number. -/
theorem listStep_start_lt {s s' : PageState} (h : listStep dev uri s = .inl s') :
    s'.start < 65536 := by
  rcases Nat.lt_or_ge listUriMax (u16 uri.len) with hlong | hfit
  · obtain ⟨r, hr, -⟩ := listStep_refuses dev s hlong
    rw [hr] at h
    cases h
  · cases hresp : dev.respond s.world.past (listRequest uri s.start) with
    | failed code =>
      rw [listStep_failed hfit hresp] at h
      cases h
    | answered status payload =>
      rw [listStep_answered hfit hresp, listResponse] at h
      split at h
      · cases h
      · obtain ⟨flags, count, -, -, -, rfl⟩ := finishPage_inl h
        exact u16_lt _

theorem sentUri_of_fits (hfit : uri.len ≤ listUriMax) : sentUri uri = uri.bytes := by
  have hmax : uri.len ≤ 504 := hfit
  rw [sentUri, u16_of_lt (show uri.len < 65536 by omega)]
  exact List.take_length

theorem u16_len_of_fits (hfit : uri.len ≤ listUriMax) : u16 uri.len ≤ listUriMax :=
  Nat.le_trans (u16_le _) hfit

/-- Nothing is built past the end of a listing request that fits. -/
theorem withListRequest_of_ge {w : World} {start i : Nat} (hfit : u16 uri.len ≤ listUriMax)
    (hi : fnsvcIoBufSize ≤ i) : (w.withListRequest uri start).reqBuf i = w.reqBuf i := by
  have hmax : u16 uri.len ≤ 504 := hfit
  have hi' : 512 ≤ i := hi
  have htake := take_length_u16 uri
  show (listRequestBuf w.reqBuf uri.bytes (u16 uri.len) start).mem i = w.reqBuf i
  apply FrameBuf.puts_mem_of_ge
  · simp [htake]
    omega
  · simp [htake]
    omega

/-- What holds between the passes of a listing whose uri fits. -/
theorem listing_reaches (hfit : uri.len ≤ listUriMax) {w : World} {s : PageState}
    (hreach : Loop.Reaches (listStep dev uri) (listStart w) s) :
    s.start < 65536 ∧ ∀ i, fnsvcIoBufSize ≤ i → s.world.reqBuf i = w.reqBuf i := by
  apply hreach.invariant fun s => s.start < 65536 ∧
    ∀ i, fnsvcIoBufSize ≤ i → s.world.reqBuf i = w.reqBuf i
  · rintro s s' ⟨-, hbuf⟩ hstep
    have hsent := (listStep_sends dev s (u16_len_of_fits hfit)).2
    rw [hstep] at hsent
    refine ⟨listStep_start_lt hstep, fun i hi => ?_⟩
    rw [← hbuf i hi, show s'.world.reqBuf = _ from hsent,
      withListRequest_of_ge (u16_len_of_fits hfit) hi]
  · exact ⟨show 0 < 65536 by decide, fun _ _ => rfl⟩

/-- A listing of a uri that fits sends it whole in every pass. -/
theorem listsWhole_of_fits (hfit : uri.len ≤ listUriMax) (w : World) : ListsWhole dev uri w where
  inside mem s hreach i hi := by
    obtain ⟨-, hbuf⟩ := listing_reaches hfit hreach
    -- the frame of the pass ends inside the buffer, and so does that of every pass before it
    rw [(listStep_sends dev s (u16_len_of_fits hfit)).2,
      withListRequest_of_ge (u16_len_of_fits hfit) hi]
    exact hbuf i hi
  carried s hreach r hr := by
    obtain ⟨hstart, -⟩ := listing_reaches hfit hreach
    obtain ⟨hpast, -⟩ := listStep_sends dev s (u16_len_of_fits hfit)
    obtain rfl := (mem_sentSince hpast).mp hr
    -- the uri is sent whole
    have hlen : (sentUri uri).length ≤ 504 := by
      rw [sentUri_of_fits hfit]
      exact hfit
    refine ⟨listRequest_fits (u16_len_of_fits hfit) s.start, ?_⟩
    rw [← sentUri_of_fits hfit]
    exact decodeListing_frame (by omega) hstart
  -- a uri that fits is not one to be refused
  refused hlarge := absurd hfit (by
    have hlarge' : 512 < uri.len + 8 := hlarge
    show ¬ uri.len ≤ 504
    omega)

/-- The longest uri that the listing's own check lets through: it allows for six bytes. -/
def listUriChecked : Nat := fnsvcIoBufSize - fnsvcListRequestOverhead

/-- A length that is refused as cast leads to no call. -/
theorem listsWhole_of_refused (hlong : listUriChecked < u16 uri.len) (w : World) :
    ListsWhole dev uri w := by
  have hlong' : 506 < u16 uri.len := hlong
  have hrefused : ∀ s, listStep dev uri s = .inr (s.fail .requestTooLarge) := fun s =>
    listStep_tooLarge dev s (show 512 < u16 uri.len + 6 by omega)
  refine ⟨fun mem s hreach i _ => ?_, fun s _ r hr => ?_, fun _ => ?_⟩
  · -- there is only the first pass
    have hstart : s.world.reqBuf = mem := by
      apply hreach.invariant fun s => s.world.reqBuf = mem
      · intro s s' _ hstep
        rw [hrefused s] at hstep
        cases hstep
      · rfl
    rw [hrefused s, ← hstart]
    rfl
  · -- nothing is sent in the one pass there is
    have hkept : (worldOf (listStep dev uri s)).past = s.world.past := by
      rw [hrefused s]
      rfl
    rw [sentSince_eq_nil hkept] at hr
    cases hr
  · exact ⟨1, _, Loop.after_succ_inr (hrefused (listStart w)) 0, rfl, rfl⟩

/-- **Two lengths too many.** With a uri of 505 or 506 bytes the frame runs past `req_buf`. -/
theorem not_listsWhole_of_overrun (hlong : listUriMax < u16 uri.len)
    (hchecked : u16 uri.len ≤ listUriChecked) (w : World) : ¬ ListsWhole dev uri w := by
  intro hwhole
  have hlong' : 504 < u16 uri.len := hlong
  have hchecked' : u16 uri.len ≤ 506 := hchecked
  have hpasses : u16 uri.len + fnsvcListRequestOverhead ≤ fnsvcIoBufSize :=
    show u16 uri.len + 6 ≤ 512 by omega
  have hlen : 512 < (listFrame (sentUri uri) 0).length := by
    rw [listFrame_length, sentUri_length]
    omega
  -- the byte behind the buffer becomes that of the frame, whatever it was
  have hstored : ∀ mem : Nat → UInt8,
      (worldOf (listStep dev uri (listStart { w with reqBuf := mem }))).reqBuf 512 =
        (listFrame (sentUri uri) 0)[512] := by
    intro mem
    rw [listStep_unsent dev _ hpasses hlong]
    have hframe := listRequestBuf_frame mem hpasses 0
    show (listRequestBuf mem uri.bytes (u16 uri.len) 0).mem 512 = _
    rw [FrameBuf.mem_eq_frame (by rw [hframe]; exact hlen)]
    simp only [hframe]
  have hkept := hwhole.inside (fun _ => (listFrame (sentUri uri) 0)[512] + 1) _ (.refl _ _) 512
    (Nat.le_refl 512)
  rw [hstored] at hkept
  exact absurd hkept (by simp)

/-- A uri whose length wraps is cut, and listed under what is left of it. -/
theorem not_listsWhole_of_wrap (hlong : listUriMax < uri.len) (hwrap : u16 uri.len ≤ listUriMax)
    (w : World) : ¬ ListsWhole dev uri w := by
  intro hwhole
  have hpast := (listStep_sends dev (listStart w) hwrap).1
  obtain ⟨-, hdecode⟩ := hwhole.carried (listStart w) (.refl _ _) _
    ((mem_sentSince hpast).mpr rfl)
  have hmax : u16 uri.len ≤ 504 := hwrap
  have hlen := sentUri_length uri
  have hsent := decodeListing_frame (show (sentUri uri).length < 65536 by omega)
    (show (listStart w).start < 65536 from show 0 < 65536 by decide)
  -- the device reads another string than the one given
  have huri : sentUri uri = uri.bytes :=
    congrArg ListingFields.uri (Option.some.inj (hsent.symm.trans hdecode))
  rw [huri] at hlen
  have hsame : uri.len = u16 uri.len := hlen
  omega

/-- **When a listing acts on the whole uri.** -/
theorem listsWhole_iff (dev : Device) (uri : CStr) (w : World) :
    ListsWhole dev uri w ↔ uri.len ≤ listUriMax ∨ listUriChecked < u16 uri.len := by
  constructor
  · intro hwhole
    by_contra hnot
    push Not at hnot
    rcases Nat.lt_or_ge listUriMax (u16 uri.len) with hlong | hwrap
    · exact not_listsWhole_of_overrun hlong hnot.2 w hwhole
    · exact not_listsWhole_of_wrap hnot.1 hwrap w hwhole
  · rintro (hfit | hlong)
    · exact listsWhole_of_fits hfit w
    · exact listsWhole_of_refused hlong w

end List

section Mount

variable {h : FujinetNio} {dev : Device} {slot : UInt8} {uri : CStr} {readonly : UInt8}
  {sectorSizeHint : UInt16} {w : World}

variable (h dev w) in
/-- A mount that is not rejected sends its request, and builds it in `req_buf`. -/
theorem fnsvcDiskMount_sends
    (hargs : ¬ (DiskCall.mount slot uri readonly sectorSizeHint).Rejected) :
    (fnsvcDiskMount h dev slot uri readonly sectorSizeHint w).2.past =
        w.past ++ [(DiskCall.mount slot uri readonly sectorSizeHint).request] ∧
      (fnsvcDiskMount h dev slot uri readonly sectorSizeHint w).2.reqBuf =
        ((FrameBuf.mk w.reqBuf 0).puts (mountChunks slot uri readonly sectorSizeHint)).mem := by
  -- what is not rejected fits the buffer and the transport
  have hlen : u16 uri.len + 8 ≤ fnsvcIoBufSize :=
    Nat.le_of_not_lt fun hlt => hargs (.inr (.inr hlt))
  have hframe := mountChunks_frame w.reqBuf slot readonly sectorSizeHint hlen
  have hfits : ((FrameBuf.mk w.reqBuf 0).puts
      (mountChunks slot uri readonly sectorSizeHint)).frame.length ≤ fnctlMaxData := by
    rw [hframe, mountFrame_length]
    exact hlen
  have hsends := diskService_sends h dev nioDiskMount w hfits (show 32 ≤ fnctlMaxData by decide)
  unfold fnsvcDiskMount
  unfold DiskCall.Rejected at hargs
  rw [hframe] at hsends
  rw [if_neg hargs]
  exact hsends

/-- Nothing is built past the end of a mount request that fits. -/
theorem mountChunks_mem_of_ge (hlen : u16 uri.len + 8 ≤ fnsvcIoBufSize) {i : Nat}
    (hi : fnsvcIoBufSize ≤ i) :
    ((FrameBuf.mk w.reqBuf 0).puts (mountChunks slot uri readonly sectorSizeHint)).mem i =
      w.reqBuf i := by
  have hlen' : u16 uri.len + 8 ≤ 512 := hlen
  have hi' : 512 ≤ i := hi
  have htake := take_length_u16 uri
  apply FrameBuf.puts_mem_of_ge
  · simp [mountChunks, htake]
    omega
  · simp [mountChunks, htake]
    omega

theorem fnsvcDiskMount_rejected
    (hargs : (DiskCall.mount slot uri readonly sectorSizeHint).Rejected) :
    fnsvcDiskMount h dev slot uri readonly sectorSizeHint w = (false, w) := if_pos hargs

/-- A rejected mount sends nothing, so that there is nothing to ask of it. -/
theorem mountsWhole_of_rejected
    (hargs : (DiskCall.mount slot uri readonly sectorSizeHint).Rejected) :
    MountsWhole h dev slot uri readonly sectorSizeHint w where
  inside mem i _ := by rw [fnsvcDiskMount_rejected hargs]
  carried r hr := by
    rw [fnsvcDiskMount_rejected hargs, sentSince_eq_nil rfl] at hr
    cases hr
  refused _ := by
    rw [fnsvcDiskMount_rejected hargs]
    exact ⟨rfl, rfl⟩

/-- A mount of a uri that fits sends it whole. -/
theorem mountsWhole_of_fits (hfit : uri.len ≤ listUriMax) :
    MountsWhole h dev slot uri readonly sectorSizeHint w := by
  rcases Classical.em (DiskCall.mount slot uri readonly sectorSizeHint).Rejected with
    hrejected | hargs
  · exact mountsWhole_of_rejected hrejected
  have hmax : uri.len ≤ 504 := hfit
  -- the cast does not cut the length
  have hu : u16 uri.len = uri.len := u16_of_lt (by omega)
  refine ⟨fun mem i hi => ?_, fun r hr => ?_, fun hlarge => ?_⟩
  · rw [(fnsvcDiskMount_sends h dev { w with reqBuf := mem } hargs).2]
    apply mountChunks_mem_of_ge _ hi
    rw [hu]
    exact Nat.add_le_add_right hmax 8
  · obtain rfl := (mem_sentSince (fnsvcDiskMount_sends h dev w hargs).1).mp hr
    refine ⟨?_, ?_⟩
    · rw [DiskCall.request, mountFrame_length, hu]
      exact Nat.add_le_add_right hmax 8
    · rw [← sentUri_of_fits hfit]
      exact decodeMount_frame slot uri readonly sectorSizeHint
  · have hlarge' : 512 < uri.len + 8 := hlarge
    omega

/-- **When a mount acts on the whole uri.** -/
theorem mountsWhole_iff (h : FujinetNio) (dev : Device) (slot : UInt8) (uri : CStr)
    (readonly : UInt8) (sectorSizeHint : UInt16) (w : World) :
    MountsWhole h dev slot uri readonly sectorSizeHint w ↔
      slot.toNat ≥ fnctlMaxUnits ∨ uri.len ≤ listUriMax ∨ u16 uri.len = 0 ∨
        listUriMax < u16 uri.len := by
  constructor
  · intro hwhole
    by_contra hnot
    push Not at hnot
    obtain ⟨hslot, hlong, hempty, hwrap⟩ := hnot
    have hwrap' : u16 uri.len ≤ 504 := hwrap
    have hlong' : 504 < uri.len := hlong
    have hargs : ¬ (DiskCall.mount slot uri readonly sectorSizeHint).Rejected := by
      rintro (hr | hr | hr)
      · exact absurd hslot (Nat.not_lt_of_le hr)
      · exact hempty hr
      · have hr' : 512 < u16 uri.len + 8 := hr
        omega
    -- the request of a shortened uri goes out
    have hpast := (fnsvcDiskMount_sends h dev w hargs).1
    rw [(hwhole.refused (show 512 < uri.len + 8 by omega)).2] at hpast
    simp at hpast
  · rintro (hslot | hfit | hempty | hlong)
    · exact mountsWhole_of_rejected (.inl hslot)
    · exact mountsWhole_of_fits hfit
    · exact mountsWhole_of_rejected (.inr (.inl hempty))
    · have hlong' : 504 < u16 uri.len := hlong
      exact mountsWhole_of_rejected (.inr (.inr (show 512 < u16 uri.len + 8 by omega)))

/-- **When listings and mounts act on the whole uri.** For every device, every state of the
statics and all arguments: exactly when the uri has at most 504 bytes, or its length cast to
`uint16_t` is still rejected, which a listing does from 507 on and a mount from 505 on. -/
theorem wholeUri_iff (h : FujinetNio) (dev : Device) (slot : UInt8) (uri : CStr)
    (readonly : UInt8) (sectorSizeHint : UInt16) (w : World) :
    (ListsWhole dev uri w ↔ uri.len ≤ listUriMax ∨ listUriChecked < u16 uri.len) ∧
      (MountsWhole h dev slot uri readonly sectorSizeHint w ↔
        slot.toNat ≥ fnctlMaxUnits ∨ uri.len ≤ listUriMax ∨ u16 uri.len = 0 ∨
          listUriMax < u16 uri.len) :=
  ⟨listsWhole_iff dev uri w, mountsWhole_iff h dev slot uri readonly sectorSizeHint w⟩

/-- A uri of 65537 letters is listed and mounted as a uri of one letter. -/
theorem shortenedUri_letters :
    ¬ ListsWhole deadDevice (letters 65537) (World.initial 0) ∧
      ¬ MountsWhole sampleHeader deadDevice 0 (letters 65537) 0 0 (World.initial 0) := by
  have hlen : (letters 65537).len = 65537 := List.length_replicate
  constructor
  · rw [listsWhole_iff, hlen]
    decide
  · rw [mountsWhole_iff, hlen]
    decide

end Mount

end NioApps.Fnsvc
