import NioApps.Fnsvc.Transport

/-!
# Fnsvc — `fnsvc_resolve_path`

The request for a base uri and an argument, and the parser of the two length-prefixed fields of
the answer. The stores into the caller's variables are the events of the parser, in order.
`exec_resolveProg` writes a run of it out: which bytes it reads, what it stores, how it leaves.
-/

namespace NioApps.Fnsvc

open BufProg

/-- The arguments of `fnsvc_resolve_path`; `none` and `false` are null pointers. -/
structure ResolveArgs where
  baseUri : Option CStr
  arg : Option CStr
  resolvedUri : Bool
  resolvedCap : UInt16
  displayPath : Bool
  displayCap : UInt16
  flagsOut : Bool

/-- What is stored for the caller: a terminated copy in `resolved_uri`, one in `display_path`,
and `*flags_out`. -/
inductive ResolveEvent where
  | resolvedStored (bytes : List UInt8)
  | displayStored (bytes : List UInt8)
  | flagsStored (flags : UInt8)
  deriving DecidableEq

/-- How a call ends, and the reads of `resp_buf` it made, each under its response length. -/
structure ResolveResult where
  ret : Bool
  world : World
  events : List ResolveEvent
  reads : List (Nat × Nat)

/-! ## The request -/

/-- The request as it is built in `req_buf`. -/
def resolveRequestBuf (reqBuf : Nat → UInt8) (base arg : List UInt8) (baseLen argLen : Nat) :
    FrameBuf :=
  (FrameBuf.mk reqBuf 0).puts
    [[nioFileVersion], putU16le baseLen, base.take baseLen, putU16le argLen,
      if argLen ≠ 0 then arg.take argLen else []]

def resolveCall (frame : List UInt8) : Request where
  device := nioDeviceidFile
  command := nioFileResolvePath
  frame := frame
  capacity := fnsvcIoBufSize

/-- The frame for a base uri and an argument: version and two length-prefixed strings. -/
def resolveFrame (base arg : List UInt8) : List UInt8 :=
  nioFileVersion :: (leBytes 2 base.length ++ (base ++ (leBytes 2 arg.length ++ arg)))

def resolveRequest (base arg : CStr) : Request := resolveCall (resolveFrame base.bytes arg.bytes)

/-! ## The parser -/

/-- `len`, or one less than `cap` where a terminated copy of `len` bytes does not fit. -/
def clampLen (len : Nat) (cap : UInt16) : Nat :=
  if len ≥ cap.toNat then u16 (cap.toNat - 1) else len

/-- The copy into `display_path`, where there is one. -/
def storeDisplay (a : ResolveArgs) (off len : Nat) : BufProg ResolveEvent PUnit :=
  if a.displayPath ∧ a.displayCap > 0 then do
    let path ← block off (clampLen len a.displayCap)
    report (.displayStored path)
  else pure ⟨⟩

/-- `*flags_out = flags`, where there is one. -/
def storeFlags (a : ResolveArgs) (flags : UInt8) : BufProg ResolveEvent PUnit :=
  if a.flagsOut then report (.flagsStored flags) else pure ⟨⟩

/-- The second field, at `off`. -/
def resolveTail (a : ResolveArgs) (respLen : Nat) (flags : UInt8) (off : Nat) :
    BufProg ResolveEvent (Except FnsvcErr PUnit) := do
  let len ← getU16le off
  let off := u16 (off + 2)
  if u16 (off + len) > respLen then pure (.error .shortResponse)
  else do
    storeDisplay a off len
    storeFlags a flags
    pure (.ok ⟨⟩)

/-- The answer with status OK, from the version check on. -/
def resolveProg (a : ResolveArgs) (respLen : Nat) :
    BufProg ResolveEvent (Except FnsvcErr PUnit) :=
  if respLen < 8 then pure (.error .badVersion)
  else do
    let version ← byte 0
    if version ≠ nioFileVersion then pure (.error .badVersion)
    else do
      let flags ← byte 1
      let len ← getU16le 4
      if u16 (6 + len + 2) > respLen then pure (.error .shortResponse)
      else do
        let uri ← block 6 (clampLen len a.resolvedCap)
        report (.resolvedStored uri)
        -- the source reads the first length once more
        let len ← getU16le 4
        resolveTail a respLen flags (u16 (6 + len))

/-! ## The call -/

/-- The call after an answered exchange. -/
def resolveResponse (a : ResolveArgs) (w : World) (status : UInt8) (respLen : Nat) :
    ResolveResult :=
  let w := w.setLast status respLen
  if status ≠ fnsvcStatusOk then ⟨false, w.fail .status, [], []⟩
  else
    let out := exec w.respBuf (resolveProg a respLen)
    let reads := out.reads.map fun i => (i, respLen)
    match out.value with
    | .error e => ⟨false, w.fail e, out.events, reads⟩
    | .ok _ => ⟨true, w, out.events, reads⟩

def fnsvcResolvePath (dev : Device) (a : ResolveArgs) (w : World) : ResolveResult :=
  match a.baseUri with
  | none => ⟨false, w.fail .invalidArg, [], []⟩
  | some base =>
    if a.resolvedUri = false ∨ a.resolvedCap = 0 then ⟨false, w.fail .invalidArg, [], []⟩
    else
      let arg := a.arg.getD CStr.empty
      let baseLen := u16 base.len
      let argLen := u16 arg.len
      if u16 (baseLen + argLen + fnsvcResolvePathRequestOverhead) > fnsvcIoBufSize then
        ⟨false, w.fail .requestTooLarge, [], []⟩
      else
        let b := resolveRequestBuf w.reqBuf base.bytes arg.bytes baseLen argLen
        match serviceCall dev (resolveCall b.frame) { w.clearLast with reqBuf := b.mem } with
        | (none, w) => ⟨false, w.fail .transport, [], []⟩
        | (some (status, respLen), w) => resolveResponse a w status respLen

/-! ## The exchange of a call -/

/-- A call that gets past the null and capacity checks. -/
structure ResolveArgs.Valid (a : ResolveArgs) (base : CStr) : Prop where
  baseUri : a.baseUri = some base
  resolvedUri : a.resolvedUri = true
  resolvedCap : a.resolvedCap ≠ 0

/-- The argument as it is used: null stands for the empty string. -/
def ResolveArgs.argStr (a : ResolveArgs) : CStr := a.arg.getD CStr.empty

/-- `5 + |base_uri| + |arg|`, as an integer. -/
def ResolveArgs.total (a : ResolveArgs) (base : CStr) : Nat := base.len + a.argStr.len + 5

/-- `req_buf` with the request of a call in it. -/
def World.resolveBuf (w : World) (a : ResolveArgs) (base : CStr) : FrameBuf :=
  resolveRequestBuf w.reqBuf base.bytes a.argStr.bytes (u16 base.len) (u16 a.argStr.len)

/-- The statics as the request of a call goes out. -/
def World.withResolveRequest (w : World) (a : ResolveArgs) (base : CStr) : World :=
  { w.clearLast with reqBuf := (w.resolveBuf a base).mem }

/-- The request of a call that passes the size check, whatever its strings are. -/
def World.resolveSent (w : World) (a : ResolveArgs) (base : CStr) : Request :=
  resolveCall (w.resolveBuf a base).frame

/-- The chunks of a request have five bytes beside the two strings as cast. -/
theorem resolveChunks_length (base arg : CStr) :
    ([[nioFileVersion], putU16le (u16 base.len), base.bytes.take (u16 base.len),
      putU16le (u16 arg.len),
      if u16 arg.len ≠ 0 then arg.bytes.take (u16 arg.len) else []] :
        List (List UInt8)).flatten.length = u16 base.len + u16 arg.len + 5 := by
  have hbase := take_length_u16 base
  have harg : (if u16 arg.len ≠ 0 then arg.bytes.take (u16 arg.len) else []).length =
      u16 arg.len := by
    split
    · exact take_length_u16 arg
    next hzero => exact (not_not.mp hzero).symm
  simp only [List.flatten_cons, List.flatten_nil, List.length_append, List.length_cons,
    List.length_nil, putU16le_length, hbase, harg]
  omega

/-- The size the code checks is the integer one, cast. -/
theorem u16_total (a : ResolveArgs) (base : CStr) :
    u16 (u16 base.len + u16 a.argStr.len + fnsvcResolvePathRequestOverhead) =
      u16 (a.total base) := by
  simp only [ResolveArgs.total, fnsvcResolvePathRequestOverhead, u16]
  omega

/-- The frame is as long as the size that was checked. -/
theorem resolveSent_length (w : World) (a : ResolveArgs) (base : CStr) :
    (w.resolveSent a base).frame.length = u16 (a.total base) := by
  have hoff : (w.resolveBuf a base).off = _ := FrameBuf.off_puts _ (show 0 < 65536 by decide)
  rw [resolveChunks_length, Nat.zero_add] at hoff
  rw [World.resolveSent, resolveCall, FrameBuf.frame_length, hoff, ← u16_total]
  rfl

section Exchange

variable {dev : Device} {a : ResolveArgs} {base : CStr} {w : World}

/-- Invalid arguments are refused before anything else. -/
theorem fnsvcResolvePath_invalid (h : ∀ base, ¬ a.Valid base) :
    fnsvcResolvePath dev a w = ⟨false, w.fail .invalidArg, [], []⟩ := by
  unfold fnsvcResolvePath
  cases hbase : a.baseUri with
  | none => rfl
  | some base =>
    dsimp only
    rw [if_pos]
    by_contra hnull
    push Not at hnull
    exact h base ⟨hbase, Bool.eq_true_of_not_eq_false hnull.1, hnull.2⟩

theorem ResolveArgs.Valid.not_null (h : a.Valid base) :
    ¬ (a.resolvedUri = false ∨ a.resolvedCap = 0) := by
  simp [h.resolvedUri, h.resolvedCap]

/-- A total that is too large as cast is refused with nothing sent. -/
theorem fnsvcResolvePath_tooLarge (h : a.Valid base) (hlarge : 512 < u16 (a.total base)) :
    fnsvcResolvePath dev a w = ⟨false, w.fail .requestTooLarge, [], []⟩ := by
  unfold fnsvcResolvePath
  rw [h.baseUri]
  dsimp only
  rw [if_neg h.not_null, if_pos]
  rw [← u16_total] at hlarge
  exact hlarge

/-- **A call that passes the size check** makes one exchange. -/
theorem fnsvcResolvePath_exchange (h : a.Valid base) (hfit : u16 (a.total base) ≤ 512) :
    fnsvcResolvePath dev a w =
      match dev.respond w.past (w.resolveSent a base) with
      | .failed code =>
        ⟨false, ((w.withResolveRequest a base).failedCall (w.resolveSent a base) code).fail
          .transport, [], []⟩
      | .answered status payload =>
        resolveResponse a ((w.withResolveRequest a base).answeredCall (w.resolveSent a base)
          payload) status payload.length := by
  have hlen : (w.resolveSent a base).frame.length ≤ fnctlMaxData := by
    rw [resolveSent_length]
    exact hfit
  have hcall : fnsvcResolvePath dev a w =
      match serviceCall dev (w.resolveSent a base) (w.withResolveRequest a base) with
      | (none, w) => ⟨false, w.fail .transport, [], []⟩
      | (some (status, respLen), w) => resolveResponse a w status respLen := by
    unfold fnsvcResolvePath
    rw [h.baseUri]
    dsimp only
    -- past the argument checks and the size check
    rw [if_neg h.not_null, if_neg]
    · rfl
    · rw [← u16_total] at hfit
      exact Nat.not_lt_of_le hfit
  rw [hcall]
  cases hresp : dev.respond w.past (w.resolveSent a base) with
  | failed code =>
    have hresp' : dev.respond (w.withResolveRequest a base).past (w.resolveSent a base) = _ :=
      hresp
    rw [serviceCall_failed hlen (Nat.le_refl _) hresp']
  | answered status payload =>
    have hresp' : dev.respond (w.withResolveRequest a base).past (w.resolveSent a base) = _ :=
      hresp
    rw [serviceCall_answered hlen (Nat.le_refl _) hresp']

end Exchange

/-! ## A call whose request fits -/

/-- A call with all it needs, and a request of at most 512 bytes. -/
structure ResolveArgs.Fits (a : ResolveArgs) (base : CStr) : Prop where
  baseUri : a.baseUri = some base
  resolvedUri : a.resolvedUri = true
  resolvedCap : a.resolvedCap ≠ 0
  request : base.len + (a.arg.getD CStr.empty).len + 5 ≤ 512

def ResolveArgs.sent (a : ResolveArgs) (base : CStr) : Request :=
  resolveRequest base (a.arg.getD CStr.empty)

theorem resolveFrame_length (base arg : List UInt8) :
    (resolveFrame base arg).length = base.length + arg.length + 5 := by
  simp [resolveFrame]
  omega

/-- What the code stores in `req_buf` is the frame of the two strings. -/
theorem resolveRequestBuf_frame (reqBuf : Nat → UInt8) {base arg : CStr}
    (h : base.len + arg.len + 5 ≤ 512) :
    (resolveRequestBuf reqBuf base.bytes arg.bytes (u16 base.len) (u16 arg.len)).frame =
      resolveFrame base.bytes arg.bytes := by
  have hbase : u16 base.len = base.bytes.length := u16_of_lt (by omega)
  have harg : u16 arg.len = arg.bytes.length := u16_of_lt (by omega)
  have htake : (if arg.bytes.length ≠ 0 then arg.bytes.take arg.bytes.length else []) =
      arg.bytes := by
    cases arg.bytes <;> simp
  have hlen : base.bytes.length + arg.bytes.length + 5 ≤ 512 := h
  rw [resolveRequestBuf, hbase, harg, List.take_length, htake, FrameBuf.frame_puts,
    FrameBuf.frame_start]
  · simp [resolveFrame, putU16le_eq]
  · simp
    omega

theorem ResolveArgs.Fits.valid {a : ResolveArgs} {base : CStr} (h : a.Fits base) :
    a.Valid base := ⟨h.baseUri, h.resolvedUri, h.resolvedCap⟩

theorem ResolveArgs.Fits.resolveSent {a : ResolveArgs} {base : CStr} (h : a.Fits base)
    (w : World) : w.resolveSent a base = a.sent base :=
  congrArg resolveCall (resolveRequestBuf_frame w.reqBuf h.request)

theorem ResolveArgs.Fits.total_le {a : ResolveArgs} {base : CStr} (h : a.Fits base) :
    u16 (a.total base) ≤ 512 := Nat.le_trans (u16_le _) h.request

/-- The statics of an answered call, before the answer is looked at. -/
def World.resolveAnswered (w : World) (a : ResolveArgs) (base : CStr)
    (payload : List UInt8) : World :=
  (w.withResolveRequest a base).answeredCall (a.sent base) payload

theorem fnsvcResolvePath_failed {dev : Device} {a : ResolveArgs} {base : CStr} (h : a.Fits base)
    {w : World} {code : UInt8} (hresp : dev.respond w.past (a.sent base) = .failed code) :
    fnsvcResolvePath dev a w =
      ⟨false, ((w.withResolveRequest a base).failedCall (a.sent base) code).fail .transport,
        [], []⟩ := by
  rw [fnsvcResolvePath_exchange h.valid h.total_le, h.resolveSent, hresp]

theorem fnsvcResolvePath_answered {dev : Device} {a : ResolveArgs} {base : CStr}
    (h : a.Fits base) {w : World} {status : UInt8} {payload : List UInt8}
    (hresp : dev.respond w.past (a.sent base) = .answered status payload) :
    fnsvcResolvePath dev a w =
      resolveResponse a (w.resolveAnswered a base payload) status payload.length := by
  rw [fnsvcResolvePath_exchange h.valid h.total_le, h.resolveSent, hresp]
  rfl

/-! ## A run of the parser -/

section Run

variable (m : Nat → UInt8) (a : ResolveArgs) (respLen : Nat)

theorem exec_storeDisplay (off len : Nat) :
    exec m (storeDisplay a off len) =
      if a.displayPath ∧ a.displayCap > 0 then
        ⟨⟨⟩, [.displayStored ((List.range' off (clampLen len a.displayCap)).map m)],
          List.range' off (clampLen len a.displayCap)⟩
      else ⟨⟨⟩, [], []⟩ := by
  unfold storeDisplay
  split <;> simp

theorem exec_storeFlags (flags : UInt8) :
    exec m (storeFlags a flags) =
      ⟨⟨⟩, if a.flagsOut then [.flagsStored flags] else [], []⟩ := by
  unfold storeFlags
  split <;> simp

/-- The second half of the decoding, as one case distinction on its length check. -/
theorem exec_resolveTail (flags : UInt8) (off : Nat) :
    exec m (resolveTail a respLen flags off) =
      if u16 (u16 (off + 2) + u16At m off) > respLen then
        ⟨.error .shortResponse, [], [off, off + 1]⟩
      else
        ⟨.ok ⟨⟩,
          (exec m (storeDisplay a (u16 (off + 2)) (u16At m off))).events ++
            if a.flagsOut then [.flagsStored flags] else [],
          [off, off + 1] ++ (exec m (storeDisplay a (u16 (off + 2)) (u16At m off))).reads⟩ := by
  unfold resolveTail
  simp only [exec_bind, exec_getU16le]
  split
  · rfl
  · simp [exec_storeFlags]

/-- **The parser written out**, on an answer that passes the version check. -/
theorem exec_resolveProg (hlen : 8 ≤ respLen) (hver : m 0 = nioFileVersion) :
    exec m (resolveProg a respLen) =
      if u16 (6 + u16At m 4 + 2) > respLen then
        ⟨.error .shortResponse, [], [0, 1, 4, 5]⟩
      else
        ⟨(exec m (resolveTail a respLen (m 1) (u16 (6 + u16At m 4)))).value,
          .resolvedStored ((List.range' 6 (clampLen (u16At m 4) a.resolvedCap)).map m) ::
            (exec m (resolveTail a respLen (m 1) (u16 (6 + u16At m 4)))).events,
          [0, 1, 4, 5] ++ (List.range' 6 (clampLen (u16At m 4) a.resolvedCap) ++
            ([4, 5] ++ (exec m (resolveTail a respLen (m 1) (u16 (6 + u16At m 4)))).reads))⟩ := by
  have hver' : ¬ m 0 ≠ nioFileVersion := fun hne => hne hver
  unfold resolveProg
  rw [if_neg (by omega), exec_bind, exec_byte]
  simp only [if_neg hver', exec_bind, exec_byte, exec_getU16le]
  split
  · rfl
  · simp

/-- A short response or one of another version is refused after its header, with nothing stored. -/
theorem exec_resolveProg_badVersion (h : respLen < 8 ∨ m 0 ≠ nioFileVersion) :
    (exec m (resolveProg a respLen)).value = .error .badVersion ∧
      (exec m (resolveProg a respLen)).events = [] ∧
      ∀ i ∈ (exec m (resolveProg a respLen)).reads, i < respLen := by
  unfold resolveProg
  by_cases hshort : respLen < 8
  · rw [if_pos hshort]
    simp
  · have hver : m 0 ≠ nioFileVersion := h.resolve_left hshort
    rw [if_neg hshort]
    simp [hver]
    omega

end Run

end NioApps.Fnsvc
