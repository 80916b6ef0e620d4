import NioApps.Fnsvc.Transport

/-!
# Nio — `nio_disk_read_sector`

The sector read of the MS-DOS library. The reply is put into an array on the stack, whose other
bytes are whatever was there. Its data length is compared with the caller's buffer, and then with
the length of the reply by a sum cast to `uint16_t`, which wraps from 65525 on.

* `readSectorProg` — the checks on a reply, and the copy.
* `nioDiskReadSector_safe_iff` — when only bytes the device sent are copied.
-/

namespace NioApps.Nio

open BufProg Fnsvc

/-! ## The code -/

structure NioResponse where
  status : UInt8
  payloadLength : Nat

def mapFnError (err : UInt8) : UInt8 :=
  if err = 0 then nioStatusOk
  else if err = 1 then nioStatusDeviceNotFound
  else if err = 2 then nioStatusInvalidRequest
  else if err = 3 then nioStatusDeviceBusy
  else if err = 4 then nioStatusNotReady
  else if err = 5 then nioStatusIoError
  else if err = 6 then nioStatusTimeout
  else if err = 8 then nioStatusUnsupported
  else nioStatusInternalError

/-- `nio_call`: what it returns, the response, and the memory from the start of `reply` on. -/
def nioCall (dev : Device) (past : List Request) (r : Request) (reply : Nat → UInt8) :
    Bool × NioResponse × (Nat → UInt8) :=
  match dev.respond past r with
  | .failed code => (false, ⟨mapFnError code, 0⟩, reply)
  | .answered status payload => (true, ⟨status, payload.length⟩, overlay reply 0 payload)

def putU32le (value : Nat) : List UInt8 :=
  [UInt8.ofNat (value &&& 0xFF), UInt8.ofNat ((value >>> 8) &&& 0xFF),
    UInt8.ofNat ((value >>> 16) &&& 0xFF), UInt8.ofNat ((value >>> 24) &&& 0xFF)]

/-- The arguments of `nio_disk_read_sector`; `false` is a null pointer. -/
structure ReadSectorArgs where
  slot : UInt8
  lba : UInt32
  buffer : Bool
  bufferLength : UInt16
  bytesRead : Bool

/-- What is stored for the caller. -/
inductive SectorEvent where
  | bufferStored (bytes : List UInt8)
  | bytesReadStored (n : Nat)
  deriving DecidableEq

def readSectorRequest (a : ReadSectorArgs) : Request where
  device := nioDeviceidDisk
  command := nioDiskCmdReadSector
  frame := [nioDiskVersion, a.slot] ++ putU32le a.lba.toNat ++ putU16le a.bufferLength.toNat
  capacity := 1024

/-- `memcpy(buffer, resp + 11, data_len)`, where there is a buffer and something to copy. -/
def storeSector (a : ReadSectorArgs) (dataLen : Nat) : BufProg SectorEvent PUnit :=
  if a.buffer ∧ dataLen ≠ 0 then do
    let bytes ← block 11 dataLen
    report (.bufferStored bytes)
  else pure ⟨⟩

/-- `*bytes_read = data_len`, where there is one. -/
def storeBytesRead (a : ReadSectorArgs) (dataLen : Nat) : BufProg SectorEvent PUnit :=
  if a.bytesRead then report (.bytesReadStored dataLen) else pure ⟨⟩

/-- The checks on a reply with status OK. -/
def readSectorProg (a : ReadSectorArgs) (payloadLength : Nat) : BufProg SectorEvent Bool :=
  if payloadLength < 11 then pure false
  else do
    let version ← byte 0
    if version ≠ nioDiskVersion then pure false
    else do
      let dataLen ← getU16le 9
      if dataLen > a.bufferLength.toNat ∨ payloadLength < u16 (11 + dataLen) then pure false
      else do
        storeSector a dataLen
        storeBytesRead a dataLen
        pure true

/-- How a call ends, and the reads of the reply array it made. -/
structure ReadSectorResult where
  ret : Bool
  response : NioResponse
  events : List SectorEvent
  reads : List Nat

def nioDiskReadSector (dev : Device) (past : List Request) (a : ReadSectorArgs)
    (stack : Nat → UInt8) : ReadSectorResult :=
  match nioCall dev past (readSectorRequest a) stack with
  | (false, response, _) => ⟨false, response, [], []⟩
  | (true, response, resp) =>
    if response.status ≠ nioStatusOk then ⟨false, response, [], []⟩
    else
      let out := exec resp (readSectorProg a response.payloadLength)
      ⟨out.value, response, out.events, out.reads⟩

/-! ## The caller's side -/

/-- The caller's buffer, from its start on, and `*bytes_read`. -/
structure SectorOut where
  buffer : Nat → UInt8
  bytesRead : Nat

def SectorEvent.store (o : SectorOut) : SectorEvent → SectorOut
  | .bufferStored bytes => { o with buffer := overlay o.buffer 0 bytes }
  | .bytesReadStored n => { o with bytesRead := n }

/-- What the caller has after the call. -/
def ReadSectorResult.out (r : ReadSectorResult) (o : SectorOut) : SectorOut :=
  r.events.foldl SectorEvent.store o

/-- The data length a reply claims. -/
def dataLen (payload : List UInt8) : Nat := u16At (listMem payload) 9

/-- A reply the call may accept, and what it then leaves: the data, in a buffer that is untouched
after it, and its length. -/
structure SectorCopied (a : ReadSectorArgs) (payload : List UInt8) (o o' : SectorOut) : Prop where
  version : listMem payload 0 = nioDiskVersion
  fitsBuffer : dataLen payload ≤ a.bufferLength.toNat
  fitsReply : 11 + dataLen payload ≤ payload.length
  copied : a.buffer = true →
    (List.range (dataLen payload)).map o'.buffer = (payload.drop 11).take (dataLen payload)
  untouched : ∀ i, a.buffer = false ∨ dataLen payload ≤ i → o'.buffer i = o.buffer i
  length : a.bytesRead = true → o'.bytesRead = dataLen payload

/-- What is asked of a call. -/
structure SectorSafe (dev : Device) (past : List Request) (a : ReadSectorArgs)
    (stack : Nat → UInt8) (o : SectorOut) : Prop where
  accepted : (nioDiskReadSector dev past a stack).ret = true → ∃ payload,
    dev.respond past (readSectorRequest a) = .answered nioStatusOk payload ∧
      SectorCopied a payload o ((nioDiskReadSector dev past a stack).out o)
  rejected : (nioDiskReadSector dev past a stack).ret = false →
    (nioDiskReadSector dev past a stack).out o = o
  reads_lt : ∀ i ∈ (nioDiskReadSector dev past a stack).reads,
    i < (nioDiskReadSector dev past a stack).response.payloadLength

/-! ## A run of the checks -/

section Run

variable (m : Nat → UInt8) (a : ReadSectorArgs) (payloadLength : Nat)

theorem exec_storeSector (dataLen : Nat) :
    exec m (storeSector a dataLen) =
      if a.buffer ∧ dataLen ≠ 0 then
        ⟨⟨⟩, [.bufferStored ((List.range' 11 dataLen).map m)], List.range' 11 dataLen⟩
      else ⟨⟨⟩, [], []⟩ := by
  unfold storeSector
  split <;> simp

theorem exec_storeBytesRead (dataLen : Nat) :
    exec m (storeBytesRead a dataLen) =
      ⟨⟨⟩, if a.bytesRead then [.bytesReadStored dataLen] else [], []⟩ := by
  unfold storeBytesRead
  split <;> simp

/-- **The checks written out**, on a reply that passes the version check. -/
theorem exec_readSectorProg (hlen : 11 ≤ payloadLength) (hver : m 0 = nioDiskVersion) :
    exec m (readSectorProg a payloadLength) =
      if u16At m 9 > a.bufferLength.toNat ∨ payloadLength < u16 (11 + u16At m 9) then
        ⟨false, [], [0, 9, 10]⟩
      else
        ⟨true, (exec m (storeSector a (u16At m 9))).events ++
            if a.bytesRead then [.bytesReadStored (u16At m 9)] else [],
          [0, 9, 10] ++ (exec m (storeSector a (u16At m 9))).reads⟩ := by
  have hver' : ¬ m 0 ≠ nioDiskVersion := fun hne => hne hver
  unfold readSectorProg
  rw [if_neg (by omega), exec_bind, exec_byte]
  simp only [if_neg hver', exec_bind, exec_getU16le]
  split
  · rfl
  · simp [exec_storeBytesRead]

/-- A short answer or one of another version is refused after its header, with nothing stored. -/
theorem exec_readSectorProg_badVersion (h : payloadLength < 11 ∨ m 0 ≠ nioDiskVersion) :
    (exec m (readSectorProg a payloadLength)).value = false ∧
      (exec m (readSectorProg a payloadLength)).events = [] ∧
      ∀ i ∈ (exec m (readSectorProg a payloadLength)).reads, i < payloadLength := by
  unfold readSectorProg
  rcases Nat.lt_or_ge payloadLength 11 with hshort | hlen
  · rw [if_pos hshort]
    simp
  · rw [if_neg (by omega)]
    simp [h.resolve_left (by omega)]
    omega

end Run

/-! ## The call -/

section Call

variable {dev : Device} {past : List Request} {a : ReadSectorArgs} (stack : Nat → UInt8)
  {o : SectorOut}

theorem nioDiskReadSector_answered {payload : List UInt8}
    (hresp : dev.respond past (readSectorRequest a) = .answered nioStatusOk payload) :
    nioDiskReadSector dev past a stack =
      ⟨(exec (overlay stack 0 payload) (readSectorProg a payload.length)).value,
        ⟨nioStatusOk, payload.length⟩,
        (exec (overlay stack 0 payload) (readSectorProg a payload.length)).events,
        (exec (overlay stack 0 payload) (readSectorProg a payload.length)).reads⟩ := by
  unfold nioDiskReadSector nioCall
  rw [hresp]
  rfl

/-- A call without an answer of status OK looks at no byte of the reply and stores nothing. -/
theorem nioDiskReadSector_unanswered
    (h : ∀ payload, dev.respond past (readSectorRequest a) ≠ .answered nioStatusOk payload) :
    (nioDiskReadSector dev past a stack).ret = false ∧
      (nioDiskReadSector dev past a stack).events = [] ∧
      (nioDiskReadSector dev past a stack).reads = [] := by
  unfold nioDiskReadSector nioCall
  cases hresp : dev.respond past (readSectorRequest a) with
  | failed code => exact ⟨rfl, rfl, rfl⟩
  | answered status payload =>
    have hstatus : status ≠ nioStatusOk := by
      rintro rfl
      exact h payload hresp
    dsimp only
    rw [if_pos hstatus]
    exact ⟨rfl, rfl, rfl⟩

/-- The header of a reply is read from the reply itself. -/
theorem overlay_header {payload : List UInt8} (hlen : 11 ≤ payload.length) :
    overlay stack 0 payload 0 = listMem payload 0 ∧
      u16At (overlay stack 0 payload) 9 = dataLen payload := by
  refine ⟨overlay_zero_of_lt (by omega), ?_⟩
  rw [dataLen, u16At, u16At, overlay_zero_of_lt (by omega), overlay_zero_of_lt (by omega)]

variable {stack}

theorem out_of_events {r : ReadSectorResult} (h : r.events = []) : r.out o = o := by
  rw [ReadSectorResult.out, h]
  rfl

/-- The stores of an accepted reply, applied one after the other. -/
theorem foldl_sectorStores {m : Nat → UInt8} (n : Nat) :
    ((exec m (storeSector a n)).events ++
        if a.bytesRead then [SectorEvent.bytesReadStored n] else []).foldl SectorEvent.store o =
      ⟨if a.buffer then overlay o.buffer 0 ((List.range' 11 n).map m) else o.buffer,
        if a.bytesRead then n else o.bytesRead⟩ := by
  have hbuffer : (exec m (storeSector a n)).events.foldl SectorEvent.store o =
      { o with
        buffer := if a.buffer then overlay o.buffer 0 ((List.range' 11 n).map m)
          else o.buffer } := by
    rw [exec_storeSector]
    cases a.buffer with
    | false => rfl
    | true =>
      -- without data nothing is copied
      cases n with
      | zero => exact congrArg (fun b => SectorOut.mk b o.bytesRead) (overlay_nil o.buffer 0).symm
      | succ n => rfl
  rw [List.foldl_append, hbuffer]
  cases a.bytesRead with
  | false => rfl
  | true => rfl

/-- What an accepted reply leaves. -/
theorem sectorCopied_out {payload : List UInt8} (hver : listMem payload 0 = nioDiskVersion)
    (hbuffer : dataLen payload ≤ a.bufferLength.toNat)
    (hreply : 11 + dataLen payload ≤ payload.length) :
    SectorCopied a payload o
      (((exec (overlay stack 0 payload) (storeSector a (dataLen payload))).events ++
        if a.bytesRead then [SectorEvent.bytesReadStored (dataLen payload)] else []).foldl
          SectorEvent.store o) := by
  have hbytes : (List.range' 11 (dataLen payload)).map (overlay stack 0 payload) =
      (payload.drop 11).take (dataLen payload) := by
    rw [← map_listMem_range' payload 11 _ hreply]
    refine List.map_congr_left fun i hi => overlay_zero_of_lt ?_
    have hbounds := List.mem_range'_1.mp hi
    omega
  have hlen : ((payload.drop 11).take (dataLen payload)).length = dataLen payload := by
    rw [List.length_take, List.length_drop]
    omega
  rw [foldl_sectorStores, hbytes]
  refine ⟨hver, hbuffer, hreply, fun htrue => ?_, fun i hi => ?_, fun htrue => if_pos htrue⟩
  · dsimp only
    rw [if_pos htrue]
    have hblock := map_overlay_range' o.buffer 0 ((payload.drop 11).take (dataLen payload))
    rwa [hlen, ← List.range_eq_range'] at hblock
  · dsimp only
    rcases hi with hnull | hafter
    · rw [hnull]
      rfl
    · split
      · exact overlay_of_ge (by omega)
      · rfl

/-- A claimed length whose sum wraps passes the check that should refuse it. -/
theorem not_sectorSafe_of_wrap {payload : List UInt8}
    (hresp : dev.respond past (readSectorRequest a) = .answered nioStatusOk payload)
    (hlen : 11 ≤ payload.length) (hver : listMem payload 0 = nioDiskVersion)
    (hwrap : 65525 ≤ dataLen payload) (hbuffer : dataLen payload ≤ a.bufferLength.toNat) :
    ¬ SectorSafe dev past a stack o := by
  intro hsafe
  have hcall := nioDiskReadSector_answered stack hresp
  have hdata : dataLen payload < 65536 := u16At_lt _ _
  -- the sum wraps to less than any reply that passed the first check
  have hsum : u16 (11 + dataLen payload) = dataLen payload - 65525 := by
    rw [u16_wrap (by omega) (by omega)]
    omega
  obtain ⟨h0, h9⟩ := overlay_header stack hlen
  have hexec := exec_readSectorProg (overlay stack 0 payload) a payload.length hlen
    (h0.trans hver)
  rw [h9, hsum, if_neg (by omega)] at hexec
  have hret : (nioDiskReadSector dev past a stack).ret = true := by rw [hcall, hexec]
  obtain ⟨payload', hresp', hcopied⟩ := hsafe.accepted hret
  -- the answer of which data is copied is the one given
  rw [hresp] at hresp'
  obtain ⟨-, rfl⟩ := Reply.answered.inj hresp'
  -- accepted, but the data does not fit in a reply of at most 1024 bytes
  have hmax : payload.length ≤ 1024 := dev.within_capacity _ _ _ _ hresp
  have hfits := hcopied.fitsReply
  omega

/-- A call that returns 0 without a store is safe as soon as its reads are. -/
theorem sectorSafe_of_rejected (hret : (nioDiskReadSector dev past a stack).ret = false)
    (hevents : (nioDiskReadSector dev past a stack).events = [])
    (hreads : ∀ i ∈ (nioDiskReadSector dev past a stack).reads,
      i < (nioDiskReadSector dev past a stack).response.payloadLength) :
    SectorSafe dev past a stack o where
  accepted htrue := by
    rw [hret] at htrue
    cases htrue
  rejected _ := out_of_events hevents
  reads_lt := hreads

/-- A call is safe where the sum of header and data does not wrap, or the data is too long for the
buffer: the check that follows is then the one that is meant. -/
theorem sectorSafe_of_unwrapped {payload : List UInt8}
    (hresp : dev.respond past (readSectorRequest a) = .answered nioStatusOk payload)
    (hlen : 11 ≤ payload.length) (hver : listMem payload 0 = nioDiskVersion)
    (hlength : dataLen payload < 65525 ∨ a.bufferLength.toNat < dataLen payload) :
    SectorSafe dev past a stack o := by
  have hcall := nioDiskReadSector_answered stack hresp
  obtain ⟨h0, h9⟩ := overlay_header stack hlen
  have hexec := exec_readSectorProg (overlay stack 0 payload) a payload.length hlen
    (h0.trans hver)
  -- the header is read whatever comes of it
  have hheader : ∀ i ∈ [0, 9, 10], i < payload.length := by
    simp
    omega
  rw [h9] at hexec
  rcases Classical.em (dataLen payload > a.bufferLength.toNat ∨
      -- refused after the header
      payload.length < u16 (11 + dataLen payload)) with hrejected | haccepted
  · rw [if_pos hrejected] at hexec
    rw [hexec] at hcall
    apply sectorSafe_of_rejected
    · rw [hcall]
    · rw [hcall]
    · rw [hcall]
      exact hheader
  · -- accepted, and the sum has not wrapped
    rw [if_neg haccepted] at hexec
    rw [hexec] at hcall
    have hbuffer : dataLen payload ≤ a.bufferLength.toNat := by omega
    -- the sum is exact, so the data is in the reply
    have hsum : u16 (11 + dataLen payload) = 11 + dataLen payload := u16_of_lt (by omega)
    have hreply : 11 + dataLen payload ≤ payload.length := by omega
    refine ⟨fun _ => ⟨payload, hresp, ?_⟩, fun hfalse => ?_, ?_⟩
    · rw [hcall]
      exact sectorCopied_out hver hbuffer hreply
    · rw [hcall] at hfalse
      cases hfalse
    · rw [hcall]
      intro i hi
      -- the header first, then the data
      rcases List.mem_append.mp hi with hi | hi
      · exact hheader i hi
      · rw [exec_storeSector] at hi
        split at hi
        · have hbounds := List.mem_range'_1.mp hi
          show i < payload.length
          omega
        · cases hi

/-- An answer that is refused for its header is safe. -/
theorem sectorSafe_of_badVersion {payload : List UInt8}
    (hresp : dev.respond past (readSectorRequest a) = .answered nioStatusOk payload)
    (hbad : payload.length < 11 ∨ listMem payload 0 ≠ nioDiskVersion) :
    SectorSafe dev past a stack o := by
  have hcall := nioDiskReadSector_answered stack hresp
  have hbad' : payload.length < 11 ∨ overlay stack 0 payload 0 ≠ nioDiskVersion := by
    rcases Nat.lt_or_ge payload.length 11 with hshort | hlen
    · exact .inl hshort
    · rw [(overlay_header stack hlen).1]
      exact hbad
  obtain ⟨hvalue, hevents, hreads⟩ :=
    exec_readSectorProg_badVersion (overlay stack 0 payload) a payload.length hbad'
  apply sectorSafe_of_rejected
  · rw [hcall, hvalue]
  · rw [hcall, hevents]
  · rw [hcall]
    exact hreads

/-- **When a sector read copies only bytes the device sent.** For every device, all arguments,
whatever the stack and the caller's buffer hold: exactly when an answer with status OK, version 1
and at least 11 bytes does not claim a length from 65525 on that the buffer has room for. -/
theorem nioDiskReadSector_safe_iff (dev : Device) (past : List Request) (a : ReadSectorArgs)
    (stack : Nat → UInt8) (o : SectorOut) :
    SectorSafe dev past a stack o ↔
      ∀ payload, dev.respond past (readSectorRequest a) = .answered nioStatusOk payload →
        11 ≤ payload.length → listMem payload 0 = nioDiskVersion →
        dataLen payload < 65525 ∨ a.bufferLength.toNat < dataLen payload := by
  constructor
  · -- an answer that wraps is accepted, with more data than it has
    intro hsafe payload hresp hlen hver
    by_contra hnot
    push Not at hnot
    exact not_sectorSafe_of_wrap hresp hlen hver hnot.1 hnot.2 hsafe
  · intro hlength
    rcases Classical.em (∃ payload, dev.respond past (readSectorRequest a) =
        .answered nioStatusOk payload) with ⟨payload, hresp⟩ | hnone
    · -- no check can fail but those that are meant
      rcases Classical.em (11 ≤ payload.length ∧ listMem payload 0 = nioDiskVersion) with
        ⟨hlen, hver⟩ | hbad
      · exact sectorSafe_of_unwrapped hresp hlen hver (hlength payload hresp hlen hver)
      · refine sectorSafe_of_badVersion hresp ?_
        rcases Nat.lt_or_ge payload.length 11 with hshort | hlen
        · exact .inl hshort
        · exact .inr fun hver => hbad ⟨hlen, hver⟩
    · -- the call has no answer of status OK
      obtain ⟨hret, hevents, hreads⟩ := nioDiskReadSector_unanswered stack
        (not_exists.mp hnone)
      apply sectorSafe_of_rejected hret hevents
      rw [hreads]
      intro i hi
      cases hi

end Call

/-- A read into a buffer of 65535 bytes. -/
def largeRead : ReadSectorArgs := ⟨1, 0, true, 65535, true⟩

/-- A reply of eleven bytes that claims 65525 bytes of data. -/
def wrappedReply : List UInt8 := [1, 0, 0, 0, 0, 0, 0, 0, 0, 0xF5, 0xFF]

/-- The call accepts `wrappedReply`. -/
theorem nioDiskReadSector_accepts_wrappedReply :
    ¬ SectorSafe (Device.script fun _ => .answered 0 wrappedReply) [] largeRead (fun _ => 0)
      ⟨fun _ => 0, 0⟩ :=
  not_sectorSafe_of_wrap (show _ = Reply.answered nioStatusOk wrappedReply from rfl) (by decide)
    (by decide) (by decide) (by decide)

end NioApps.Nio
