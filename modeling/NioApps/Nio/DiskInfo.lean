import NioApps.Nio.ReadSector

/-!
# Nio — `nio_disk_info`

The other disk call of the MS-DOS library. Its reply goes into sixteen bytes on the stack; the last
field is read only where the reply has it.

* `diskInfoProg` — the checks on a reply, and the fields.
* `InfoReply` — the replies a device may send, with the record each stands for.
* `nioDiskInfo_exact` — the call accepts the encodings of such replies, stores their records, and
  looks at nothing else.
-/

namespace NioApps.Nio

open BufProg Fnsvc

/-! ## The code -/

/-- `nio_disk_info_t`. -/
structure DiskInfo where
  flags : UInt8
  slot : UInt8
  imageType : UInt8
  sectorSize : UInt16
  sectorCount : UInt32
  lastError : UInt8
  deriving DecidableEq

def nioDiskCmdInfo : UInt8 := 0x05

def diskInfoRequest (slot : UInt8) : Request where
  device := nioDeviceidDisk
  command := nioDiskCmdInfo
  frame := [nioDiskVersion, slot]
  capacity := 16

/-- The checks on a reply with status OK, and the fields of the caller's record. -/
def diskInfoProg (payloadLength : Nat) : BufProg DiskInfo Bool :=
  if payloadLength < 12 then pure false
  else do
    let version ← byte 0
    if version ≠ nioDiskVersion then pure false
    else do
      let flags ← byte 1
      let slot ← byte 4
      let imageType ← byte 5
      let sectorSize ← getU16le 6
      let sectorCount ← getU32le 8
      let lastError ← if payloadLength > 12 then byte 12 else pure 0
      report ⟨flags, slot, imageType, UInt16.ofNat sectorSize, UInt32.ofNat sectorCount, lastError⟩
      pure true

/-- How a call ends, the records it stored, and the reads of the reply array it made. -/
structure DiskInfoResult where
  ret : Bool
  response : NioResponse
  stored : List DiskInfo
  reads : List Nat

def nioDiskInfo (dev : Device) (past : List Request) (slot : UInt8) (stack : Nat → UInt8) :
    DiskInfoResult :=
  match nioCall dev past (diskInfoRequest slot) stack with
  | (false, response, _) => ⟨false, response, [], []⟩
  | (true, response, resp) =>
    if response.status ≠ nioStatusOk then ⟨false, response, [], []⟩
    else
      let out := exec resp (diskInfoProg response.payloadLength)
      ⟨out.value, response, out.events, out.reads⟩

/-- `*info` after the call. -/
def DiskInfoResult.info (r : DiskInfoResult) (info : DiskInfo) : DiskInfo :=
  r.stored.getLast?.getD info

/-! ## The replies -/

/-- A reply: the record it stands for, the two bytes nobody reads, and what follows the sector
count, which starts with the last error where there is one. -/
structure InfoReply where
  info : DiskInfo
  reserved₂ : UInt8
  reserved₃ : UInt8
  rest : List UInt8
  lastError_eq : info.lastError = rest.headD 0

def InfoReply.encode (p : InfoReply) : List UInt8 :=
  [nioDiskVersion, p.info.flags, p.reserved₂, p.reserved₃, p.info.slot, p.info.imageType] ++
    leBytes 2 p.info.sectorSize.toNat ++ leBytes 4 p.info.sectorCount.toNat ++ p.rest

/-- The record in a reply of at least twelve bytes. -/
def infoAt (m : Nat → UInt8) (payloadLength : Nat) : DiskInfo where
  flags := m 1
  slot := m 4
  imageType := m 5
  sectorSize := UInt16.ofNat (u16At m 6)
  sectorCount := UInt32.ofNat (u32At m 8)
  lastError := if payloadLength > 12 then m 12 else 0

theorem length_encode (p : InfoReply) : p.encode.length = 12 + p.rest.length := by
  simp only [InfoReply.encode, List.length_append, leBytes_length, List.length_cons,
    List.length_nil]

/-- **Round trip, one way.** The record of an encoded reply is read back from it. -/
theorem infoAt_encode (p : InfoReply) :
    listMem p.encode 0 = nioDiskVersion ∧ infoAt (listMem p.encode) p.encode.length = p.info := by
  -- the two numbers come back from their little-endian bytes
  obtain ⟨⟨flags, slot, imageType, sectorSize, sectorCount, lastError⟩, r₂, r₃, rest, hlast⟩ := p
  have hsize : leValue (leBytes 2 sectorSize.toNat) = sectorSize.toNat := by
    rw [leValue_leBytes]
    exact Nat.mod_eq_of_lt sectorSize.toNat_lt
  have hcount : leValue (leBytes 4 sectorCount.toNat) = sectorCount.toNat := by
    rw [leValue_leBytes]
    exact Nat.mod_eq_of_lt sectorCount.toNat_lt
  have hsize' : u16At (listMem (InfoReply.encode ⟨⟨flags, slot, imageType, sectorSize,
      sectorCount, lastError⟩, r₂, r₃, rest, hlast⟩)) 6 = sectorSize.toNat := hsize
  have hcount' : u32At (listMem (InfoReply.encode ⟨⟨flags, slot, imageType, sectorSize,
      sectorCount, lastError⟩, r₂, r₃, rest, hlast⟩)) 8 = sectorCount.toNat := hcount
  refine ⟨rfl, ?_⟩
  rw [infoAt, hsize', hcount', UInt16.ofNat_toNat, UInt32.ofNat_toNat, length_encode]
  cases rest with
  | nil => exact congrArg (DiskInfo.mk flags slot imageType sectorSize sectorCount) hlast.symm
  -- the last error is read from a thirteenth byte, where there is one
  | cons b rest =>
    rw [if_pos (by simp)]
    exact congrArg (DiskInfo.mk flags slot imageType sectorSize sectorCount) hlast.symm

/-- **Round trip, the other way.** Every reply of twelve bytes or more with version 1 is the
encoding of one. -/
theorem exists_encode_eq {payload : List UInt8} (hlen : 12 ≤ payload.length)
    (hver : listMem payload 0 = nioDiskVersion) : ∃ p : InfoReply, p.encode = payload := by
  obtain ⟨b₀, b₁, b₂, b₃, b₄, b₅, c₀, c₁, d₀, d₁, d₂, d₃, rest, rfl⟩ :
      ∃ b₀ b₁ b₂ b₃ b₄ b₅ c₀ c₁ d₀ d₁ d₂ d₃ rest,
        payload = b₀ :: b₁ :: b₂ :: b₃ :: b₄ :: b₅ :: c₀ :: c₁ :: d₀ :: d₁ :: d₂ :: d₃ :: rest := by
    match payload, hlen with
    -- at least twelve bytes, by name
    | b₀ :: b₁ :: b₂ :: b₃ :: b₄ :: b₅ :: c₀ :: c₁ :: d₀ :: d₁ :: d₂ :: d₃ :: rest, _ =>
      exact ⟨_, _, _, _, _, _, _, _, _, _, _, _, _, rfl⟩
  obtain rfl : b₀ = nioDiskVersion := hver
  have hsize : leBytes 2 (UInt16.ofNat (leValue [c₀, c₁])).toNat = [c₀, c₁] := by
    have hlt : leValue [c₀, c₁] < UInt16.size := by simpa using leValue_lt [c₀, c₁]
    rw [UInt16.toNat_ofNat_of_lt' hlt]
    exact leBytes_leValue [c₀, c₁]
  have hcount : leBytes 4 (UInt32.ofNat (leValue [d₀, d₁, d₂, d₃])).toNat = [d₀, d₁, d₂, d₃] := by
    have hlt : leValue [d₀, d₁, d₂, d₃] < UInt32.size := by
      simpa using leValue_lt [d₀, d₁, d₂, d₃]
    rw [UInt32.toNat_ofNat_of_lt' hlt]
    exact leBytes_leValue [d₀, d₁, d₂, d₃]
  refine ⟨⟨⟨b₁, b₄, b₅, UInt16.ofNat (leValue [c₀, c₁]),
    UInt32.ofNat (leValue [d₀, d₁, d₂, d₃]), rest.headD 0⟩, b₂, b₃, rest, rfl⟩, ?_⟩
  rw [InfoReply.encode, hsize, hcount]
  rfl

/-! ## A run of the checks -/

/-- What is read and stored of a reply of the right version. -/
theorem exec_diskInfoProg (m : Nat → UInt8) {payloadLength : Nat} (hlen : 12 ≤ payloadLength)
    (hver : m 0 = nioDiskVersion) :
    exec m (diskInfoProg payloadLength) =
      ⟨true, [infoAt m payloadLength],
        List.range' 0 2 ++ List.range' 4 8 ++ if payloadLength > 12 then [12] else []⟩ := by
  have hver' : ¬ m 0 ≠ nioDiskVersion := fun hne => hne hver
  unfold diskInfoProg
  rw [if_neg (by omega), exec_bind, exec_byte]
  simp only [if_neg hver', exec_bind, exec_byte, exec_getU16le, exec_getU32le]
  split
  -- the reply has the last error
  next hlong => simp [infoAt, hlong, List.range']
  next hshort => simp [infoAt, hshort, List.range']

/-- A short reply or one of another version stores nothing. -/
theorem exec_diskInfoProg_bad (m : Nat → UInt8) {payloadLength : Nat}
    (hbad : payloadLength < 12 ∨ m 0 ≠ nioDiskVersion) :
    (exec m (diskInfoProg payloadLength)).value = false ∧
      (exec m (diskInfoProg payloadLength)).events = [] ∧
      ReadsBelow m payloadLength (diskInfoProg payloadLength) := by
  unfold ReadsBelow diskInfoProg
  -- too short for the fixed fields, or of another version
  rcases Nat.lt_or_ge payloadLength 12 with hshort | hlen
  · rw [if_pos hshort]
    simp
  · rw [if_neg (by omega)]
    simp [hbad.resolve_left (by omega)]
    omega

/-! ## The call -/

section Call

variable {dev : Device} {past : List Request} {slot : UInt8} (stack : Nat → UInt8)

theorem nioDiskInfo_answered {payload : List UInt8}
    (hresp : dev.respond past (diskInfoRequest slot) = .answered nioStatusOk payload) :
    nioDiskInfo dev past slot stack =
      ⟨(exec (overlay stack 0 payload) (diskInfoProg payload.length)).value,
        ⟨nioStatusOk, payload.length⟩,
        (exec (overlay stack 0 payload) (diskInfoProg payload.length)).events,
        (exec (overlay stack 0 payload) (diskInfoProg payload.length)).reads⟩ := by
  unfold nioDiskInfo nioCall
  rw [hresp]
  rfl

/-- Any other call stores nothing. -/
theorem nioDiskInfo_unanswered
    (h : ∀ payload, dev.respond past (diskInfoRequest slot) ≠ .answered nioStatusOk payload) :
    (nioDiskInfo dev past slot stack).ret = false ∧
      (nioDiskInfo dev past slot stack).stored = [] ∧
      (nioDiskInfo dev past slot stack).reads = [] := by
  unfold nioDiskInfo nioCall
  cases hresp : dev.respond past (diskInfoRequest slot) with
  -- a failed call has no reply
  | failed code => exact ⟨rfl, rfl, rfl⟩
  | answered status payload =>
    have hstatus : status ≠ nioStatusOk := by
      rintro rfl
      exact h payload hresp
    dsimp only
    rw [if_pos hstatus]
    exact ⟨rfl, rfl, rfl⟩

/-- The bytes a record is taken from are those of the reply. -/
theorem infoAt_overlay {payload : List UInt8} (hlen : 12 ≤ payload.length) :
    infoAt (overlay stack 0 payload) payload.length = infoAt (listMem payload) payload.length := by
  -- all that is read lies inside the reply
  have hbyte : ∀ i, i < payload.length → overlay stack 0 payload i = listMem payload i :=
    fun i hi => overlay_zero_of_lt hi
  have hlast : (if payload.length > 12 then overlay stack 0 payload 12 else 0) =
      if payload.length > 12 then listMem payload 12 else 0 := by
    split
    next hlong => exact hbyte 12 hlong
    next => rfl
  rw [infoAt, infoAt, hlast, u16At, u16At, u32At, u32At, hbyte 1 (by omega), hbyte 4 (by omega),
    hbyte 5 (by omega), hbyte 6 (by omega), hbyte 7 (by omega), hbyte 8 (by omega),
    hbyte 9 (by omega), hbyte 10 (by omega), hbyte 11 (by omega)]

/-- A call whose answer is the encoding of a reply. -/
theorem nioDiskInfo_encode {p : InfoReply}
    (hresp : dev.respond past (diskInfoRequest slot) = .answered nioStatusOk p.encode) :
    nioDiskInfo dev past slot stack =
      ⟨true, ⟨nioStatusOk, p.encode.length⟩, [p.info],
        List.range' 0 2 ++ List.range' 4 8 ++ if p.encode.length > 12 then [12] else []⟩ := by
  have hlen : 12 ≤ p.encode.length := by
    rw [length_encode]
    omega
  obtain ⟨hver, hinfo⟩ := infoAt_encode p
  have hver' : overlay stack 0 p.encode 0 = nioDiskVersion := by
    rw [overlay_zero_of_lt (by omega), hver]
  rw [nioDiskInfo_answered stack hresp, exec_diskInfoProg _ hlen hver', infoAt_overlay stack hlen,
    hinfo]

/-- A call whose answer is none. -/
theorem nioDiskInfo_refused
    (h : ¬ ∃ p : InfoReply, dev.respond past (diskInfoRequest slot) =
      .answered nioStatusOk p.encode) :
    (nioDiskInfo dev past slot stack).ret = false ∧
      (nioDiskInfo dev past slot stack).stored = [] ∧
      ∀ i ∈ (nioDiskInfo dev past slot stack).reads,
        i < (nioDiskInfo dev past slot stack).response.payloadLength := by
  rcases Classical.em (∃ payload, dev.respond past (diskInfoRequest slot) =
      .answered nioStatusOk payload) with ⟨payload, hresp⟩ | hnone
  · have hbad : payload.length < 12 ∨ overlay stack 0 payload 0 ≠ nioDiskVersion := by
      -- a good reply would be the encoding of one
      by_contra hgood
      push Not at hgood
      obtain ⟨hlen, hver⟩ := hgood
      rw [overlay_zero_of_lt (by omega)] at hver
      obtain ⟨p, rfl⟩ := exists_encode_eq hlen hver
      exact h ⟨p, hresp⟩
    rw [nioDiskInfo_answered stack hresp]
    exact exec_diskInfoProg_bad _ hbad
  · obtain ⟨hret, hstored, hreads⟩ := nioDiskInfo_unanswered stack (not_exists.mp hnone)
    refine ⟨hret, hstored, ?_⟩
    rw [hreads]
    exact nofun

end Call

/-- **`nio_disk_info` is exact.** Whatever the device, the requests before and the stack: the call
returns 1 exactly when the answer is the encoding of a reply, and then the caller has the record of
that reply; otherwise the caller's record is as it was. Only bytes the device sent are read. -/
theorem nioDiskInfo_exact (dev : Device) (past : List Request) (slot : UInt8)
    (stack : Nat → UInt8) (info : DiskInfo) :
    let r := nioDiskInfo dev past slot stack
    (r.ret = true ↔ ∃ p : InfoReply, dev.respond past (diskInfoRequest slot) =
      .answered nioStatusOk p.encode) ∧
    (∀ p : InfoReply, dev.respond past (diskInfoRequest slot) = .answered nioStatusOk p.encode →
      r.info info = p.info) ∧
    (r.ret = false → r.info info = info) ∧
    ∀ i ∈ r.reads, i < r.response.payloadLength := by
  by_cases h : ∃ p : InfoReply, dev.respond past (diskInfoRequest slot) =
      .answered nioStatusOk p.encode
  · obtain ⟨p, hresp⟩ := h
    have hcall := nioDiskInfo_encode stack hresp
    refine ⟨⟨fun _ => ⟨p, hresp⟩, fun _ => ?_⟩, fun q hq => ?_, fun hret => ?_, fun i hi => ?_⟩
    · rw [hcall]
    · have hq' := nioDiskInfo_encode stack hq
      rw [hq']
      rfl
    · rw [hcall] at hret
      cases hret
    · rw [hcall] at hi ⊢
      have hlen : 12 ≤ p.encode.length := by
        rw [length_encode]
        omega
      show i < p.encode.length
      simp only [List.mem_append, List.mem_range'_1] at hi
      rcases hi with (hi | hi) | hi
      · omega
      · omega
      · split at hi
        next hlong =>
          rw [List.mem_singleton.mp hi]
          exact hlong
        next => cases hi
  · obtain ⟨hret, hstored, hreads⟩ := nioDiskInfo_refused stack h
    refine ⟨⟨fun htrue => ?_, fun hsome => absurd hsome h⟩, fun p hp => absurd ⟨p, hp⟩ h,
      fun _ => ?_, hreads⟩
    · rw [hret] at htrue
      cases htrue
    · rw [DiskInfoResult.info, hstored]
      rfl

end NioApps.Nio
