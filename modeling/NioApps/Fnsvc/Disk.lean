import NioApps.Fnsvc.Transport

/-!
# Fnsvc — the disk calls

`fnsvc_disk_mount`, `fnsvc_disk_unmount` and `fnsvc_disk_restore_boot`. Each rejects some
arguments without a request, builds a short request, and lets `disk_result` record the outcome
in `disk_last_error`. `DiskCall.request` is the request of a call, and `diskCall_run` the one lemma
about all three: what a call returns and records, by what became of its request.
-/

namespace NioApps.Fnsvc

inductive DiskCall where
  | mount (slot : UInt8) (uri : CStr) (readonly : UInt8) (sectorSizeHint : UInt16)
  | unmount (slot : UInt8)
  | restoreBoot (slot : UInt8)

def World.recordDisk (w : World) (error : UInt8) : World := { w with diskLastError := error }

section

variable (h : FujinetNio) (dev : Device)

/-- `disk_result`: record the outcome of an exchange. -/
def diskResult (called : Bool) (status : UInt8) (respLen : Nat) (w : World) : Bool × World :=
  if called = false then (false, w.recordDisk h.diskErrUnreported)
  else if status = fnsvcStatusOk then (true, w.recordDisk h.diskErrNone)
  else if respLen = 2 ∧ w.respBuf 0 = nioDiskVersion then (false, w.recordDisk (w.respBuf 1))
  else (false, w.recordDisk h.diskErrUnreported)

/-- A request for the disk device, from what stands in `req_buf`. -/
def diskExchange (command : UInt8) (capacity : Nat) (b : FrameBuf) (w : World) :
    Option (UInt8 × Nat) × World :=
  serviceCall dev ⟨nioDeviceidDisk, command, b.frame, capacity⟩ { w with reqBuf := b.mem }

def diskService (command : UInt8) (capacity : Nat) (b : FrameBuf) (w : World) : Bool × World :=
  match diskExchange dev command capacity b w with
  | (none, w) => diskResult h false 0 0 w
  | (some (status, respLen), w) => diskResult h true status respLen w

/-- The chunks of a mount request. -/
def mountChunks (slot : UInt8) (uri : CStr) (readonly : UInt8) (sectorSizeHint : UInt16) :
    List (List UInt8) :=
  [[nioDiskVersion], [slot + 1], [if readonly ≠ 0 then 0x01 else 0x00], [0x00],
    putU16le sectorSizeHint.toNat, putU16le (u16 uri.len), uri.bytes.take (u16 uri.len)]

/-- The two bytes of the other requests. -/
def slotChunk (slot : UInt8) : List UInt8 := [nioDiskVersion, slot + 1]

def fnsvcDiskMount (slot : UInt8) (uri : CStr) (readonly : UInt8) (sectorSizeHint : UInt16)
    (w : World) : Bool × World :=
  -- rejected without a request; `disk_last_error` keeps its old value
  if slot.toNat ≥ fnctlMaxUnits ∨ u16 uri.len = 0 ∨ u16 uri.len + 8 > fnsvcIoBufSize then
    (false, w)
  else
    diskService h dev nioDiskMount 32
      ((FrameBuf.mk w.reqBuf 0).puts (mountChunks slot uri readonly sectorSizeHint)) w

def fnsvcDiskUnmount (slot : UInt8) (w : World) : Bool × World :=
  if slot.toNat ≥ fnctlMaxUnits then (false, w)
  else diskService h dev nioDiskUnmount 16 ((FrameBuf.mk w.reqBuf 0).put (slotChunk slot)) w

/-- The checks `fnsvc_disk_restore_boot` makes after `disk_result`. -/
def restoreBootChecks (status : UInt8) (respLen : Nat) (w : World) : Bool × World :=
  if status ≠ fnsvcStatusOk then (false, w.fail .status)
  else if respLen < 12 then (false, w.fail .shortResponse)
  else if w.respBuf 0 ≠ nioDiskVersion then (false, w.fail .badVersion)
  else (true, w)

/-- `fnsvc_disk_restore_boot`: its exchange sets the other statics as well, and the answer is
looked at once more after `disk_result`, whose own return value is dropped. -/
def fnsvcDiskRestoreBoot (slot : UInt8) (w : World) : Bool × World :=
  if slot.toNat ≥ fnctlMaxUnits then (false, w)
  else
    match diskExchange dev nioDiskRestoreBoot 16 ((FrameBuf.mk w.reqBuf 0).put (slotChunk slot))
      w.clearLast with
    | (none, w) => (false, (diskResult h false 0 0 w).2.fail .transport)
    | (some (status, respLen), w) =>
      restoreBootChecks status respLen (diskResult h true status respLen
        (w.setLast status respLen)).2

def DiskCall.call : DiskCall → World → Bool × World
  | .mount slot uri readonly sectorSizeHint =>
    fnsvcDiskMount h dev slot uri readonly sectorSizeHint
  | .unmount slot => fnsvcDiskUnmount h dev slot
  | .restoreBoot slot => fnsvcDiskRestoreBoot h dev slot

end

/-! ## The request of a call -/

def mountFrame (slot : UInt8) (uri : CStr) (readonly : UInt8) (sectorSizeHint : UInt16) :
    List UInt8 :=
  nioDiskVersion :: (slot + 1) :: (if readonly ≠ 0 then 0x01 else 0x00) :: 0x00 ::
    (leBytes 2 sectorSizeHint.toNat ++ (leBytes 2 (u16 uri.len) ++
      uri.bytes.take (u16 uri.len)))

/-- The arguments a call rejects without a request. -/
def DiskCall.Rejected : DiskCall → Prop
  | .mount slot uri _ _ =>
    slot.toNat ≥ fnctlMaxUnits ∨ u16 uri.len = 0 ∨ u16 uri.len + 8 > fnsvcIoBufSize
  | .unmount slot => slot.toNat ≥ fnctlMaxUnits
  | .restoreBoot slot => slot.toNat ≥ fnctlMaxUnits

/-- The request a call sends when it does not reject its arguments. -/
def DiskCall.request : DiskCall → Request
  | .mount slot uri readonly sectorSizeHint =>
    ⟨nioDeviceidDisk, nioDiskMount, mountFrame slot uri readonly sectorSizeHint, 32⟩
  | .unmount slot => ⟨nioDeviceidDisk, nioDiskUnmount, slotChunk slot, 16⟩
  | .restoreBoot slot => ⟨nioDeviceidDisk, nioDiskRestoreBoot, slotChunk slot, 16⟩

theorem mountFrame_length (slot : UInt8) (uri : CStr) (readonly : UInt8)
    (sectorSizeHint : UInt16) :
    (mountFrame slot uri readonly sectorSizeHint).length = u16 uri.len + 8 := by
  simp only [mountFrame, List.length_cons, List.length_append, leBytes_length, take_length_u16]
  omega

/-- The chunks that the code stores one after another make up the frame. -/
theorem mountChunks_frame (reqBuf : Nat → UInt8) (slot : UInt8) {uri : CStr} (readonly : UInt8)
    (sectorSizeHint : UInt16) (hlen : u16 uri.len + 8 ≤ fnsvcIoBufSize) :
    ((FrameBuf.mk reqBuf 0).puts (mountChunks slot uri readonly sectorSizeHint)).frame =
      mountFrame slot uri readonly sectorSizeHint := by
  have hlen' : u16 uri.len + 8 ≤ 512 := hlen
  have hbytes : (mountChunks slot uri readonly sectorSizeHint).flatten =
      mountFrame slot uri readonly sectorSizeHint := by
    simp [mountChunks, mountFrame, putU16le_eq]
  rw [FrameBuf.frame_puts, FrameBuf.frame_start, hbytes]
  · rfl
  · rw [hbytes, mountFrame_length]
    show 0 + (u16 uri.len + 8) < 65536
    omega

/-- The request of an unmount or a restore is its one chunk. -/
theorem slotChunk_frame (reqBuf : Nat → UInt8) (slot : UInt8) :
    ((FrameBuf.mk reqBuf 0).put (slotChunk slot)).frame = slotChunk slot := by
  rw [FrameBuf.frame_put (by simp [slotChunk]), FrameBuf.frame_start, List.nil_append]

/-! ## What a call records -/

/-- The reason a reply gives for a failure: the second byte of the body `{version, reason}` of
a non-OK status. -/
def Reply.explains : Reply → Option UInt8
  | .failed _ => none
  | .answered status payload =>
    match payload with
    | [version, reason] =>
      if status ≠ fnsvcStatusOk ∧ version = nioDiskVersion then some reason else none
    | _ => none

/-- Whether a reply is a status OK. -/
def Reply.isOk : Reply → Bool
  | .failed _ => false
  | .answered status _ => decide (status = fnsvcStatusOk)

/-- The body `fnsvc_disk_restore_boot` asks for: at least 12 bytes of version 1. -/
def Reply.bootBody : Reply → Bool
  | .failed _ => false
  | .answered _ payload => decide (12 ≤ payload.length ∧ listMem payload 0 = nioDiskVersion)

/-- What `disk_result` makes of a reply. -/
def recordedError (h : FujinetNio) (reply : Reply) : UInt8 :=
  if reply.isOk then h.diskErrNone else reply.explains.getD h.diskErrUnreported

/-- What a call that got the reply returns. -/
def DiskCall.accepts : DiskCall → Reply → Bool
  | .restoreBoot _, reply => reply.isOk && reply.bootBody
  | _, reply => reply.isOk

section Run

variable {h : FujinetNio} {dev : Device}

/-- `disk_result` records an error and touches nothing else. -/
theorem diskResult_records (h : FujinetNio) (called : Bool) (status : UInt8) (respLen : Nat)
    (w : World) : ∃ error, (diskResult h called status respLen w).2 = w.recordDisk error := by
  unfold diskResult
  split
  · exact ⟨_, rfl⟩
  · split
    · exact ⟨_, rfl⟩
    · split <;> exact ⟨_, rfl⟩

/-- The checks after it record an error, or leave what is recorded. -/
theorem restoreBootChecks_records (status : UInt8) (respLen : Nat) (w : World) :
    ∃ error, (restoreBootChecks status respLen w).2 = w.fail error := by
  unfold restoreBootChecks
  split
  · exact ⟨_, rfl⟩
  · split
    · exact ⟨_, rfl⟩
    · split
      · exact ⟨_, rfl⟩
      · exact ⟨w.lastError, rfl⟩

/-- What `disk_result` makes of an answer: the flag and the reason that the reply gives. -/
theorem diskResult_answered {w : World} (m : Nat → UInt8) (status : UInt8)
    {payload : List UInt8} (hbuf : w.respBuf = overlay m 0 payload) :
    diskResult h true status payload.length w =
      ((Reply.answered status payload).isOk,
        w.recordDisk (recordedError h (.answered status payload))) := by
  unfold diskResult
  rw [if_neg (by simp)]
  by_cases hstatus : status = fnsvcStatusOk
  · rw [if_pos hstatus, recordedError, Reply.isOk, decide_eq_true hstatus, if_pos rfl]
  rw [if_neg hstatus, recordedError, Reply.isOk, decide_eq_false hstatus,
    if_neg Bool.false_ne_true, hbuf]
  -- the two bytes `disk_result` looks at are those of the answer
  match payload with
  | [] => rfl
  | [_] => rfl
  | [version, reason] =>
    -- a body of two bytes explains the failure if its version is right
    have h0 : overlay m 0 [version, reason] 0 = version := overlay_zero_of_lt (by simp)
    have h1 : overlay m 0 [version, reason] 1 = reason := overlay_zero_of_lt (by simp)
    rw [h0, h1]
    by_cases hver : version = nioDiskVersion <;> simp [Reply.explains, hstatus, hver]
  | _ :: _ :: _ :: _ => simp [Reply.explains]

/-- What a call does: nothing when it rejects its arguments, and otherwise what the reply to
its request says. -/
structure DiskRun (h : FujinetNio) (dev : Device) (c : DiskCall) (w : World)
    (out : Bool × World) : Prop where
  rejected : c.Rejected → out = (false, w)
  ret : ¬ c.Rejected → out.1 = c.accepts (dev.respond w.past c.request)
  recorded : ¬ c.Rejected →
    out.2.diskLastError = recordedError h (dev.respond w.past c.request)

theorem DiskRun.of_rejected {c : DiskCall} (w : World) (hargs : c.Rejected) :
    DiskRun h dev c w (false, w) :=
  ⟨fun _ => rfl, fun hnot => absurd hargs hnot, fun hnot => absurd hargs hnot⟩

/-- An exchange that fits the transport, by what the device answers. -/
theorem diskExchange_reply {command : UInt8} {capacity : Nat} {b : FrameBuf} {w : World}
    (hlen : b.frame.length ≤ fnctlMaxData) (hcap : capacity ≤ fnctlMaxData) :
    diskExchange dev command capacity b w =
      match dev.respond w.past ⟨nioDeviceidDisk, command, b.frame, capacity⟩ with
      | .failed code =>
        (none, { w with reqBuf := b.mem }.failedCall
          ⟨nioDeviceidDisk, command, b.frame, capacity⟩ code)
      | .answered status payload =>
        (some (status, payload.length), { w with reqBuf := b.mem }.answeredCall
          ⟨nioDeviceidDisk, command, b.frame, capacity⟩ payload) := by
  unfold diskExchange
  cases hresp : dev.respond w.past ⟨nioDeviceidDisk, command, b.frame, capacity⟩ with
  | failed code => exact serviceCall_failed hlen hcap hresp
  | answered status payload => exact serviceCall_answered hlen hcap hresp

/-- `service_call` followed by `disk_result` returns and records what the reply says. -/
theorem diskService_reply (h : FujinetNio) (dev : Device) (command : UInt8) {capacity : Nat}
    {b : FrameBuf} (w : World)
    (hlen : b.frame.length ≤ fnctlMaxData) (hcap : capacity ≤ fnctlMaxData) :
    (diskService h dev command capacity b w).1 =
        (dev.respond w.past ⟨nioDeviceidDisk, command, b.frame, capacity⟩).isOk ∧
      (diskService h dev command capacity b w).2.diskLastError =
        recordedError h (dev.respond w.past ⟨nioDeviceidDisk, command, b.frame, capacity⟩) := by
  unfold diskService
  rw [diskExchange_reply hlen hcap]
  cases dev.respond w.past ⟨nioDeviceidDisk, command, b.frame, capacity⟩ with
  | failed code => exact ⟨rfl, rfl⟩
  | answered status payload =>
    dsimp only
    rw [diskResult_answered w.respBuf status rfl]
    exact ⟨rfl, rfl⟩

/-- The request is recorded, and stands in `req_buf`. -/
theorem diskService_sends (h : FujinetNio) (dev : Device) (command : UInt8) {capacity : Nat}
    {b : FrameBuf} (w : World)
    (hlen : b.frame.length ≤ fnctlMaxData) (hcap : capacity ≤ fnctlMaxData) :
    (diskService h dev command capacity b w).2.past =
        w.past ++ [⟨nioDeviceidDisk, command, b.frame, capacity⟩] ∧
      (diskService h dev command capacity b w).2.reqBuf = b.mem := by
  unfold diskService
  rw [diskExchange_reply hlen hcap]
  -- what comes back is recorded, and neither the log nor the buffer is touched again
  cases dev.respond w.past ⟨nioDeviceidDisk, command, b.frame, capacity⟩ with
  | failed code =>
    dsimp only
    obtain ⟨e, he⟩ := diskResult_records h false 0 0 _
    rw [he]
    exact ⟨rfl, rfl⟩
  | answered status payload =>
    dsimp only
    obtain ⟨e, he⟩ := diskResult_records h true status payload.length _
    rw [he]
    exact ⟨rfl, rfl⟩

/-- A mount does as its reply says, or is rejected. -/
theorem fnsvcDiskMount_run (slot : UInt8) (uri : CStr) (readonly : UInt8)
    (sectorSizeHint : UInt16) (w : World) :
    DiskRun h dev (.mount slot uri readonly sectorSizeHint) w
      (fnsvcDiskMount h dev slot uri readonly sectorSizeHint w) := by
  unfold fnsvcDiskMount
  by_cases hargs : slot.toNat ≥ fnctlMaxUnits ∨ u16 uri.len = 0 ∨
      u16 uri.len + 8 > fnsvcIoBufSize
  · rw [if_pos hargs]
    exact .of_rejected w hargs
  · rw [if_neg hargs]
    -- what is not rejected fits the buffer and the transport
    have hlen : u16 uri.len + 8 ≤ fnsvcIoBufSize :=
      Nat.le_of_not_lt fun hlt => hargs (.inr (.inr hlt))
    have hframe := mountChunks_frame w.reqBuf slot readonly sectorSizeHint hlen
    have hfits : ((FrameBuf.mk w.reqBuf 0).puts
        (mountChunks slot uri readonly sectorSizeHint)).frame.length ≤ fnctlMaxData := by
      rw [hframe, mountFrame_length]
      exact hlen
    obtain ⟨hret, hrecorded⟩ := diskService_reply h dev nioDiskMount w hfits
      (show 32 ≤ fnctlMaxData by decide)
    rw [hframe] at hret hrecorded
    exact ⟨fun h => absurd h hargs, fun _ => hret, fun _ => hrecorded⟩

theorem slotChunk_fits (reqBuf : Nat → UInt8) (slot : UInt8) :
    ((FrameBuf.mk reqBuf 0).put (slotChunk slot)).frame.length ≤ fnctlMaxData := by
  rw [slotChunk_frame]
  exact show 2 ≤ 512 by decide

/-- An unmount does as its reply says, or is rejected. -/
theorem fnsvcDiskUnmount_run (slot : UInt8) (w : World) :
    DiskRun h dev (.unmount slot) w (fnsvcDiskUnmount h dev slot w) := by
  unfold fnsvcDiskUnmount
  by_cases hargs : slot.toNat ≥ fnctlMaxUnits
  · rw [if_pos hargs]
    exact .of_rejected w hargs
  · rw [if_neg hargs]
    obtain ⟨hret, hrecorded⟩ := diskService_reply h dev nioDiskUnmount w
      (slotChunk_fits w.reqBuf slot) (show 16 ≤ fnctlMaxData by decide)
    rw [slotChunk_frame] at hret hrecorded
    exact ⟨fun h => absurd h hargs, fun _ => hret, fun _ => hrecorded⟩

/-- The checks of the body come after the recording: they change what is returned and not what is
recorded. -/
theorem restoreBootChecks_run {w : World} (m : Nat → UInt8) (status : UInt8)
    {payload : List UInt8} (hbuf : w.respBuf = overlay m 0 payload) :
    (restoreBootChecks status payload.length w).1 =
        ((Reply.answered status payload).isOk && (Reply.answered status payload).bootBody) ∧
      (restoreBootChecks status payload.length w).2.diskLastError = w.diskLastError := by
  unfold restoreBootChecks
  by_cases hstatus : status = fnsvcStatusOk
  case neg => simp [hstatus, Reply.isOk, World.fail]
  by_cases hshort : payload.length < 12
  case pos => simp [hstatus, hshort, Reply.isOk, Reply.bootBody, World.fail]
  -- the version byte is that of the answer
  have hbyte : w.respBuf 0 = listMem payload 0 := by
    rw [hbuf]
    exact overlay_zero_of_lt (by omega)
  by_cases hver : listMem payload 0 = nioDiskVersion
  · simp [hstatus, hshort, hbyte, hver, Reply.isOk, Reply.bootBody]
    omega
  · simp [hstatus, hshort, hbyte, hver, Reply.isOk, Reply.bootBody, World.fail]

/-- A restore of a valid slot does as its reply says. -/
theorem fnsvcDiskRestoreBoot_reply (h : FujinetNio) (dev : Device) {slot : UInt8}
    (hslot : ¬ slot.toNat ≥ fnctlMaxUnits) (w : World) :
    (fnsvcDiskRestoreBoot h dev slot w).1 = (DiskCall.restoreBoot slot).accepts
        (dev.respond w.past (DiskCall.restoreBoot slot).request) ∧
      (fnsvcDiskRestoreBoot h dev slot w).2.diskLastError =
        recordedError h (dev.respond w.past (DiskCall.restoreBoot slot).request) := by
  unfold fnsvcDiskRestoreBoot DiskCall.request
  rw [if_neg hslot, diskExchange_reply (slotChunk_fits w.reqBuf slot) (by decide),
    slotChunk_frame, show w.clearLast.past = w.past from rfl]
  cases dev.respond w.past ⟨nioDeviceidDisk, nioDiskRestoreBoot, slotChunk slot, 16⟩ with
  | failed code => exact ⟨rfl, rfl⟩
  | answered status payload =>
    dsimp only
    rw [diskResult_answered w.respBuf status rfl]
    exact restoreBootChecks_run w.respBuf status rfl

/-- A restore does as its reply says, or is rejected. -/
theorem fnsvcDiskRestoreBoot_run (slot : UInt8) (w : World) :
    DiskRun h dev (.restoreBoot slot) w (fnsvcDiskRestoreBoot h dev slot w) := by
  by_cases hargs : slot.toNat ≥ fnctlMaxUnits
  · unfold fnsvcDiskRestoreBoot
    rw [if_pos hargs]
    exact .of_rejected w hargs
  · obtain ⟨hret, hrecorded⟩ := fnsvcDiskRestoreBoot_reply h dev hargs w
    exact ⟨fun h => absurd h hargs, fun _ => hret, fun _ => hrecorded⟩

/-- **One disk call.** Rejected arguments leave everything as it was; otherwise the reply
decides what is returned and what is recorded. -/
theorem diskCall_run (c : DiskCall) (w : World) : DiskRun h dev c w (c.call h dev w) := by
  cases c with
  | mount slot uri readonly sectorSizeHint =>
    exact fnsvcDiskMount_run slot uri readonly sectorSizeHint w
  | unmount slot => exact fnsvcDiskUnmount_run slot w
  | restoreBoot slot => exact fnsvcDiskRestoreBoot_run slot w

end Run

end NioApps.Fnsvc
