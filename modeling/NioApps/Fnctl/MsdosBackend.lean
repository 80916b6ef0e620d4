import NioApps.Fnsvc.Transport
import NioApps.Lib.Machine
import NioApps.Lib.Search

/-!
# Fnctl — the backend that talks to a DOS driver

`platform/msdos/fnctl.c`. The state and the slots belong to a block device driver: the backend
looks for its drive once, keeps the number (`cached_drive`), and asks it through the IOCTL calls
`44h/04h` and `44h/05h` of DOS. A new state goes to the device itself, in a frame for
`fn_raw_call`.

* `Dos` — DOS, its drivers and `fn_raw_call`: any machine that answers interrupts and raw calls.
* `Statics`, `Event` — the static variables, and a log of what was asked and answered.
* `findDrive` … `nioCall` — the code; `step` makes one call of it.
* `ioctlCall_log`, `findDrive_cases`, `nioCall_cases` — what a call can do.
-/

namespace NioApps.Fnctl.Msdos

open NioApps.Fnsvc

/-! ## The other side -/

/-- What an IOCTL call comes back with: the carry flag, AX, and the bytes the driver hands over. -/
structure IoctlReply where
  carry : Bool
  ax : UInt16
  data : List UInt8
  deriving DecidableEq

/-- What `fn_raw_call` comes back with: a failure, with the value `fn_msdos_ioctl_last_error` has
then, or a status and a payload. -/
inductive RawReply where
  | failed (dosError : UInt16)
  | answered (status : UInt8) (payload : List UInt8)
  deriving DecidableEq

/-- DOS with its drivers, and `fn_raw_call`. -/
structure Dos (κ : Type) where
  ioctl : (drive : UInt8) → (subfunction : UInt8) → (buffer : List UInt8) → κ → IoctlReply × κ
  rawCall : Request → κ → RawReply × κ

/-- An interrupt or a raw call, with its answer. -/
inductive Event where
  | ioctl (drive : Nat) (subfunction : UInt8) (buffer : List UInt8) (reply : IoctlReply)
  | raw (request : Request) (reply : RawReply)
  deriving DecidableEq

/-- The static variables of the file, the state of the other side and the log. -/
structure Statics (κ : Type) where
  dos : κ
  cachedDrive : Nat
  lastDosError : UInt16
  queryBuf : List UInt8
  unitMapBuf : List UInt8
  stateRequestBuf : List UInt8
  past : List Event

/-! ## The blocks

`fnctl_query_t`, `fnctl_state_t` and `fnctl_unit_map_t` have no padding: they are lists of bytes,
the command in byte 0, the signature in bytes 1 to 4. -/

/-- `sizeof(fnctl_query_t)`. -/
def querySize : Nat := 8

/-- `sizeof(fnctl_state_t)`. -/
def stateSize : Nat := 12 + (fnctlMaxUri + 1) + (fnctlMaxPath + 1)

/-- `sizeof(fnctl_unit_map_t)`. -/
def unitMapSize : Nat := 9

def fnctlQuery : UInt8 := 0
def fnctlSetState : UInt8 := 2
def fnctlGetUnitMap : UInt8 := 3
def fnctlSetUnitMap : UInt8 := 4

/-- The field `signature` of a block. -/
def signature (block : List UInt8) : List UInt8 := (block.drop 1).take 4

/-- The field `unit` of a block. -/
def unitOf (block : List UInt8) : UInt8 := block.getD 5 0

/-- The field `slot` of a unit map. -/
def slotOf (block : List UInt8) : UInt8 := block.getD 8 0

/-- A cleared block with its command. -/
def cleared (size : Nat) (command : UInt8) : List UInt8 := (List.replicate size 0).set 0 command

def queryRequest : List UInt8 := cleared querySize fnctlQuery

def stateRequest : List UInt8 := cleared stateSize fnctlGetStateCommand

/-- `unit_map_buf` with its command, the unit and the slot. -/
def unitMapRequest (command unit slot : UInt8) : List UInt8 :=
  ((cleared unitMapSize command).set 5 unit).set 8 slot

/-- The buffer of `size` bytes after the driver put its bytes there: CX bytes at most. -/
def IoctlReply.fill (reply : IoctlReply) (buffer : List UInt8) : List UInt8 :=
  memcpy buffer (reply.data.take buffer.length)

/-! ## The code -/

section Code

def validSig (sig : List UInt8) : Bool := decide (sig.take 4 = fnctlSignature)

variable {κ : Type}

/-- The static variables when the program is loaded. -/
def initial (k : κ) : Statics κ where
  dos := k
  cachedDrive := 0
  lastDosError := 0
  queryBuf := List.replicate querySize 0
  unitMapBuf := List.replicate unitMapSize 0
  stateRequestBuf := List.replicate fnctlMaxData 0
  past := []

variable (dos : Dos κ)

def ioctlCall (drive : Nat) (subfunction : UInt8) (buffer : List UInt8) (s : Statics κ) :
    IoctlReply × Statics κ :=
  let (reply, k) := dos.ioctl (UInt8.ofNat drive) subfunction buffer s.dos
  (reply, { s with
    dos := k
    past := s.past ++ [.ioctl drive subfunction buffer reply]
    lastDosError := if reply.carry then reply.ax else 0 })

/-- `ioctl_recv`: whether it succeeded, and the buffer afterwards. -/
def ioctlRecv (drive : Nat) (buffer : List UInt8) (s : Statics κ) :
    (Bool × List UInt8) × Statics κ :=
  let (reply, s) := ioctlCall dos drive 0x04 buffer s
  ((!reply.carry, reply.fill buffer), s)

def ioctlSend (drive : Nat) (buffer : List UInt8) (s : Statics κ) : Bool × Statics κ :=
  let (reply, s) := ioctlCall dos drive 0x05 buffer s
  (!reply.carry, s)

/-- The drives of both searches, 3 to 26. -/
def searchDrives : List Nat := List.range' 3 24

/-- One pass of a search: the query, and whether `wanted` accepts the block that came back. -/
def askDrive (wanted : List UInt8 → Bool) (drive : Nat) (s : Statics κ) : Bool × Statics κ :=
  let ((ok, block), s) := ioctlRecv dos drive queryRequest s
  (ok && wanted block, { s with queryBuf := block })

def signed (block : List UInt8) : Bool := validSig (signature block)

def signedFor (unit : UInt8) (block : List UInt8) : Bool := signed block && unitOf block == unit

def findDrive (s : Statics κ) : Nat × Statics κ :=
  if s.cachedDrive ≠ 0 then (s.cachedDrive, s)
  else
    match Search.firstAccepted (askDrive dos signed) searchDrives s with
    | (some drive, s) => (drive, { s with cachedDrive := drive })
    | (none, s) => (0, s)

def findDriveForUnit (unit : UInt8) (s : Statics κ) : Nat × Statics κ :=
  match Search.firstAccepted (askDrive dos (signedFor unit)) searchDrives s with
  | (some drive, s) => (drive, s)
  | (none, s) => (0, s)

/-- `fnctl_get_state` into the caller's `block`, which is cleared as soon as there is a drive. -/
def getState (block : List UInt8) (s : Statics κ) : (Bool × List UInt8) × Statics κ :=
  let (drive, s) := findDrive dos s
  if drive = 0 then ((false, block), s)
  else
    let ((ok, block), s) := ioctlRecv dos drive stateRequest s
    ((ok && signed block, block), s)

def nioCall (r : Request) (s : Statics κ) : Option (UInt8 × Nat) × Statics κ :=
  if r.frame.length > fnctlMaxData ∨ r.capacity > fnctlMaxData then (none, s)
  else
    let (reply, k) := dos.rawCall r s.dos
    let s := { s with dos := k, past := s.past ++ [Event.raw r reply] }
    match reply with
    | .failed dosError => (none, { s with lastDosError := dosError })
    | .answered status payload => (some (status, payload.length), { s with lastDosError := 0 })

/-- What `fnctl_set_state` puts at the start of `state_request_buf`. -/
def stateFrame (uri path : CStr) : List UInt8 :=
  putU16le uri.len ++ putU16le path.len ++ uri.bytes ++ path.bytes

def setState (uri path : CStr) (s : Statics κ) : Bool × Statics κ :=
  if uri.len > fnctlMaxUri ∨ path.len > fnctlMaxPath then (false, s)
  else
    let requestLen := u16 (4 + uri.len + path.len)
    if requestLen > fnctlMaxData then (false, s)
    else
      let s := { s with stateRequestBuf := memcpy s.stateRequestBuf (stateFrame uri path) }
      let (out, s) := nioCall dos ⟨0x00, fnctlSetState, s.stateRequestBuf.take requestLen, 0⟩ s
      match out with
      | some (status, _) => (status == 0, s)
      | none => (false, s)

/-- `fnctl_get_unit_slot`: the slot, where it is stored into the caller's variable. -/
def getUnitSlot (unit : UInt8) (s : Statics κ) : Option UInt8 × Statics κ :=
  let (drive, s) := findDrive dos s
  if drive = 0 then (none, s)
  else
    let ((ok, block), s) := ioctlRecv dos drive (unitMapRequest fnctlGetUnitMap unit 0) s
    (if ok && signed block then some (slotOf block) else none, { s with unitMapBuf := block })

def setUnitSlot (unit slot : UInt8) (s : Statics κ) : Bool × Statics κ :=
  let (drive, s) := findDrive dos s
  if drive = 0 then (false, s)
  else
    let request := unitMapRequest fnctlSetUnitMap unit slot
    ioctlSend dos drive request { s with unitMapBuf := request }

/-- A call of one of the functions of the file. -/
inductive Call where
  | findDrive
  | findDriveForUnit (unit : UInt8)
  | getState (block : List UInt8)
  | setState (uri path : CStr)
  | getUnitSlot (unit : UInt8)
  | setUnitSlot (unit slot : UInt8)
  | nioCall (r : Request)
  | lastDosError

/-- What a call gives its caller. -/
inductive Out where
  | drive (drive : Nat)
  | unitDrive (drive : Nat)
  | state (ret : Bool) (block : List UInt8)
  | done (ret : Bool)
  | slot (out : Option UInt8)
  | answer (out : Option (UInt8 × Nat))
  | error (code : UInt16)
  deriving DecidableEq

def step : Call → Statics κ → Out × Statics κ
  | .findDrive, s => (findDrive dos s).map .drive id
  | .findDriveForUnit unit, s => (findDriveForUnit dos unit s).map .unitDrive id
  | .getState block, s => (getState dos block s).map (fun out => .state out.1 out.2) id
  | .setState uri path, s => (setState dos uri path s).map .done id
  | .getUnitSlot unit, s => (getUnitSlot dos unit s).map .slot id
  | .setUnitSlot unit slot, s => (setUnitSlot dos unit slot s).map .done id
  | .nioCall r, s => (nioCall dos r s).map .answer id
  | .lastDosError, s => (.error s.lastDosError, s)

end Code
/-! ## What a call can do -/

/-- The answer to a query of `drive`. -/
def Event.Query (drive : Nat) (e : Event) : Prop :=
  ∃ reply, e = .ioctl drive 0x04 queryRequest reply

/-- An answer whose block `wanted` accepts. -/
def Event.Answers (wanted : List UInt8 → Bool) : Event → Prop
  | .ioctl _ _ buffer reply => reply.carry = false ∧ wanted (reply.fill buffer) = true
  | .raw _ _ => False

/-- The value of AX with carry set, the error of a failed raw call, 0 otherwise. -/
def Event.error : Event → UInt16
  | .ioctl _ _ _ reply => if reply.carry then reply.ax else 0
  | .raw _ (.failed dosError) => dosError
  | .raw _ (.answered _ _) => 0

section Spec

variable {κ : Type} (dos : Dos κ)

@[simp] theorem ioctlCall_past (drive : Nat) (subfunction : UInt8) (buffer : List UInt8)
    (s : Statics κ) :
    (ioctlCall dos drive subfunction buffer s).2.past =
      s.past ++ [.ioctl drive subfunction buffer (ioctlCall dos drive subfunction buffer s).1] := rfl

@[simp] theorem ioctlCall_cachedDrive (drive : Nat) (subfunction : UInt8) (buffer : List UInt8)
    (s : Statics κ) :
    (ioctlCall dos drive subfunction buffer s).2.cachedDrive = s.cachedDrive := rfl

@[simp] theorem ioctlCall_lastDosError (drive : Nat) (subfunction : UInt8) (buffer : List UInt8)
    (s : Statics κ) :
    (ioctlCall dos drive subfunction buffer s).2.lastDosError =
      (Event.ioctl drive subfunction buffer
        (ioctlCall dos drive subfunction buffer s).1).error := rfl

/-- A search adds the answers of the drives up to the first wanted one to the log. -/
theorem search_log (wanted : List UInt8 → Bool) (s : Statics κ) :
    ∃ es, (Search.firstAccepted (askDrive dos wanted) searchDrives s).2.past = s.past ++ es ∧
      Search.Searched Event.Query (Event.Answers wanted) searchDrives es
        (Search.firstAccepted (askDrive dos wanted) searchDrives s).1 := by
  refine Search.firstAccepted_searched Statics.past _ _ (fun drive s => ?_) searchDrives s
  refine ⟨_, rfl, ⟨_, rfl⟩, ?_⟩
  show ((!_ && wanted _) = true ↔ _ = false ∧ wanted _ = true)
  rw [Bool.and_eq_true, Bool.not_eq_true']

/-- A search does not touch the cache: that is what `find_drive` does with its result. -/
theorem search_cachedDrive (wanted : List UInt8 → Bool) (s : Statics κ) :
    (Search.firstAccepted (askDrive dos wanted) searchDrives s).2.cachedDrive = s.cachedDrive :=
  Search.firstAccepted_preserves (fun t : Statics κ => t.cachedDrive = s.cachedDrive)
    (fun _ _ _ hs => hs) rfl

theorem search_stateRequestBuf (wanted : List UInt8 → Bool) (s : Statics κ) :
    (Search.firstAccepted (askDrive dos wanted) searchDrives s).2.stateRequestBuf =
      s.stateRequestBuf :=
  Search.firstAccepted_preserves (fun t : Statics κ => t.stateRequestBuf = s.stateRequestBuf)
    (fun _ _ _ hs => hs) rfl

/-- What is kept by every interrupt is kept by a search. -/
theorem search_preserves (P : List Event → UInt16 → Prop)
    (hioctl : ∀ past err drive subfunction buffer reply, P past err →
      P (past ++ [.ioctl drive subfunction buffer reply])
        (Event.ioctl drive subfunction buffer reply).error)
    (wanted : List UInt8 → Bool) {s : Statics κ} (hs : P s.past s.lastDosError) :
    P (Search.firstAccepted (askDrive dos wanted) searchDrives s).2.past
      (Search.firstAccepted (askDrive dos wanted) searchDrives s).2.lastDosError :=
  Search.firstAccepted_preserves (fun t : Statics κ => P t.past t.lastDosError)
    (fun drive _ _ h => hioctl _ _ drive 0x04 queryRequest _ h) hs

/-- **`fnctl_find_drive`** asks nothing while a drive is cached. Otherwise it searches, and caches
what it finds. -/
theorem findDrive_cases (s : Statics κ) :
    (s.cachedDrive ≠ 0 ∧ findDrive dos s = (s.cachedDrive, s)) ∨
      (s.cachedDrive = 0 ∧ ∃ es found,
        Search.Searched Event.Query (Event.Answers signed) searchDrives es found ∧
        (findDrive dos s).1 = found.getD 0 ∧ (findDrive dos s).2.cachedDrive = found.getD 0 ∧
        (findDrive dos s).2.past = s.past ++ es) := by
  by_cases hcached : s.cachedDrive = 0
  · obtain ⟨es, hlog, hsearched⟩ := search_log dos signed s
    have hkept := search_cachedDrive dos signed s
    refine .inr ⟨hcached, es, _, hsearched, ?_⟩
    rw [findDrive, if_neg (not_not.mpr hcached)]
    generalize Search.firstAccepted (askDrive dos signed) searchDrives s = out at hlog hkept
    obtain ⟨found, s'⟩ := out
    cases found with
    | none => exact ⟨rfl, hkept.trans hcached, hlog⟩
    | some drive => exact ⟨rfl, rfl, hlog⟩
  · exact .inl ⟨hcached, if_pos hcached⟩

/-- What each query preserves holds after `find_drive`, whether or not it searched. -/
theorem findDrive_preserves (P : List Event → UInt16 → Prop)
    (hioctl : ∀ past err drive subfunction buffer reply, P past err →
      P (past ++ [.ioctl drive subfunction buffer reply])
        (Event.ioctl drive subfunction buffer reply).error)
    {s : Statics κ} (hs : P s.past s.lastDosError) :
    P (findDrive dos s).2.past (findDrive dos s).2.lastDosError := by
  have hsearch := search_preserves dos P hioctl signed hs
  unfold findDrive
  split
  · exact hs
  · generalize Search.firstAccepted (askDrive dos signed) searchDrives s = out at hsearch
    obtain ⟨found, s'⟩ := out
    cases found with
    | none => exact hsearch
    | some drive => exact hsearch

/-- `find_drive` does not touch the request buffer. -/
theorem findDrive_stateRequestBuf (s : Statics κ) :
    (findDrive dos s).2.stateRequestBuf = s.stateRequestBuf := by
  have hsearch := search_stateRequestBuf dos signed s
  unfold findDrive
  split
  · rfl
  · generalize Search.firstAccepted (askDrive dos signed) searchDrives s = out at hsearch
    obtain ⟨found, s'⟩ := out
    cases found with
    | none => exact hsearch
    | some drive => exact hsearch

/-! The three functions that ask the drive, with the search and the one call named. -/

/-- `fnctl_get_state` in terms of the two steps that it takes. -/
theorem getState_eq (block : List UInt8) (s : Statics κ) :
    getState dos block s =
      if (findDrive dos s).1 = 0 then ((false, block), (findDrive dos s).2)
      else
        let out := ioctlCall dos (findDrive dos s).1 0x04 stateRequest (findDrive dos s).2
        ((!out.1.carry && signed (out.1.fill stateRequest), out.1.fill stateRequest), out.2) := rfl

/-- `fnctl_get_unit_slot` in terms of the two steps that it takes. -/
theorem getUnitSlot_eq (unit : UInt8) (s : Statics κ) :
    getUnitSlot dos unit s =
      if (findDrive dos s).1 = 0 then (none, (findDrive dos s).2)
      else
        let request := unitMapRequest fnctlGetUnitMap unit 0
        let out := ioctlCall dos (findDrive dos s).1 0x04 request (findDrive dos s).2
        (if !out.1.carry && signed (out.1.fill request) then some (slotOf (out.1.fill request))
          else none, { out.2 with unitMapBuf := out.1.fill request }) := rfl

/-- `fnctl_set_unit_slot` in terms of the two steps that it takes. -/
theorem setUnitSlot_eq (unit slot : UInt8) (s : Statics κ) :
    setUnitSlot dos unit slot s =
      if (findDrive dos s).1 = 0 then (false, (findDrive dos s).2)
      else
        let request := unitMapRequest fnctlSetUnitMap unit slot
        let out := ioctlCall dos (findDrive dos s).1 0x05 request
          { (findDrive dos s).2 with unitMapBuf := request }
        (!out.1.carry, out.2) := rfl

/-- The search for the drive of a unit asks every drive again: it has no cache. -/
theorem findDriveForUnit_eq (unit : UInt8) (s : Statics κ) :
    findDriveForUnit dos unit s =
      ((Search.firstAccepted (askDrive dos (signedFor unit)) searchDrives s).1.getD 0,
        (Search.firstAccepted (askDrive dos (signedFor unit)) searchDrives s).2) := by
  unfold findDriveForUnit
  generalize Search.firstAccepted (askDrive dos (signedFor unit)) searchDrives s = out
  obtain ⟨found, s'⟩ := out
  cases found with
  | none => rfl
  | some drive => rfl

/-- The frame that `fnctl_set_state` sends is what it put at the start of its buffer. -/
theorem setState_eq (uri path : CStr) (s : Statics κ) (huri : uri.len ≤ fnctlMaxUri)
    (hpath : path.len ≤ fnctlMaxPath) :
    setState dos uri path s =
      let out := nioCall dos ⟨0x00, fnctlSetState, stateFrame uri path, 0⟩
        { s with stateRequestBuf := memcpy s.stateRequestBuf (stateFrame uri path) }
      ((match out.1 with
        | some (status, _) => status == 0
        | none => false), out.2) := by
  -- the two lengths keep the frame below 512 bytes, so that neither check of the code refuses it
  have huri' : uri.len ≤ 255 := huri
  have hpath' : path.len ≤ 127 := hpath
  have hlen : u16 (4 + uri.len + path.len) = (stateFrame uri path).length := by
    rw [u16_of_lt (by omega)]
    simp only [stateFrame, List.length_append, putU16le_length, CStr.len]
  have hfits : ¬ (stateFrame uri path).length > fnctlMaxData := by
    rw [← hlen, u16_of_lt (by omega), show fnctlMaxData = 512 from rfl]
    omega
  -- of the buffer only the frame is sent
  have hframe : (memcpy s.stateRequestBuf (stateFrame uri path)).take
      (stateFrame uri path).length = stateFrame uri path := List.take_left
  simp only [setState]
  rw [if_neg (by omega), hlen, if_neg hfits, hframe]
  generalize nioCall dos _ _ = out
  obtain ⟨answer, s'⟩ := out
  cases answer with
  | none => rfl
  | some answer => rfl

/-- **`fnctl_nio_call`** makes one raw call, or refuses the lengths and does nothing. -/
theorem nioCall_cases (r : Request) (s : Statics κ) :
    (r.frame.length ≤ fnctlMaxData ∧ r.capacity ≤ fnctlMaxData ∧ ∃ reply,
      (nioCall dos r s).2.past = s.past ++ [.raw r reply] ∧
      (nioCall dos r s).2.lastDosError = (Event.raw r reply).error ∧
      (nioCall dos r s).2.cachedDrive = s.cachedDrive ∧
      (nioCall dos r s).2.stateRequestBuf = s.stateRequestBuf ∧
      ((nioCall dos r s).1 = match reply with
        | .failed _ => none
        | .answered status payload => some (status, payload.length))) ∨
      ((r.frame.length > fnctlMaxData ∨ r.capacity > fnctlMaxData) ∧
        nioCall dos r s = (none, s)) := by
  by_cases hsize : r.frame.length > fnctlMaxData ∨ r.capacity > fnctlMaxData
  · -- a request that is too large is not made at all
    exact .inr ⟨hsize, if_pos hsize⟩
  · refine .inl ⟨by omega, by omega, (dos.rawCall r s.dos).1, ?_⟩
    rw [nioCall, if_neg hsize]
    generalize dos.rawCall r s.dos = out
    obtain ⟨reply, k⟩ := out
    cases reply with
    -- a request that was made is logged with its reply, which also sets the error
    | failed dosError => exact ⟨rfl, rfl, rfl, rfl, rfl⟩
    | answered status payload => exact ⟨rfl, rfl, rfl, rfl, rfl⟩

end Spec

end NioApps.Fnctl.Msdos
