import NioApps.Header
import NioApps.Lib.BufProg
import NioApps.Lib.CString
import NioApps.Lib.Memory

/-!
# Fnsvc — the statics of `fnsvc.c`, the transport and the field helpers

`World` holds the static variables of `src/common/fnsvc.c`, the `last_dos_error` of the
platform's `fnctl.c`, and the requests the device has been sent so far. A `Device` is
everything on the other side of `fn_raw_call`: any function from that history and the new
request to a transport failure or an answer, as long as it does not report more bytes than
the capacity it was given.
-/

namespace NioApps.Fnsvc

structure Request where
  device : UInt8
  command : UInt8
  frame : List UInt8
  capacity : Nat
  deriving DecidableEq

/-- What comes back: a transport failure with its result code, or a status and a payload. -/
inductive Reply where
  | failed (code : UInt8)
  | answered (status : UInt8) (payload : List UInt8)
  deriving DecidableEq

/-- The other side of `fn_raw_call`. -/
structure Device where
  respond : List Request → Request → Reply
  within_capacity : ∀ past r status payload,
    respond past r = .answered status payload → payload.length ≤ r.capacity

/-- A device that answers by the number of requests it has had, cutting every payload to the
capacity it is given. -/
def Device.script (answer : Nat → Reply) : Device where
  respond past r :=
    match answer past.length with
    | .failed code => .failed code
    | .answered status payload => .answered status (payload.take r.capacity)
  within_capacity past r status payload h := by
    cases hanswer : answer past.length with
    | failed code => simp [hanswer] at h
    | answered status' payload' =>
      simp only [hanswer, Reply.answered.injEq] at h
      rw [← h.2]
      exact List.length_take_le _ _

/-- A device that is not there. -/
def deadDevice : Device := Device.script fun _ => .failed 6

/-- The static variables of `fnsvc.c` (and `last_dos_error` of `fnctl.c`), with the requests
sent so far. `reqBuf` and `respBuf` are the memory from the start of the two buffers on. -/
structure World where
  reqBuf : Nat → UInt8
  respBuf : Nat → UInt8
  lastError : FnsvcErr
  lastStatus : UInt8
  lastRawError : UInt8
  lastResponseLen : Nat
  listName : List UInt8
  diskLastError : UInt8
  lastDosError : Nat
  past : List Request

/-- The statics as the program is loaded: zero, but for the initializer of
`disk_last_error`. -/
def World.initial (diskErrNone : UInt8) : World where
  reqBuf := fun _ => 0
  respBuf := fun _ => 0
  lastError := .none
  lastStatus := 0
  lastRawError := 0
  lastResponseLen := 0
  listName := List.replicate (fnsvcListNameMax + 1) 0
  diskLastError := diskErrNone
  lastDosError := 0
  past := []

theorem length_listName_initial (diskErrNone : UInt8) :
    (World.initial diskErrNone).listName.length = fnsvcListNameMax + 1 :=
  List.length_replicate

/-- `fail`: record the error; the caller returns 0. -/
def World.fail (w : World) (error : FnsvcErr) : World := { w with lastError := error }

/-- The four assignments that open a call. -/
def World.clearLast (w : World) : World :=
  { w with lastError := .none, lastStatus := 0, lastRawError := 0, lastResponseLen := 0 }

/-- `last_status = status; last_response_len = resp_len;` -/
def World.setLast (w : World) (status : UInt8) (respLen : Nat) : World :=
  { w with lastStatus := status, lastResponseLen := respLen }

/-- `fnctl_nio_call`: on success the status and the response length, with the payload stored
at the start of `resp_buf`. -/
def fnctlNioCall (dev : Device) (r : Request) (w : World) : Option (UInt8 × Nat) × World :=
  -- refused before anything is sent; `last_dos_error` keeps its old value
  if r.frame.length > fnctlMaxData ∨ r.capacity > fnctlMaxData then (none, w)
  else
    let sent := { w with past := w.past ++ [r] }
    match dev.respond w.past r with
    | .failed code => (none, { sent with lastDosError := code.toNat })
    | .answered status payload =>
      (some (status, payload.length),
        { sent with lastDosError := 0, respBuf := overlay w.respBuf 0 payload })

def serviceCall (dev : Device) (r : Request) (w : World) : Option (UInt8 × Nat) × World :=
  match fnctlNioCall dev r w with
  | (none, w) => (none, { w with lastRawError := UInt8.ofNat w.lastDosError })
  | (some out, w) => (some out, { w with lastRawError := 0 })

/-- The world after an exchange that the transport failed. -/
def World.failedCall (w : World) (r : Request) (code : UInt8) : World :=
  { w with past := w.past ++ [r], lastDosError := code.toNat, lastRawError := code }

/-- The world after an exchange that was answered. -/
def World.answeredCall (w : World) (r : Request) (payload : List UInt8) : World :=
  { w with
    past := w.past ++ [r]
    lastDosError := 0
    lastRawError := 0
    respBuf := overlay w.respBuf 0 payload }

theorem serviceCall_failed {dev : Device} {r : Request} {w : World} {code : UInt8}
    (hlen : r.frame.length ≤ fnctlMaxData) (hcap : r.capacity ≤ fnctlMaxData)
    (h : dev.respond w.past r = .failed code) :
    serviceCall dev r w = (none, w.failedCall r code) := by
  have hsize : ¬ (r.frame.length > fnctlMaxData ∨ r.capacity > fnctlMaxData) := by omega
  simp [serviceCall, fnctlNioCall, hsize, h, World.failedCall]

theorem serviceCall_answered {dev : Device} {r : Request} {w : World} {status : UInt8}
    {payload : List UInt8} (hlen : r.frame.length ≤ fnctlMaxData)
    (hcap : r.capacity ≤ fnctlMaxData)
    (h : dev.respond w.past r = .answered status payload) :
    serviceCall dev r w = (some (status, payload.length), w.answeredCall r payload) := by
  have hsize : ¬ (r.frame.length > fnctlMaxData ∨ r.capacity > fnctlMaxData) := by omega
  simp [serviceCall, fnctlNioCall, hsize, h, World.answeredCall]

/-! ## `put_u16le`, `get_u16le`, `get_u32le` -/

def putU16le (value : Nat) : List UInt8 :=
  [UInt8.ofNat (value &&& 0xFF), UInt8.ofNat ((value >>> 8) &&& 0xFF)]

def getU16le {ε : Type} (p : Nat) : BufProg ε Nat := do
  let b₀ ← BufProg.byte p
  let b₁ ← BufProg.byte (p + 1)
  pure (b₀.toNat ||| (b₁.toNat <<< 8))

def getU32le {ε : Type} (p : Nat) : BufProg ε Nat := do
  let b₀ ← BufProg.byte p
  let b₁ ← BufProg.byte (p + 1)
  let b₂ ← BufProg.byte (p + 2)
  let b₃ ← BufProg.byte (p + 3)
  pure (b₀.toNat ||| (b₁.toNat <<< 8) ||| (b₂.toNat <<< 16) ||| (b₃.toNat <<< 24))

/-- The two bytes that the code stores are the number modulo 2^16, least significant first. -/
theorem putU16le_eq (value : Nat) : putU16le value = leBytes 2 value := by
  simp only [putU16le, leBytes, List.cons.injEq, and_true]
  -- masking with 0xFF is reducing modulo 256
  constructor
  · rw [← UInt8.toNat_inj, UInt8.toNat_ofNat', UInt8.toNat_ofNat',
      show (0xFF : Nat) = 2 ^ 8 - 1 from rfl, Nat.and_two_pow_sub_one_eq_mod]
    omega
  · rw [← UInt8.toNat_inj, UInt8.toNat_ofNat', UInt8.toNat_ofNat', Nat.shiftRight_eq_div_pow,
      show (0xFF : Nat) = 2 ^ 8 - 1 from rfl, Nat.and_two_pow_sub_one_eq_mod]
    omega

/-- The cast length never goes past the end of the string. -/
theorem take_length_u16 (s : CStr) : (s.bytes.take (u16 s.len)).length = u16 s.len := by
  have hle := u16_le s.len
  rw [List.length_take]
  exact Nat.min_eq_left hle

@[simp] theorem putU16le_length (value : Nat) : (putU16le value).length = 2 := rfl

def u16At (m : Nat → UInt8) (p : Nat) : Nat := leValue [m p, m (p + 1)]

def u32At (m : Nat → UInt8) (p : Nat) : Nat := leValue [m p, m (p + 1), m (p + 2), m (p + 3)]

@[simp] theorem exec_getU16le {ε : Type} (m : Nat → UInt8) (p : Nat) :
    BufProg.exec m (getU16le p : BufProg ε Nat) = ⟨u16At m p, [], [p, p + 1]⟩ := by
  simp [getU16le, u16At, or_shift_u16]

@[simp] theorem exec_getU32le {ε : Type} (m : Nat → UInt8) (p : Nat) :
    BufProg.exec m (getU32le p : BufProg ε Nat) =
      ⟨u32At m p, [], [p, p + 1, p + 2, p + 3]⟩ := by
  simp [getU32le, u32At, or_shift_u32]

theorem u16At_lt (m : Nat → UInt8) (p : Nat) : u16At m p < 65536 :=
  Nat.lt_of_lt_of_eq (leValue_lt [m p, m (p + 1)]) (by simp)

theorem u16At_listMem (pre post : List UInt8) {v : Nat} (h : v < 65536) :
    u16At (listMem (pre ++ (leBytes 2 v ++ post))) pre.length = v := by
  have hfield := leValue_listMem_append pre post (n := 2) (k := 2) (Nat.le_refl _) v
  rw [Nat.mod_eq_of_lt (by simpa using h)] at hfield
  exact hfield

/-- Of a number stored as eight bytes the code reads the low four. -/
theorem u32At_listMem (pre post : List UInt8) (v : Nat) :
    u32At (listMem (pre ++ (leBytes 8 v ++ post))) pre.length = v % 2 ^ 32 := by
  -- four of the eight bytes are read
  have hfield := leValue_listMem_append pre post (n := 4) (k := 8) (by omega) v
  rw [show (256 : Nat) ^ 4 = 2 ^ 32 from rfl] at hfield
  exact hfield

end NioApps.Fnsvc
