import NioApps.Fnctl.AppStore
import NioApps.Lib.Machine
import NioApps.Lib.Word

/-!
# Fnctl — the state block, and the app-store access every backend shares

`read_key`, `write_key` and `unit_key` are the same in all backends, and so are the ways a
state block is filled and a slot is read and written once the arguments are checked. They are
defined here once; each backend applies them under the names of its own file. Below each stands
what it does to the contents of the store, which is all that later modules use.

* `readKey`, `writeKey`, `writePair`, `fillState`, `readSlot`, `writeSlot` — the code.
* `storedText`, `storedSlot` — what a reader makes of a stored value.
* `FnctlCall`, `FnctlOut`, `Backend` — the four operations as a machine.
-/

namespace NioApps.Fnctl

structure FnctlState where
  command : UInt8
  signature : List UInt8
  unit : UInt8
  version : UInt8
  maxUnits : UInt8
  currentUriLen : Nat
  displayPathLen : Nat
  currentUri : List UInt8
  displayPath : List UInt8
  deriving DecidableEq

/-- `sizeof(state->current_uri)`. -/
def uriCap : Nat := fnctlMaxUri + 1

/-- `sizeof(state->display_path)`. -/
def pathCap : Nat := fnctlMaxPath + 1

/-- A state block of zero bytes. -/
def FnctlState.zero : FnctlState where
  command := 0
  signature := List.replicate 4 0
  unit := 0
  version := 0
  maxUnits := 0
  currentUriLen := 0
  displayPathLen := 0
  currentUri := List.replicate uriCap 0
  displayPath := List.replicate pathCap 0

/-! ## Keys -/

def fnctlAppNs : List UInt8 := ascii "nio.apps"

def fnctlStateNs : List UInt8 := ascii "fujinet-nio"

def fnctlKeyUri : StoreKey := ⟨fnctlStateNs, ascii "current-host"⟩

def fnctlKeyPath : StoreKey := ⟨fnctlStateNs, ascii "current-display-path"⟩

/-- `unit_key` in its namespace: `'u' 'n' 'i' 't' '.'` and the last digit of the unit. -/
def unitKey (unit : UInt8) : StoreKey := ⟨fnctlAppNs, ascii "unit." ++ [0x30 + unit % 10]⟩

theorem keyUri_ne_keyPath : fnctlKeyUri ≠ fnctlKeyPath := by decide

theorem unitKey_ne_keyUri (unit : UInt8) : unitKey unit ≠ fnctlKeyUri := by
  intro h
  have hns : fnctlAppNs = fnctlStateNs := congrArg StoreKey.ns h
  exact absurd hns (by decide)

theorem unitKey_ne_keyPath (unit : UInt8) : unitKey unit ≠ fnctlKeyPath := by
  intro h
  have hns : fnctlAppNs = fnctlStateNs := congrArg StoreKey.ns h
  exact absurd hns (by decide)

/-- Below `FNCTL_MAX_UNITS` the last digit tells the units apart. -/
theorem unitKey_inj {unit unit' : UInt8} (hu : unit.toNat < fnctlMaxUnits)
    (hu' : unit'.toNat < fnctlMaxUnits) (h : unitKey unit = unitKey unit') : unit = unit' := by
  have hdigit : (0x30 : UInt8) + unit % 10 = 0x30 + unit' % 10 := by
    simpa [unitKey] using h
  have hmod : unit % 10 = unit' % 10 := by simpa using hdigit
  have hnat := congrArg UInt8.toNat hmod
  rw [UInt8.toNat_mod, UInt8.toNat_mod, show (10 : UInt8).toNat = 10 from rfl] at hnat
  rw [← UInt8.toNat_inj]
  -- below 8 the remainder modulo 10 is the unit itself
  have hlt : unit.toNat < 8 := hu
  have hlt' : unit'.toNat < 8 := hu'
  omega

/-! ## Reading and writing -/

section Code

variable {h : FujinetNio} {σ : Type} (A : AppStore h σ)

/-- `read_key` into the array `dst` of `cap` bytes: whether the key is there, and `dst`. -/
def readKey (k : StoreKey) (dst : List UInt8) (cap : Nat) (s : σ) : (Bool × List UInt8) × σ :=
  if cap = 0 then ((false, dst), s)
  else
    let dst := dst.set 0 0
    let (rr, s) := A.read k 0 (u16 (cap - 1)) s
    if rr.result ≠ h.fnOk ∨ rr.flags &&& h.appstoreReadExists = 0 then ((false, dst), s)
    else
      let n := if rr.bytesRead ≥ cap then u16 (cap - 1) else rr.bytesRead
      ((true, storeStr dst (rr.buf.take n)), s)

def writeKey (k : StoreKey) (value : CStr) (s : σ) : Bool × σ :=
  let len := u16 value.len
  let (wr, s) := A.write k 0 (value.bytes.take len) s
  (decide (wr.result = h.fnOk) && decide (wr.bytesWritten = len), s)

/-- The part of a state block that every backend fills the same way, over a cleared block. -/
def fillState (cleared : FnctlState) (s : σ) : FnctlState × σ :=
  let ((_, uri), s) := readKey A fnctlKeyUri cleared.currentUri uriCap s
  let ((_, path), s) := readKey A fnctlKeyPath cleared.displayPath pathCap s
  ({ cleared with
    signature := memcpy cleared.signature fnctlSignature
    version := fnctlVersion
    maxUnits := UInt8.ofNat fnctlMaxUnits
    currentUri := uri
    displayPath := path
    currentUriLen := u16 (strlen uri)
    displayPathLen := u16 (strlen path) }, s)

/-- The arguments `fnctl_set_state` goes on with. -/
def acceptedState : Option CStr → Option CStr → Option (CStr × CStr)
  | some uri, some path =>
    if uri.len > fnctlMaxUri ∨ path.len > fnctlMaxPath then none else some (uri, path)
  | _, _ => none

/-- `write_key` of the URI and then, where it is stored, of the display path. -/
def writePair (uri path : CStr) (s : σ) : Bool × σ :=
  let (stored, s) := writeKey A fnctlKeyUri uri s
  if stored then writeKey A fnctlKeyPath path s else (false, s)

/-- The slot of a unit as it is read from the store, or `fallback`. -/
def readSlot (unit fallback : UInt8) (s : σ) : UInt8 × σ :=
  let (rr, s) := A.read (unitKey unit) 0 1 s
  if rr.result ≠ h.fnOk ∨ rr.flags &&& h.appstoreReadExists = 0 ∨ rr.bytesRead = 0 then
    (fallback, s)
  else (rr.buf.headD 0, s)

/-- The slot of a unit as it is written to the store. -/
def writeSlot (unit slot : UInt8) (s : σ) : Bool × σ :=
  let (wr, s) := A.write (unitKey unit) 0 [slot] s
  (decide (wr.result = h.fnOk) && decide (wr.bytesWritten = 1), s)

end Code

/-! ## What a reader makes of a stored value -/

/-- A string read into an array of `cap` bytes. -/
def storedText (cap : Nat) : Option (List UInt8) → List UInt8
  | none => []
  | some v => cstr (v.take (cap - 1))

def storedArray (cap : Nat) : Option (List UInt8) → List UInt8
  | none => List.replicate cap 0
  | some v => storeStr (List.replicate cap 0) (v.take (cap - 1))

def storedSlot (fallback : UInt8) : Option (List UInt8) → UInt8
  | some (slot :: _) => slot
  | _ => fallback

/-- The string in the array is the string read, terminated inside the array. -/
theorem cstr_storedArray {cap : Nat} (hcap : 0 < cap) (v : Option (List UInt8)) :
    cstr (storedArray cap v) = storedText cap v := by
  cases v with
  | none =>
    obtain ⟨n, rfl⟩ := Nat.exists_eq_succ_of_ne_zero (Nat.pos_iff_ne_zero.mp hcap)
    simp [storedArray, storedText, cstr, List.replicate_succ]
  | some v =>
    have hlt : (v.take (cap - 1)).length < (List.replicate cap (0 : UInt8)).length := by
      rw [List.length_take, List.length_replicate]
      omega
    exact cstr_storeStr hlt

/-- A stored text and its NUL fit the buffer. -/
theorem length_storedText_lt {cap : Nat} (hcap : 0 < cap) (v : Option (List UInt8)) :
    (storedText cap v).length < cap := by
  cases v with
  | none => exact hcap
  | some v =>
    have hle := cstr_length_le (v.take (cap - 1))
    rw [List.length_take] at hle
    show (cstr (v.take (cap - 1))).length < cap
    omega

theorem storedText_cstr {cap : Nat} {s : CStr} (hlen : s.len < cap) :
    storedText cap (some s.bytes) = s.bytes := by
  have hlen' : s.bytes.length < cap := hlen
  rw [storedText, List.take_of_length_le (by omega), cstr_of_nulFree s.nulFree]

/-! ## What the shared code does to the contents -/

section Spec

variable {h : FujinetNio} {σ : Type} (A : AppStore h σ)

/-- **`read_key`** leaves the string it finds in a cleared array, and makes one read. -/
theorem readKey_eq (k : StoreKey) (cap : Nat) (hcap : 0 < cap) (hmax : cap ≤ 256) (s : σ) :
    (readKey A k (List.replicate cap 0) cap s).1.2 = storedArray cap (A.seen k (cap - 1) s) ∧
      (readKey A k (List.replicate cap 0) cap s).2 = (A.read k 0 (cap - 1) s).2 := by
  have hlen : u16 (cap - 1) = cap - 1 := u16_of_lt (by omega)
  have hset : (List.replicate cap (0 : UInt8)).set 0 0 = List.replicate cap 0 := by
    obtain ⟨n, rfl⟩ := Nat.exists_eq_succ_of_ne_zero (Nat.pos_iff_ne_zero.mp hcap)
    rfl
  have hreports := A.read_reports k (cap - 1) s (by unfold appstoreBufSize; omega)
  unfold readKey AppStore.seen
  rw [if_neg (by omega), hlen, hset]
  generalize A.read k 0 (cap - 1) s = out at hreports
  obtain ⟨rr, s'⟩ := out
  dsimp only at hreports ⊢
  rcases eq_or_ne rr.result h.fnOk with hok | hfailed
  · specialize hreports hok
    rw [if_pos hok]
    cases hv : A.contents s k with
    | none =>
      rw [hv] at hreports
      rw [if_pos (.inr hreports.2)]
      exact ⟨rfl, rfl⟩
    | some v =>
      rw [hv] at hreports
      obtain ⟨-, hexists, hbytes, hbuf⟩ := hreports
      -- at most `cap - 1` bytes were asked for, so nothing is cut off afterwards
      have hfits : ¬ rr.bytesRead ≥ cap := by omega
      rw [if_neg (by simp [hok, hexists]), if_neg hfits, hbuf]
      exact ⟨rfl, rfl⟩
  · rw [if_neg hfailed, if_pos (.inl hfailed)]
    exact ⟨rfl, rfl⟩

/-- A value short enough for `write_key` is written whole. -/
theorem writeKey_write (k : StoreKey) {value : CStr} (hlen : value.len ≤ fnctlMaxUri) (s : σ) :
    writeKey A k value s =
      (decide ((A.write k 0 value.bytes s).1.result = h.fnOk) &&
        decide ((A.write k 0 value.bytes s).1.bytesWritten = value.bytes.length),
        (A.write k 0 value.bytes s).2) := by
  have hlen' : value.bytes.length ≤ 255 := hlen
  have hu : u16 value.len = value.bytes.length :=
    u16_of_lt (show value.bytes.length < 65536 by omega)
  simp only [writeKey, hu, List.take_length]

/-- **`write_key`** either replaces the value and returns 1, or returns 0 and changes
nothing. -/
theorem writeKey_eq (k : StoreKey) {value : CStr} (hlen : value.len ≤ fnctlMaxUri) (s : σ) :
    A.contents (writeKey A k value s).2 =
      if (writeKey A k value s).1 then Function.update (A.contents s) k (some value.bytes)
      else A.contents s := by
  have hmax : value.bytes.length ≤ appstoreBufSize := Nat.le_trans hlen (by decide)
  have hstored := A.write_stored k value.bytes s hmax
  have hrefused := A.write_refused k value.bytes s hmax
  rw [writeKey_write A k hlen]
  generalize A.write k 0 value.bytes s = out at hstored hrefused
  -- the two laws of the store cover both outcomes
  by_cases hacc : out.1.Accepted h value.bytes
  · rw [hstored hacc]
    simp [hacc.1, hacc.2]
  · rw [hrefused hacc, if_neg]
    simpa [AppstoreWrite.Accepted] using hacc

/-- A write returns true where the store reports the whole value written. -/
theorem writeKey_ret_iff (k : StoreKey) {value : CStr} (hlen : value.len ≤ fnctlMaxUri) (s : σ) :
    (writeKey A k value s).1 = true ↔ (A.write k 0 value.bytes s).1.Accepted h value.bytes := by
  rw [writeKey_write A k hlen]
  simp [AppstoreWrite.Accepted]

theorem writeKey_reliable (A : ReliableStore h σ) (k : StoreKey) {value : CStr}
    (hlen : value.len ≤ fnctlMaxUri) (s : σ) : (writeKey A.toAppStore k value s).1 = true := by
  have hmax : value.bytes.length ≤ appstoreBufSize := Nat.le_trans hlen (by decide)
  exact (writeKey_ret_iff A.toAppStore k hlen s).mpr (A.write_accepted k value.bytes s hmax)

/-- The state block filled over cleared arrays from what is stored. -/
def filledState (cleared : FnctlState) (c : Contents) : FnctlState :=
  { cleared with
    signature := memcpy cleared.signature fnctlSignature
    version := fnctlVersion
    maxUnits := UInt8.ofNat fnctlMaxUnits
    currentUri := storedArray uriCap (c fnctlKeyUri)
    displayPath := storedArray pathCap (c fnctlKeyPath)
    currentUriLen := (storedText uriCap (c fnctlKeyUri)).length
    displayPathLen := (storedText pathCap (c fnctlKeyPath)).length }

/-- The contents as the two reads of `fillState` find them. -/
def AppStore.loaded (s : σ) : Contents :=
  Function.update (Function.update (A.contents s) fnctlKeyUri (A.seen fnctlKeyUri fnctlMaxUri s))
    fnctlKeyPath (A.seen fnctlKeyPath fnctlMaxPath (A.read fnctlKeyUri 0 fnctlMaxUri s).2)

theorem AppStore.loaded_keyUri (s : σ) :
    A.loaded s fnctlKeyUri = A.seen fnctlKeyUri fnctlMaxUri s := by
  rw [AppStore.loaded, Function.update_of_ne keyUri_ne_keyPath, Function.update_self]

/-- The path is read after the URI, from the store as that read left it. -/
theorem AppStore.loaded_keyPath (s : σ) :
    A.loaded s fnctlKeyPath =
      A.seen fnctlKeyPath fnctlMaxPath (A.read fnctlKeyUri 0 fnctlMaxUri s).2 := by
  rw [AppStore.loaded, Function.update_self]

/-- Reads that do not fail find what is stored. -/
theorem ReadableStore.loaded_eq (A : ReadableStore h σ) (s : σ) :
    A.toAppStore.loaded s = A.contents s := by
  rw [AppStore.loaded, A.seen_eq _ (by decide), A.seen_eq _ (by decide),
    A.read_contents, Function.update_eq_self, Function.update_eq_self]

/-- A state block is filled with the two strings its reads find, and the store is left as it
was. -/
theorem fillState_eq (cleared : FnctlState)
    (huri : cleared.currentUri = List.replicate uriCap 0)
    (hpath : cleared.displayPath = List.replicate pathCap 0) (s : σ) :
    (fillState A cleared s).1 = filledState cleared (A.loaded s) ∧
      A.contents (fillState A cleared s).2 = A.contents s := by
  -- the URI is read first, into a cleared array
  have hu := readKey_eq A fnctlKeyUri uriCap (by decide) (by decide) s
  rw [show uriCap - 1 = fnctlMaxUri from rfl, ← A.loaded_keyUri] at hu
  unfold fillState
  rw [huri, hpath]
  generalize readKey A fnctlKeyUri (List.replicate uriCap 0) uriCap s = out at hu
  obtain ⟨⟨foundUri, uri⟩, s₁⟩ := out
  obtain ⟨rfl, rfl⟩ := hu
  dsimp only
  -- then the path, from the store as the first read left it
  have hp := readKey_eq A fnctlKeyPath pathCap (by decide) (by decide)
    (A.read fnctlKeyUri 0 fnctlMaxUri s).2
  rw [show pathCap - 1 = fnctlMaxPath from rfl, ← A.loaded_keyPath] at hp
  generalize readKey A fnctlKeyPath (List.replicate pathCap 0) pathCap
    (A.read fnctlKeyUri 0 fnctlMaxUri s).2 = out at hp
  obtain ⟨⟨foundPath, path⟩, s₂⟩ := out
  obtain ⟨rfl, rfl⟩ := hp
  refine ⟨?_, (A.read_contents _ _ _).trans (A.read_contents _ _ _)⟩
  -- both texts end with a NUL inside their arrays, so that `strlen` stops there
  have huriLen := length_storedText_lt (show 0 < uriCap by decide) (A.loaded s fnctlKeyUri)
  have hpathLen := length_storedText_lt (show 0 < pathCap by decide) (A.loaded s fnctlKeyPath)
  have huriMax : uriCap < 65536 := by decide
  have hpathMax : pathCap < 65536 := by decide
  simp only [filledState, strlen]
  rw [cstr_storedArray (by decide), cstr_storedArray (by decide), u16_of_lt (by omega),
    u16_of_lt (by omega)]

/-- A slot is read as it is found, and the store is left as it was. -/
theorem readSlot_eq (unit fallback : UInt8) (s : σ) :
    (readSlot A unit fallback s).1 = storedSlot fallback (A.seen (unitKey unit) 1 s) ∧
      A.contents (readSlot A unit fallback s).2 = A.contents s := by
  have hreports := A.read_reports (unitKey unit) 1 s (by decide)
  have hcontents := A.read_contents (unitKey unit) 1 s
  unfold readSlot AppStore.seen
  generalize A.read (unitKey unit) 0 1 s = out at hreports hcontents
  obtain ⟨rr, s'⟩ := out
  dsimp only at hreports hcontents ⊢
  rcases eq_or_ne rr.result h.fnOk with hok | hfailed
  · specialize hreports hok
    rw [if_pos hok]
    -- no value, an empty one, or one whose first byte is the slot
    match hv : A.contents s (unitKey unit) with
    | none =>
      rw [hv] at hreports
      rw [if_pos (.inr (.inl hreports.2))]
      exact ⟨rfl, hcontents⟩
    | some [] =>
      rw [hv] at hreports
      have hbytes : rr.bytesRead = 0 := by simpa using hreports.2.2.1
      rw [if_pos (.inr (.inr hbytes))]
      exact ⟨rfl, hcontents⟩
    | some (slot :: rest) =>
      rw [hv] at hreports
      obtain ⟨-, hexists, hbytes, hbuf⟩ := hreports
      have hone : rr.bytesRead = 1 := by
        rw [hbytes, List.length_cons]
        omega
      rw [hone] at hbuf
      rw [if_neg (by simp [hok, hexists, hone])]
      cases hb : rr.buf with
      | nil => simp [hb] at hbuf
      | cons b bs =>
        rw [hb] at hbuf
        have hslot : b = slot := by simpa using hbuf
        exact ⟨hslot, hcontents⟩
  · rw [if_neg hfailed, if_pos (.inl hfailed)]
    exact ⟨rfl, hcontents⟩

/-- A slot is stored exactly where its write returned true. -/
theorem writeSlot_eq (unit slot : UInt8) (s : σ) :
    A.contents (writeSlot A unit slot s).2 =
      if (writeSlot A unit slot s).1 then
        Function.update (A.contents s) (unitKey unit) (some [slot])
      else A.contents s := by
  have hstored := A.write_stored (unitKey unit) [slot] s (show 1 ≤ 320 by decide)
  have hrefused := A.write_refused (unitKey unit) [slot] s (show 1 ≤ 320 by decide)
  unfold writeSlot
  generalize A.write (unitKey unit) 0 [slot] s = out at hstored hrefused
  by_cases hacc : out.1.Accepted h [slot]
  · rw [hstored hacc]
    simp [hacc.1, show out.1.bytesWritten = 1 from hacc.2]
  · rw [hrefused hacc, if_neg]
    simpa [AppstoreWrite.Accepted] using hacc

theorem writeSlot_reliable (A : ReliableStore h σ) (unit slot : UInt8) (s : σ) :
    (writeSlot A.toAppStore unit slot s).1 = true := by
  obtain ⟨hok, hbytes⟩ := A.write_accepted (unitKey unit) [slot] s (show 1 ≤ 320 by decide)
  simp [writeSlot, hok, hbytes]

end Spec

/-- What is accepted fits the two buffers. -/
theorem acceptedState_eq_some {uri path : Option CStr} {u p : CStr}
    (h : acceptedState uri path = some (u, p)) :
    uri = some u ∧ path = some p ∧ u.len ≤ fnctlMaxUri ∧ p.len ≤ fnctlMaxPath := by
  unfold acceptedState at h
  split at h
  next uri path =>
    split at h
    · cases h
    next hlen =>
      obtain ⟨rfl, rfl⟩ := Prod.mk.inj (Option.some.inj h)
      exact ⟨rfl, rfl, by omega, by omega⟩
  · cases h

/-! ## The four operations as a machine -/

theorem unit_lt_of_getArgs {unit : UInt8} {slot : Bool}
    (hargs : ¬ (slot = false ∨ unit.toNat ≥ fnctlMaxUnits)) : unit.toNat < fnctlMaxUnits := by
  omega

theorem unit_lt_of_setArgs {unit slot : UInt8}
    (hargs : ¬ (unit.toNat ≥ fnctlMaxUnits ∨ slot.toNat ≥ fnctlMaxUnits)) :
    unit.toNat < fnctlMaxUnits := by
  omega

/-- A call of one of the four operations; `none` and `false` are null pointers. -/
inductive FnctlCall where
  | getState (state : Bool)
  | setState (uri path : Option CStr)
  | getUnitSlot (unit : UInt8) (slot : Bool)
  | setUnitSlot (unit slot : UInt8)

/-- What a call gives its caller. A state block or a slot is there exactly when the call
returned 1. -/
inductive FnctlOut where
  | state (out : Option FnctlState)
  | slot (out : Option UInt8)
  | done (ret : Bool)
  deriving DecidableEq

def FnctlOut.ret : FnctlOut → Bool
  | .state out => out.isSome
  | .slot out => out.isSome
  | .done ret => ret

/-- The four operations of a backend over its states. -/
structure Backend (σ : Type) where
  getState : Bool → σ → Option FnctlState × σ
  setState : Option CStr → Option CStr → σ → Bool × σ
  getUnitSlot : UInt8 → Bool → σ → Option UInt8 × σ
  setUnitSlot : UInt8 → UInt8 → σ → Bool × σ

def Backend.step {σ : Type} (b : Backend σ) : FnctlCall → σ → FnctlOut × σ
  | .getState state, s => ((b.getState state s).map .state id)
  | .setState uri path, s => ((b.setState uri path s).map .done id)
  | .getUnitSlot unit slot, s => ((b.getUnitSlot unit slot s).map .slot id)
  | .setUnitSlot unit slot, s => ((b.setUnitSlot unit slot s).map .done id)

end NioApps.Fnctl
