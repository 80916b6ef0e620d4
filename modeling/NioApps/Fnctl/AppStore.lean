import NioApps.Header
import NioApps.Lib.CString
import Mathlib.Logic.Function.Basic

/-!
# Fnctl — the app store

`fn_appstore_read` and `fn_appstore_write` belong to the FujiNet library and are not part of the
repository. An `AppStore` is any implementation of the two with what the backends rely on: it is
a map from a namespace and a key to bytes, a read at offset 0 returns a prefix or fails, and a
write at offset 0 either replaces the value and reports all bytes written, or fails and changes
nothing. Reads of a `ReadableStore` do not fail, nor do reads and writes of a `ReliableStore`.
The laws are asked only for lengths that fit the io buffer.

* `Contents` — what is stored; `AppStore.seen` — what a read makes of it.
* `scriptedStore`, `faultyStore` — executable stores that fail by a script.
-/

namespace NioApps.Fnctl

/-- The bytes of an ASCII literal. -/
def ascii (s : String) : List UInt8 := s.toList.map fun c => UInt8.ofNat c.toNat

structure StoreKey where
  ns : List UInt8
  key : List UInt8
  deriving DecidableEq

abbrev Contents := StoreKey → Option (List UInt8)

/-- What a read leaves: its result code, the fields of `fn_appstore_read_t`, and `appstore_buf`
as it stands afterwards. -/
structure AppstoreRead where
  result : UInt8
  flags : UInt8
  bytesRead : Nat
  buf : List UInt8

/-- What a write leaves: its result code and the field of `fn_appstore_write_t`. -/
structure AppstoreWrite where
  result : UInt8
  bytesWritten : Nat

/-- A successful read of at most `len` bytes of the value `v`: EXISTS is set exactly when there
is one, and then `appstore_buf` starts with its prefix. -/
def AppstoreRead.Reports (h : FujinetNio) (r : AppstoreRead) (len : Nat) :
    Option (List UInt8) → Prop
  | none => r.result = h.fnOk ∧ r.flags &&& h.appstoreReadExists = 0
  | some v => r.result = h.fnOk ∧ r.flags &&& h.appstoreReadExists ≠ 0 ∧
      r.bytesRead = min len v.length ∧ r.buf.take r.bytesRead = v.take len

/-- A write that succeeded: OK, and all of `data` written. -/
def AppstoreWrite.Accepted (h : FujinetNio) (r : AppstoreWrite) (data : List UInt8) : Prop :=
  r.result = h.fnOk ∧ r.bytesWritten = data.length

/-- `sizeof(appstore_buf)`. -/
def appstoreBufSize : Nat := 320

theorem AppstoreRead.Reports.result {h : FujinetNio} {r : AppstoreRead} {len : Nat}
    {v : Option (List UInt8)} (hr : r.Reports h len v) : r.result = h.fnOk := by
  cases v with
  | none => exact hr.1
  | some v => exact hr.1

/-- An app store with the states `σ`, read and written at an offset. -/
structure AppStore (h : FujinetNio) (σ : Type) where
  contents : σ → Contents
  read : StoreKey → (offset : Nat) → (len : Nat) → σ → AppstoreRead × σ
  write : StoreKey → (offset : Nat) → (data : List UInt8) → σ → AppstoreWrite × σ
  read_reports : ∀ k len s, len ≤ appstoreBufSize → (read k 0 len s).1.result = h.fnOk →
    (read k 0 len s).1.Reports h len (contents s k)
  read_contents : ∀ k len s, contents (read k 0 len s).2 = contents s
  write_stored : ∀ k data s, data.length ≤ appstoreBufSize →
    (write k 0 data s).1.Accepted h data →
    contents (write k 0 data s).2 = Function.update (contents s) k (some data)
  write_refused : ∀ k data s, data.length ≤ appstoreBufSize →
    ¬ (write k 0 data s).1.Accepted h data →
    contents (write k 0 data s).2 = contents s

/-- An app store whose reads do not fail. -/
structure ReadableStore (h : FujinetNio) (σ : Type) extends AppStore h σ where
  read_ok : ∀ k len s, len ≤ appstoreBufSize → (read k 0 len s).1.result = h.fnOk

/-- An app store whose reads and writes do not fail. -/
structure ReliableStore (h : FujinetNio) (σ : Type) extends ReadableStore h σ where
  write_accepted : ∀ k data s, data.length ≤ appstoreBufSize →
    (write k 0 data s).1.Accepted h data

/-- The value a read finds. The backends treat a failed read as one that finds nothing. -/
def AppStore.seen {h : FujinetNio} {σ : Type} (A : AppStore h σ) (k : StoreKey) (len : Nat)
    (s : σ) : Option (List UInt8) :=
  if (A.read k 0 len s).1.result = h.fnOk then A.contents s k else none

section Seen

variable {h : FujinetNio} {σ : Type}

theorem AppStore.seen_of_ok {A : AppStore h σ} {k : StoreKey} {len : Nat} {s : σ}
    (hok : (A.read k 0 len s).1.result = h.fnOk) : A.seen k len s = A.contents s k := if_pos hok

theorem AppStore.seen_of_failed {A : AppStore h σ} {k : StoreKey} {len : Nat} {s : σ}
    (hfailed : (A.read k 0 len s).1.result ≠ h.fnOk) : A.seen k len s = none := if_neg hfailed

/-- In a store whose reads succeed all that is stored is seen. -/
theorem ReadableStore.seen_eq (A : ReadableStore h σ) (k : StoreKey) {len : Nat}
    (hlen : len ≤ appstoreBufSize) (s : σ) : A.toAppStore.seen k len s = A.contents s k :=
  AppStore.seen_of_ok (A.read_ok k len s hlen)

end Seen

/-! ## Stores with scripted failures -/

structure MemStore where
  map : Contents
  writes : Nat

def MemStore.empty : MemStore := ⟨fun _ => none, 0⟩

def readValue (h : FujinetNio) (offset len : Nat) : Option (List UInt8) → AppstoreRead
  | none => ⟨h.fnOk, 0, 0, []⟩
  | some v => ⟨h.fnOk, h.appstoreReadExists, min len (v.drop offset).length,
      (v.drop offset).take len⟩

/-- The reply of a concrete store reports what is stored. -/
theorem readValue_reports {h : FujinetNio} (hexists : h.appstoreReadExists ≠ 0) (len : Nat)
    (v : Option (List UInt8)) : (readValue h 0 len v).Reports h len v := by
  cases v with
  | none => exact ⟨rfl, UInt8.zero_and⟩
  | some v =>
    refine ⟨rfl, by simpa [readValue] using hexists, by simp [readValue], ?_⟩
    exact List.take_of_length_le (by simp [readValue])

/-- The store in memory whose `n`-th write fails, with nothing written, unless the script
accepts it. -/
def scriptedStore (h : FujinetNio) (hexists : h.appstoreReadExists ≠ 0) (accept : Nat → Bool) :
    ReadableStore h MemStore where
  contents s := s.map
  read k offset len s := (readValue h offset len (s.map k), s)
  write k _ data s :=
    if accept s.writes then
      (⟨h.fnOk, data.length⟩, ⟨Function.update s.map k (some data), s.writes + 1⟩)
    else (⟨h.fnOk + 1, 0⟩, { s with writes := s.writes + 1 })
  read_reports k len s _ _ := readValue_reports hexists len (s.map k)
  read_ok k len s _ := (readValue_reports hexists len (s.map k)).result
  read_contents _ _ _ := rfl
  write_stored k data s _ haccepted := by
    by_cases hw : accept s.writes = true
    · simp [hw]
    · simp [hw, AppstoreWrite.Accepted] at haccepted
  write_refused k data s _ hrefused := by
    by_cases hw : accept s.writes = true
    · simp [hw, AppstoreWrite.Accepted] at hrefused
    · simp [hw]

def memoryStore (h : FujinetNio) (hexists : h.appstoreReadExists ≠ 0) :
    ReliableStore h MemStore where
  toReadableStore := scriptedStore h hexists fun _ => true
  write_accepted _ _ _ _ := ⟨rfl, rfl⟩

/-- A store in memory that counts the calls of either function. -/
structure CountedStore where
  map : Contents
  calls : Nat

/-- The store in memory whose `n`-th call fails, with nothing read or written, unless the script
answers it. -/
def faultyStore (h : FujinetNio) (hexists : h.appstoreReadExists ≠ 0) (answer : Nat → Bool) :
    AppStore h CountedStore where
  contents s := s.map
  read k offset len s :=
    (if answer s.calls then readValue h offset len (s.map k) else ⟨h.fnOk + 1, 0, 0, []⟩,
      { s with calls := s.calls + 1 })
  write k _ data s :=
    if answer s.calls then
      (⟨h.fnOk, data.length⟩, ⟨Function.update s.map k (some data), s.calls + 1⟩)
    else (⟨h.fnOk + 1, 0⟩, { s with calls := s.calls + 1 })
  read_reports k len s _ hok := by
    cases hanswer : answer s.calls with
    | true => exact readValue_reports hexists len (s.map k)
    | false => simp [hanswer] at hok
  read_contents _ _ _ := rfl
  write_stored k data s _ haccepted := by
    cases hanswer : answer s.calls with
    | true => rfl
    | false => simp [hanswer, AppstoreWrite.Accepted] at haccepted
  write_refused k data s _ hrefused := by
    cases hanswer : answer s.calls with
    | true => simp [hanswer, AppstoreWrite.Accepted] at hrefused
    | false => rfl

theorem sampleHeader_exists : sampleHeader.appstoreReadExists ≠ 0 := by decide

/-- A store in memory under the sample header. -/
def sampleStore : ReliableStore sampleHeader MemStore :=
  memoryStore sampleHeader sampleHeader_exists

end NioApps.Fnctl
