import NioApps.Fnctl.AppStore
import NioApps.Lib.Search

/-!
# Astest — the smoke test of the app store

`astest.c` deletes two keys, writes them, reads them back, lists them and deletes one of them again.
Every function of the test asks the library once and judges the answer; `&&` ends a group of them at
the first that does not hold.

* `Entry.verdict` — what the functions make of an answer; `groups`, `astest` — the code.
* `Entry.Right` — what an answer has to be.
* `astest_passes_iff` — which runs pass, over any library.
-/

namespace NioApps.Astest

open Fnctl (ascii StoreKey)

/-! ## The library -/

/-- `fn_appstore_write_t`, with the result. -/
structure WriteAnswer where
  result : UInt8
  offset : UInt32
  bytesWritten : UInt16

/-- `fn_appstore_stat_t`, with the result. -/
structure StatAnswer where
  result : UInt8
  exist : UInt8
  sizeBytes : UInt32

/-- `ASTEST_READ_MAX`. -/
def readMax : Nat := 96

/-- `fn_appstore_read_t`, with the result and the bytes put into `read_buf`. -/
structure ReadAnswer where
  result : UInt8
  flags : UInt8
  bytesRead : UInt16
  data : List UInt8
  fits : data.length ≤ readMax

/-- `fn_appstore_list_t`, with the result and `key_data`. -/
structure ListAnswer where
  result : UInt8
  keyCount : UInt16
  keyDataLen : UInt16
  keyData : List UInt8

/-- `fn_appstore_delete_t`, with the result. -/
structure DeleteAnswer where
  result : UInt8
  deleted : UInt8

/-- What `fn_appstore_list_next_key` leaves: its result, the offset, and what is in `key_name`. -/
structure NextKey where
  result : UInt8
  off : UInt16
  name : List UInt8

/-- The functions of the library, on its states. -/
structure Library (σ : Type) where
  init : UInt8
  ready : Bool
  write : StoreKey → UInt32 → List UInt8 → σ → WriteAnswer × σ
  stat : StoreKey → σ → StatAnswer × σ
  read : StoreKey → σ → ReadAnswer × σ
  list : List UInt8 → σ → ListAnswer × σ
  nextKey : List UInt8 → UInt16 → UInt16 → NextKey
  delete : StoreKey → σ → DeleteAnswer × σ

/-! ## The functions of the test -/

/-- A line that reports a failure: `fail_code` or `fail_msg`. -/
inductive Failure where
  | code (name : String) (result : UInt8)
  | msg (name msg : String)
  deriving DecidableEq

/-- What a function of the test returns: 1, 0, or 0 after it has reported a failure. -/
inductive Verdict where
  | holds
  | refuses
  | fails (line : Failure)
  deriving DecidableEq

/-- `ASTEST_NS`. -/
def testNs : List UInt8 := ascii "nio.astest"

def storeKey (key : List UInt8) : StoreKey := ⟨testNs, key⟩

/-- A call of a function of the test, with its arguments; `lacks` is `!list_has_key(key)`. -/
inductive Check where
  | writes (key : List UInt8) (offset : UInt32) (value : List UInt8)
  | stats (key : List UInt8) (exist : Bool) (size : UInt32)
  | reads (key expected : List UInt8)
  | lists (wanted : List UInt8)
  | lacks (wanted : List UInt8)
  | deletes (key : List UInt8) (expectDeleted : Bool)
  deriving DecidableEq

/-- A call, with what the library answered. -/
inductive Entry where
  | writes (key : List UInt8) (offset : UInt32) (value : List UInt8) (wr : WriteAnswer)
  | stats (key : List UInt8) (exist : Bool) (size : UInt32) (st : StatAnswer)
  | reads (key expected : List UInt8) (rr : ReadAnswer)
  | lists (wanted : List UInt8) (lr : ListAnswer)
  | lacks (wanted : List UInt8) (lr : ListAnswer)
  | deletes (key : List UInt8) (expectDeleted : Bool) (dr : DeleteAnswer)

def Entry.check : Entry → Check
  | .writes key offset value _ => .writes key offset value
  | .stats key exist size _ => .stats key exist size
  | .reads key expected _ => .reads key expected
  | .lists wanted _ => .lists wanted
  | .lacks wanted _ => .lacks wanted
  | .deletes key expectDeleted _ => .deletes key expectDeleted

section Functions

variable (h : FujinetNio)

def writeValue (offset : UInt32) (value : List UInt8) (wr : WriteAnswer) : Verdict :=
  if wr.result ≠ h.fnOk then .fails (.code "write" wr.result)
  else if wr.offset ≠ offset ∨ wr.bytesWritten ≠ UInt16.ofNat value.length then
    .fails (.msg "write" "unexpected count")
  else .holds

def expectStat (exist : Bool) (size : UInt32) (st : StatAnswer) : Verdict :=
  if st.result ≠ h.fnOk then .fails (.code "stat" st.result)
  else if decide (st.exist ≠ 0) ≠ exist then
    .fails (.msg "stat" (if exist then "missing" else "unexpected"))
  else if exist ∧ st.sizeBytes ≠ size then .fails (.msg "stat" "wrong size")
  else .holds

/-- `read_buf` before a read, with the bytes of a read in it, and a terminator after them. -/
def readBuf (rr : ReadAnswer) : List UInt8 :=
  (memcpy (List.replicate (readMax + 1) 0) rr.data).set rr.bytesRead.toNat 0

def expectRead (expected : List UInt8) (rr : ReadAnswer) : Verdict :=
  if rr.result ≠ h.fnOk then .fails (.code "read" rr.result)
  else if rr.flags &&& h.appstoreReadExists = 0 then .fails (.msg "read" "missing")
  else if rr.bytesRead ≠ UInt16.ofNat expected.length then .fails (.msg "read" "wrong length")
  else if cstr (readBuf rr) ≠ expected then .fails (.msg "read" "wrong value")
  else .holds

/-- The loop of `list_has_key` over the keys that are left, from an offset on. -/
def scanKeys (nextKey : UInt16 → NextKey) (wanted : List UInt8) : Nat → UInt16 → Verdict
  | 0, _ => .refuses
  | n + 1, off =>
    if (nextKey off).result ≠ h.fnOk then .fails (.code "list decode" (nextKey off).result)
    else if (nextKey off).name = wanted then .holds
    else scanKeys nextKey wanted n (nextKey off).off

def listHasKey (nextKey : List UInt8 → UInt16 → UInt16 → NextKey) (wanted : List UInt8)
    (lr : ListAnswer) : Verdict :=
  if lr.result ≠ h.fnOk then .fails (.code "list" lr.result)
  else scanKeys h (nextKey lr.keyData lr.keyDataLen) wanted lr.keyCount.toNat 0

def deleteKey (expectDeleted : Bool) (dr : DeleteAnswer) : Verdict :=
  if dr.result ≠ h.fnOk then .fails (.code "delete" dr.result)
  else if decide (dr.deleted ≠ 0) ≠ expectDeleted then
    .fails (.msg "delete" "unexpected flag")
  else .holds

/-- `!`, except of the 0 that is returned after a failure was reported: see `Entry.stops`. -/
def Verdict.negate : Verdict → Verdict
  | .holds => .refuses
  | .refuses => .holds
  | .fails line => .fails line

/-- A call under a `!`. -/
def Check.isLacks : Check → Bool
  | .lacks _ => true
  | _ => false

/-- What is made of an answer. -/
def Entry.verdict {σ : Type} (L : Library σ) : Entry → Verdict
  | .writes _ offset value wr => writeValue h offset value wr
  | .stats _ exist size st => expectStat h exist size st
  | .reads _ expected rr => expectRead h expected rr
  | .lists wanted lr => listHasKey h L.nextKey wanted lr
  | .lacks wanted lr => (listHasKey h L.nextKey wanted lr).negate
  | .deletes _ expectDeleted dr => deleteKey h expectDeleted dr

/-- Whether the `&&` stops at the call. The `!` of `lacks` makes a 1 of the 0 after a failure too. -/
def Entry.stops {σ : Type} (L : Library σ) (e : Entry) : Bool :=
  match e.verdict h L with
  | .holds => false
  | .refuses => true
  | .fails _ => !e.check.isLacks

end Functions

/-- The call of the library that a function of the test makes. -/
def Check.ask {σ : Type} (L : Library σ) : Check → σ → Entry × σ
  | .writes key offset value, s =>
    let (wr, s') := L.write (storeKey key) offset value s
    (.writes key offset value wr, s')
  | .stats key exist size, s =>
    let (st, s') := L.stat (storeKey key) s
    (.stats key exist size st, s')
  | .reads key expected, s =>
    let (rr, s') := L.read (storeKey key) s
    (.reads key expected rr, s')
  | .lists wanted, s =>
    let (lr, s') := L.list testNs s
    (.lists wanted lr, s')
  | .lacks wanted, s =>
    let (lr, s') := L.list testNs s
    (.lacks wanted lr, s')
  | .deletes key expectDeleted, s =>
    let (dr, s') := L.delete (storeKey key) s
    (.deletes key expectDeleted dr, s')

/-! ## The program -/

/-- A line of the output. -/
inductive Line where
  | pass (name : String)
  | fail (line : Failure)
  deriving DecidableEq

/-- The library, `failures`, what was printed, and the calls so far with their answers. -/
structure TestState (σ : Type) where
  store : σ
  failures : Nat
  printed : List Line
  log : List Entry

/-- A group of calls joined by `&&`, with the name it passes under, and what is reported where it
does not hold. -/
structure Group where
  checks : List Check
  passes : Option String
  otherwise : Option Failure

def keyA : List UInt8 := ascii "alpha"

def keyB : List UInt8 := ascii "beta"

def valueA : List UInt8 := ascii "alpha value from astest"

def valueB1 : List UInt8 := ascii "beta:"

def valueB2 : List UInt8 := ascii "chunk-two"

/-- The deletion of what an earlier run may have left. -/
def clearGroup (key : List UInt8) : Group := ⟨[.deletes key false], none, none⟩

def alphaGroup : Group where
  checks := [.writes keyA 0 valueA, .stats keyA true (UInt32.ofNat valueA.length),
    .reads keyA valueA]
  passes := some "alpha"
  otherwise := none

def betaGroup : Group where
  checks := [.writes keyB 0 valueB1, .writes keyB (UInt32.ofNat valueB1.length) valueB2,
    .stats keyB true (UInt32.ofNat (valueB1.length + valueB2.length)),
    .reads keyB (valueB1 ++ valueB2)]
  passes := some "beta"
  otherwise := none

def listGroup : Group where
  checks := [.lists keyA, .lists keyB]
  passes := some "list"
  otherwise := some (.msg "list" "missing key")

def deleteGroup : Group where
  checks := [.deletes keyB true, .stats keyB false 0, .lacks keyB]
  passes := some "delete"
  otherwise := none

/-- The groups of `main` in their order. -/
def groups : List Group :=
  [clearGroup keyA, clearGroup keyB, alphaGroup, betaGroup, listGroup, deleteGroup]

section Program

variable (h : FujinetNio) {σ : Type} (L : Library σ)

def TestState.report (s : TestState σ) (line : Failure) : TestState σ :=
  { s with failures := s.failures + 1, printed := s.printed ++ [.fail line] }

/-- One function of the test: whether it ends its group, and the state. -/
def step (c : Check) (s : TestState σ) : Bool × TestState σ :=
  let (entry, store) := c.ask L s.store
  let asked : TestState σ := { s with store, log := s.log ++ [entry] }
  match entry.verdict h L with
  | .fails line => (entry.stops h L, asked.report line)
  | _ => (entry.stops h L, asked)

def runGroup (s : TestState σ) (g : Group) : TestState σ :=
  let (ended, s') := Search.firstAccepted (step h L) g.checks s
  match ended with
  | none => { s' with printed := s'.printed ++ (g.passes.map Line.pass).toList }
  | some _ =>
    match g.otherwise with
    | none => s'
    | some line => s'.report line

/-- The exit code, and the state at the end. -/
structure TestRun (σ : Type) where
  exit : Nat
  final : TestState σ

def astest (store : σ) : TestRun σ :=
  let start : TestState σ := ⟨store, 0, [], []⟩
  if L.init ≠ h.fnOk then ⟨2, start.report (.code "init" L.init)⟩
  else if L.ready = false then ⟨2, start.report (.msg "ready" "not ready")⟩
  else
    let s := groups.foldl (runGroup h L) start
    ⟨if s.failures ≠ 0 then 1 else 0, s⟩

end Program

/-! ## What is asked of an answer -/

/-- The offset of the `k`-th key of a page. -/
def offsetOf (nextKey : UInt16 → NextKey) : Nat → UInt16
  | 0 => 0
  | k + 1 => (nextKey (offsetOf nextKey k)).off

section Right

variable (h : FujinetNio) {σ : Type} (L : Library σ)

/-- The `k`-th key of a page. -/
def ListAnswer.key (lr : ListAnswer) (k : Nat) : NextKey :=
  L.nextKey lr.keyData lr.keyDataLen (offsetOf (L.nextKey lr.keyData lr.keyDataLen) k)

/-- A page has a key, and those before it are readable. -/
def ListAnswer.Shows (lr : ListAnswer) (wanted : List UInt8) : Prop :=
  lr.result = h.fnOk ∧ ∃ k < lr.keyCount.toNat, (lr.key L k).name = wanted ∧
    ∀ j ≤ k, (lr.key L j).result = h.fnOk

/-- A page is readable and does not have a key. -/
def ListAnswer.Hides (lr : ListAnswer) (wanted : List UInt8) : Prop :=
  lr.result = h.fnOk ∧ ∀ k < lr.keyCount.toNat,
    (lr.key L k).result = h.fnOk ∧ (lr.key L k).name ≠ wanted

/-- The answer that a call asks for. -/
def Entry.Right : Entry → Prop
  | .writes _ offset value wr =>
    wr.result = h.fnOk ∧ wr.offset = offset ∧ wr.bytesWritten = UInt16.ofNat value.length
  | .stats _ exist size st =>
    st.result = h.fnOk ∧ (st.exist ≠ 0 ↔ exist = true) ∧ (exist = true → st.sizeBytes = size)
  | .reads _ expected rr =>
    rr.result = h.fnOk ∧ rr.flags &&& h.appstoreReadExists ≠ 0 ∧
      rr.bytesRead = UInt16.ofNat expected.length ∧ rr.data.take expected.length = expected
  | .lists wanted lr => lr.Shows h L wanted
  | .lacks wanted lr => lr.Hides h L wanted
  | .deletes _ expectDeleted dr =>
    dr.result = h.fnOk ∧ (dr.deleted ≠ 0 ↔ expectDeleted = true)

end Right

/-- Values that fit `read_buf`. -/
def Check.Small : Check → Prop
  | .reads _ expected => 0 ∉ expected ∧ expected.length ≤ readMax
  | _ => True

instance : DecidablePred Check.Small
  | .reads _ expected => inferInstanceAs (Decidable (0 ∉ expected ∧ expected.length ≤ readMax))
  | .writes _ _ _ => isTrue trivial
  | .stats _ _ _ => isTrue trivial
  | .lists _ => isTrue trivial
  | .lacks _ => isTrue trivial
  | .deletes _ _ => isTrue trivial

def Check.isLists : Check → Bool
  | .lists _ => true
  | _ => false

section Verdicts

variable {h : FujinetNio} {σ : Type} {L : Library σ}

theorem eq_of_cstr_eq {s t : List UInt8} (h : cstr s = t) (hlen : s.length = t.length) : s = t := by
  have hstart : cstr s <+: s := List.takeWhile_prefix _
  rw [h] at hstart
  exact (hstart.eq_of_length hlen.symm).symm

/-- A string in `read_buf`. -/
theorem cstr_readBuf_iff {expected : List UInt8} {rr : ReadAnswer} (hnul : 0 ∉ expected)
    (hlen : expected.length ≤ readMax) (hread : rr.bytesRead = UInt16.ofNat expected.length) :
    cstr (readBuf rr) = expected ↔ rr.data.take expected.length = expected := by
  have hmax : expected.length ≤ 96 := hlen
  have hfits : rr.data.length ≤ 96 := rr.fits
  have hcount : rr.bytesRead.toNat = expected.length := by
    rw [hread, UInt16.toNat_ofNat_of_lt' (show expected.length < 65536 by omega)]
  -- what is read goes to the front of a buffer of zeros
  have hmem : memcpy (List.replicate (readMax + 1) 0) rr.data =
      rr.data ++ List.replicate (97 - rr.data.length) 0 := by
    rw [memcpy, List.drop_replicate]
    rfl
  -- the NUL that the code stores ends the string after the count
  have hbuf : cstr (readBuf rr) =
      cstr ((rr.data ++ List.replicate (97 - rr.data.length) 0).take expected.length) := by
    rw [readBuf, hmem, hcount, List.set_eq_take_append_cons_drop, if_pos (by
      rw [List.length_append, List.length_replicate]; omega), cstr_append_nul]
  have htake : ((rr.data ++ List.replicate (97 - rr.data.length) 0).take expected.length).length =
      expected.length := by
    rw [List.length_take, List.length_append, List.length_replicate]
    omega
  rw [hbuf]
  refine ⟨fun h => ?_, fun h => ?_⟩
  · have hwhole := eq_of_cstr_eq h htake
    rcases Nat.lt_or_ge rr.data.length expected.length with hshort | hlong
    · -- the zeros of `memset` would be in the string
      have hzero : (0 : UInt8) ∈ expected := by
        rw [← hwhole, List.take_append, List.take_replicate]
        exact List.mem_append_right _ (List.mem_replicate.mpr ⟨by omega, rfl⟩)
      exact absurd hzero hnul
    · rwa [List.take_append_of_le_length hlong] at hwhole
  · -- read to the count the data are the expected string, which has no NUL in it
    have hlong : expected.length ≤ rr.data.length := by
      have hlength := congrArg List.length h
      rw [List.length_take] at hlength
      omega
    rw [List.take_append_of_le_length hlong, h, cstr_of_nulFree hnul]

/-- What the loop of `list_has_key` finds from the `i`-th key on. -/
theorem scanKeys_from (nextKey : UInt16 → NextKey) (wanted : List UInt8) (n i : Nat) :
    (scanKeys h nextKey wanted n (offsetOf nextKey i) = .holds ↔
      ∃ k < n, (nextKey (offsetOf nextKey (i + k))).name = wanted ∧
        ∀ j ≤ k, (nextKey (offsetOf nextKey (i + j))).result = h.fnOk) ∧
    (scanKeys h nextKey wanted n (offsetOf nextKey i) = .refuses ↔
      ∀ k < n, (nextKey (offsetOf nextKey (i + k))).result = h.fnOk ∧
        (nextKey (offsetOf nextKey (i + k))).name ≠ wanted) := by
  induction n generalizing i with
  | zero =>
    rw [scanKeys]
    simp
  | succ n ih =>
    rw [scanKeys, Nat.exists_lt_succ_left, Nat.forall_lt_succ_left]
    split
    next hfailed =>
      refine ⟨⟨nofun, ?_⟩, ⟨nofun, fun hall => absurd hall.1.1 hfailed⟩⟩
      -- the first call failed, so that no later one is made
      rintro (⟨-, hread⟩ | ⟨k, -, -, hread⟩)
      · exact absurd (hread 0 (Nat.le_refl 0)) hfailed
      · exact absurd (hread 0 (Nat.zero_le _)) hfailed
    next hread =>
      have hok : (nextKey (offsetOf nextKey i)).result = h.fnOk := Decidable.not_not.mp hread
      split
      next hname =>
        -- the first key is the one looked for
        refine ⟨⟨fun _ => .inl ⟨hname, fun j hj => ?_⟩, fun _ => rfl⟩,
          ⟨nofun, fun hall => absurd hname hall.1.2⟩⟩
        rw [Nat.le_zero.mp hj]
        exact hok
      next hname =>
        have hshift : ∀ k, i + 1 + k = i + (k + 1) := fun k => by omega
        -- another key: the rest of the listing starts at the next offset
        have hnext := ih (i + 1)
        simp only [hshift] at hnext
        refine ⟨hnext.1.trans ⟨?_, ?_⟩, hnext.2.trans ⟨fun hall => ⟨⟨hok, hname⟩, hall⟩, And.right⟩⟩
        · rintro ⟨k, hk, hwanted, hbefore⟩
          refine .inr ⟨k, hk, hwanted, fun j hj => ?_⟩
          cases j with
          | zero => exact hok
          | succ j => exact hbefore j (Nat.le_of_succ_le_succ hj)
        · rintro (⟨hwanted, -⟩ | ⟨k, hk, hwanted, hbefore⟩)
          · exact absurd hwanted hname
          · exact ⟨k, hk, hwanted, fun j hj => hbefore (j + 1) (Nat.succ_le_succ hj)⟩

/-- **`list_has_key`.** It holds of the pages that show the key, and refuses those without it. -/
theorem listHasKey_iff (wanted : List UInt8) (lr : ListAnswer) :
    (listHasKey h L.nextKey wanted lr = .holds ↔ lr.Shows h L wanted) ∧
    (listHasKey h L.nextKey wanted lr = .refuses ↔ lr.Hides h L wanted) := by
  have hscan := scanKeys_from (h := h) (L.nextKey lr.keyData lr.keyDataLen) wanted
    lr.keyCount.toNat 0
  simp only [Nat.zero_add] at hscan
  rw [listHasKey]
  split
  next hfailed => exact ⟨⟨nofun, fun hshows => absurd hshows.1 hfailed⟩,
    ⟨nofun, fun hhides => absurd hhides.1 hfailed⟩⟩
  next hread =>
    have hok : lr.result = h.fnOk := Decidable.not_not.mp hread
    exact ⟨hscan.1.trans ⟨fun hkey => ⟨hok, hkey⟩, And.right⟩,
      hscan.2.trans ⟨fun hkeys => ⟨hok, hkeys⟩, And.right⟩⟩

/-- What is negated holds where it was refused, and not where the call failed. -/
theorem negate_eq_holds_iff {v : Verdict} : v.negate = .holds ↔ v = .refuses := by
  cases v with
  | holds => exact ⟨nofun, nofun⟩
  | refuses => exact ⟨fun _ => rfl, fun _ => rfl⟩
  | fails line => exact ⟨nofun, nofun⟩

/-- What is negated is refused where it held. -/
theorem negate_eq_refuses_iff {v : Verdict} : v.negate = .refuses ↔ v = .holds := by
  cases v with
  | holds => exact ⟨fun _ => rfl, fun _ => rfl⟩
  | refuses => exact ⟨nofun, nofun⟩
  | fails line => exact ⟨nofun, nofun⟩

theorem decide_eq_iff_iff {p : Prop} [Decidable p] {b : Bool} :
    decide p = b ↔ (p ↔ b = true) := by
  cases b with
  | false => simp
  | true => simp

/-- **The functions of the test.** They hold of the answers that are right. -/
theorem verdict_eq_holds_iff {e : Entry} (hsmall : e.check.Small) :
    e.verdict h L = .holds ↔ e.Right h L := by
  cases e with
  | writes key offset value wr =>
    rw [Entry.verdict, writeValue, Entry.Right]
    split
    next hfailed => exact ⟨nofun, fun hright => absurd hright.1 hfailed⟩
    next hok =>
      split
      -- fewer bytes than the value has
      next hcount => exact ⟨nofun, fun hright => by simp [hright.2] at hcount⟩
      next hcount =>
        rw [not_or, not_not, not_not] at hcount
        exact ⟨fun _ => ⟨Decidable.not_not.mp hok, hcount⟩, fun _ => rfl⟩
  | stats key exist size st =>
    rw [Entry.verdict, expectStat, Entry.Right]
    split
    next hfailed => exact ⟨nofun, fun hright => absurd hright.1 hfailed⟩
    next hok =>
      split
      next hflag =>
        exact ⟨nofun, fun hright => absurd (decide_eq_iff_iff.mpr hright.2.1) hflag⟩
      next hflag =>
        -- the flag is any nonzero byte
        have hexist : st.exist ≠ 0 ↔ exist = true :=
          decide_eq_iff_iff.mp (Decidable.not_not.mp hflag)
        split
        next hsize => exact ⟨nofun, fun hright => absurd (hright.2.2 hsize.1) hsize.2⟩
        next hsize =>
          exact ⟨fun _ => ⟨Decidable.not_not.mp hok, hexist,
            fun h => Decidable.not_not.mp fun hne => hsize ⟨h, hne⟩⟩, fun _ => rfl⟩
  | reads key expected rr =>
    rw [Entry.verdict, expectRead, Entry.Right]
    split
    next hfailed => exact ⟨nofun, fun hright => absurd hright.1 hfailed⟩
    next hok =>
      split
      next hmissing => exact ⟨nofun, fun hright => absurd hmissing hright.2.1⟩
      next hthere =>
        split
        next hlength => exact ⟨nofun, fun hright => absurd hright.2.2.1 hlength⟩
        next hlength =>
          have hread : rr.bytesRead = UInt16.ofNat expected.length := Decidable.not_not.mp hlength
          -- what the buffer holds up to its NUL is compared
          have hvalue := cstr_readBuf_iff hsmall.1 hsmall.2 hread
          split
          next hwrong => exact ⟨nofun, fun hright => absurd (hvalue.mpr hright.2.2.2) hwrong⟩
          next hsame =>
            exact ⟨fun _ => ⟨Decidable.not_not.mp hok, hthere, hread,
              hvalue.mp (Decidable.not_not.mp hsame)⟩, fun _ => rfl⟩
  | lists wanted lr => exact (listHasKey_iff wanted lr).1
  | lacks wanted lr => exact negate_eq_holds_iff.trans (listHasKey_iff wanted lr).2
  | deletes key expectDeleted dr =>
    rw [Entry.verdict, deleteKey, Entry.Right]
    split
    next hfailed => exact ⟨nofun, fun hright => absurd hright.1 hfailed⟩
    next hok =>
      split
      next hflag => exact ⟨nofun, fun hright => absurd (decide_eq_iff_iff.mpr hright.2) hflag⟩
      next hflag =>
        have hdeleted : dr.deleted ≠ 0 ↔ expectDeleted = true :=
          decide_eq_iff_iff.mp (Decidable.not_not.mp hflag)
        exact ⟨fun _ => ⟨Decidable.not_not.mp hok, hdeleted⟩, fun _ => rfl⟩

theorem not_stops_of_holds {e : Entry} (hholds : e.verdict h L = .holds) :
    ¬ e.stops h L = true := by
  rw [Entry.stops, hholds]
  exact Bool.false_ne_true

theorem stops_of_refuses {e : Entry} (hrefuses : e.verdict h L = .refuses) :
    e.stops h L = true := by
  rw [Entry.stops, hrefuses]

/-- Without a `!`, a call that does not hold stops its group. -/
theorem stops_of_not_holds {e : Entry} (hplain : e.check.isLacks = false)
    (hnot : e.verdict h L ≠ .holds) : e.stops h L = true := by
  rw [Entry.stops, hplain]
  split
  next hholds => exact absurd hholds hnot
  next => rfl
  next => rfl

/-- Only a listing refuses without reporting a failure. -/
theorem verdict_eq_refuses {e : Entry} (hrefuses : e.verdict h L = .refuses) :
    (∃ wanted lr, e = .lists wanted lr) ∨
      ∃ wanted lr, e = .lacks wanted lr ∧ lr.Shows h L wanted := by
  cases e with
  | lists wanted lr => exact .inl ⟨wanted, lr, rfl⟩
  | lacks wanted lr =>
    have hholds : listHasKey h L.nextKey wanted lr = .holds := negate_eq_refuses_iff.mp hrefuses
    exact .inr ⟨wanted, lr, rfl, (listHasKey_iff wanted lr).1.mp hholds⟩
  -- a failed call reports its failure, and is never a refusal
  | writes key offset value wr =>
    rw [Entry.verdict, writeValue] at hrefuses
    split_ifs at hrefuses
  | stats key exist size st =>
    rw [Entry.verdict, expectStat] at hrefuses
    split_ifs at hrefuses
  | reads key expected rr =>
    rw [Entry.verdict, expectRead] at hrefuses
    split_ifs at hrefuses
  | deletes key expectDeleted dr =>
    rw [Entry.verdict, deleteKey] at hrefuses
    split_ifs at hrefuses

end Verdicts

/-! ## A group -/

/-- A report of a failure. -/
def Verdict.isFailure : Verdict → Bool
  | .fails _ => true
  | _ => false

section Groups

variable {h : FujinetNio} {σ : Type} {L : Library σ}

/-- The calls that report a failure. -/
def failed (h : FujinetNio) (L : Library σ) (log : List Entry) : Nat :=
  log.countP fun e => (e.verdict h L).isFailure

/-- The entry in the log is that of the check that was made. -/
theorem check_ask (c : Check) (store : σ) : (c.ask L store).1.check = c := by
  cases c with
  | _ => rfl

/-- **One call.** It adds its answer to the log, counts a failure where it reports one, and ends the
group where the `&&` stops. -/
theorem step_spec (c : Check) (s : TestState σ) :
    (step h L c s).2.log = s.log ++ [(c.ask L s.store).1] ∧
      (step h L c s).2.store = (c.ask L s.store).2 ∧
      (step h L c s).1 = (c.ask L s.store).1.stops h L ∧
      (step h L c s).2.failures = s.failures + failed h L [(c.ask L s.store).1] := by
  rw [step]
  generalize c.ask L s.store = asked
  obtain ⟨e, store⟩ := asked
  dsimp only
  cases hverdict : e.verdict h L with
  | holds => exact ⟨rfl, rfl, rfl, by simp [failed, hverdict, Verdict.isFailure]⟩
  | refuses => exact ⟨rfl, rfl, rfl, by simp [failed, hverdict, Verdict.isFailure]⟩
  | fails line =>
    exact ⟨rfl, rfl, rfl, by simp [failed, hverdict, Verdict.isFailure, TestState.report]⟩

theorem failed_append (log es : List Entry) :
    failed h L (log ++ es) = failed h L log + failed h L es := List.countP_append

/-- What a group does after its calls: it counts a failure where one did not hold and it reports
that. -/
theorem runGroup_eq (g : Group) (s : TestState σ) :
    (runGroup h L s g).log = (Search.firstAccepted (step h L) g.checks s).2.log ∧
    (runGroup h L s g).failures = (Search.firstAccepted (step h L) g.checks s).2.failures +
      if (Search.firstAccepted (step h L) g.checks s).1.isSome ∧ g.otherwise.isSome then 1
      else 0 := by
  rw [runGroup]
  obtain ⟨out, s'⟩ := Search.firstAccepted (step h L) g.checks s
  cases out with
  | none => exact ⟨rfl, by simp⟩
  | some c =>
    cases g.otherwise with
    | none => exact ⟨rfl, by simp⟩
    | some line => exact ⟨rfl, by simp [TestState.report]⟩

/-- **A group.** The calls made are the first ones, up to one at which the `&&` stops, and all of
them where there is none. -/
theorem runGroup_spec (g : Group) (s : TestState σ) :
    ∃ es out, (runGroup h L s g).log = s.log ++ es ∧
      Search.Searched (fun c e => Entry.check e = c) (fun e => e.stops h L = true)
        g.checks es out ∧
      (runGroup h L s g).failures = s.failures + failed h L es +
        if out.isSome ∧ g.otherwise.isSome then 1 else 0 := by
  have hstep : ∀ c (s : TestState σ), ∃ e : Entry, (step h L c s).2.log = s.log ++ [e] ∧
      e.check = c ∧ ((step h L c s).1 = true ↔ e.stops h L = true) := by
    intro c s
    obtain ⟨hlog, -, hended, -⟩ := step_spec (h := h) (L := L) c s
    exact ⟨_, hlog, check_ask c s.store, by rw [hended]⟩
  obtain ⟨es, hlog, hsearched⟩ := Search.firstAccepted_searched TestState.log
    (fun c e => Entry.check e = c) (fun e => e.stops h L = true) hstep g.checks s
  -- every call adds as much to the failures as to the failed calls of the log
  have hfailures : (Search.firstAccepted (step h L) g.checks s).2.failures + failed h L s.log =
      s.failures + failed h L (Search.firstAccepted (step h L) g.checks s).2.log := by
    refine Search.firstAccepted_preserves (fun s' : TestState σ =>
      s'.failures + failed h L s.log = s.failures + failed h L s'.log) ?_ rfl
    intro c _ s' hs'
    obtain ⟨hlog, -, -, hcount⟩ := step_spec (h := h) (L := L) c s'
    rw [hlog, hcount, failed_append]
    omega
  rw [hlog, failed_append] at hfailures
  obtain ⟨hlog', hcount⟩ := runGroup_eq (h := h) (L := L) g s
  refine ⟨es, (Search.firstAccepted (step h L) g.checks s).1, hlog'.trans hlog, hsearched, ?_⟩
  rw [hcount]
  omega

/-- Groups in which a listing that refuses either ends in a report, or is the last call and asks for
a key not to be there. -/
def Group.WellFormed (g : Group) : Prop :=
  (∀ c ∈ g.checks, c.Small) ∧
  (g.otherwise = none → ∀ c ∈ g.checks, c.isLists = false) ∧
  (∀ c ∈ g.checks.dropLast, c.isLacks = false) ∧
  (g.otherwise ≠ none → ∀ c ∈ g.checks, c.isLacks = false)

/-- An answer that is right, or a last listing that still shows the key. -/
def Entry.Tolerated (h : FujinetNio) (L : Library σ) (e : Entry) : Prop :=
  e.Right h L ∨ ∃ wanted lr, e = .lacks wanted lr ∧ lr.Shows h L wanted

/-- A log without failures has no entry that fails. -/
theorem notFailed_of_failed_eq_zero {es : List Entry} (hes : failed h L es = 0) {e : Entry}
    (he : e ∈ es) (line : Failure) : e.verdict h L ≠ .fails line := by
  intro hfails
  have hnot := List.countP_eq_zero.mp hes e he
  rw [hfails] at hnot
  exact hnot rfl

/-- **A group that reports nothing.** All its calls were made, and the answers are right, except
that a last listing may still show its key. -/
theorem runGroup_quiet {g : Group} (hg : g.WellFormed) {s : TestState σ}
    (hquiet : (runGroup h L s g).failures = s.failures) :
    ∃ es, (runGroup h L s g).log = s.log ++ es ∧ es.map Entry.check = g.checks ∧
      ∀ e ∈ es, e.Tolerated h L := by
  obtain ⟨hsmall, hlists, hlacks, -⟩ := hg
  obtain ⟨es, out, hlog, hsearched, hfailures⟩ := runGroup_spec (h := h) (L := L) g s
  obtain ⟨rest, hchecks, hout⟩ := hsearched.answers
  have hnone : failed h L es = 0 := by omega
  -- a call that did not hold reported nothing: it is a listing that may refuse
  have hverdict : ∀ e ∈ es, e.verdict h L = .holds ∨
      ∃ wanted lr, e = .lacks wanted lr ∧ lr.Shows h L wanted := by
    intro e he
    cases hverdict : e.verdict h L with
    | holds => exact .inl rfl
    | fails line => exact absurd hverdict (notFailed_of_failed_eq_zero hnone he line)
    | refuses =>
      rcases verdict_eq_refuses hverdict with ⟨wanted, lr, rfl⟩ | hlacks
      · have hquietly : g.otherwise = none := by
          rcases hout with ⟨-, -, hall⟩ | ⟨c, init, last, hsome, -, -, -⟩
          · exact absurd (stops_of_refuses hverdict) (hall _ he)
          · rcases Option.eq_none_or_eq_some g.otherwise with hother | ⟨line, hother⟩
            · exact hother
            · rw [hsome, hother] at hfailures
              simp only [Option.isSome_some, and_self, if_true] at hfailures
              omega
        cases hlists hquietly _ (hsearched.key_mem he)
      · exact .inr hlacks
  refine ⟨es, hlog, ?_, fun e he => ?_⟩
  · rcases hout with ⟨-, hrest, -⟩ | ⟨c, init, last, -, hes, hlast, -⟩
    · rw [hchecks, hrest, List.append_nil]
    · have hmem : last ∈ es := by
        rw [hes]
        exact List.mem_append_right _ (List.mem_singleton_self last)
      rcases hverdict last hmem with hholds | ⟨wanted, lr, rfl, -⟩
      · exact absurd hlast (not_stops_of_holds hholds)
      · -- such a listing is the last call of its group
        by_contra hne
        have hrest : rest ≠ [] := fun hrest => hne (by rw [hchecks, hrest, List.append_nil])
        have hcheck : Check.lacks wanted ∈ g.checks.dropLast := by
          rw [hchecks, List.dropLast_append_of_ne_nil hrest]
          exact List.mem_append_left _ (List.mem_map_of_mem hmem)
        cases hlacks _ hcheck
  · rcases hverdict e he with hholds | hshows
    · exact .inl ((verdict_eq_holds_iff (hsmall _ (hsearched.key_mem he))).mp hholds)
    · exact .inr hshows

/-- A group whose answers are right reports nothing. -/
theorem runGroup_right {g : Group} (hg : g.WellFormed) {s : TestState σ}
    (hright : ∀ e ∈ (runGroup h L s g).log, e.Tolerated h L) :
    (runGroup h L s g).failures = s.failures := by
  obtain ⟨hsmall, -, -, hother⟩ := hg
  obtain ⟨es, out, hlog, hsearched, hfailures⟩ := runGroup_spec (h := h) (L := L) g s
  obtain ⟨rest, hchecks, hout⟩ := hsearched.answers
  -- every check holds, or is a listing that lacks the key and finds it
  have hverdict : ∀ e ∈ es, e.verdict h L = .holds ∨
      (e.verdict h L = .refuses ∧ ∃ wanted, e.check = .lacks wanted) := by
    intro e he
    have hsmall := hsmall _ (hsearched.key_mem he)
    rcases hright e (hlog ▸ List.mem_append_right _ he) with hright | ⟨wanted, lr, rfl, hshows⟩
    · exact .inl ((verdict_eq_holds_iff hsmall).mpr hright)
    · exact .inr ⟨negate_eq_refuses_iff.mpr ((listHasKey_iff wanted lr).1.mpr hshows), wanted, rfl⟩
  have hnone : failed h L es = 0 := by
    refine List.countP_eq_zero.mpr fun e he => ?_
    rcases hverdict e he with hholds | ⟨hrefuses, -⟩
    · rw [hholds]
      exact Bool.false_ne_true
    · rw [hrefuses]
      exact Bool.false_ne_true
  -- only a check that does not hold stops the group, and none of the checks after which something
  -- else is tried is a listing of that kind
  have hcount : ¬ (out.isSome ∧ g.otherwise.isSome) := by
    rintro ⟨hsome, hreports⟩
    rcases hout with ⟨hout, -, -⟩ | ⟨c, init, last, -, hes, hlast, -⟩
    · rw [hout] at hsome
      cases hsome
    · have hmem : last ∈ es := by
        rw [hes]
        exact List.mem_append_right _ (List.mem_singleton_self last)
      rcases hverdict last hmem with hholds | ⟨-, wanted, hcheck⟩
      · exact not_stops_of_holds hholds hlast
      · have hlacks := hother (Option.ne_none_iff_isSome.mpr hreports) _ (hsearched.key_mem hmem)
        rw [hcheck] at hlacks
        cases hlacks
  rw [hfailures, hnone, if_neg hcount, Nat.add_zero]

/-! ## The run -/

theorem failures_le_runGroup (g : Group) (s : TestState σ) :
    s.failures ≤ (runGroup h L s g).failures := by
  obtain ⟨es, out, -, -, hfailures⟩ := runGroup_spec (h := h) (L := L) g s
  omega

theorem failures_le_foldl (gs : List Group) (s : TestState σ) :
    s.failures ≤ (gs.foldl (runGroup h L) s).failures := by
  induction gs generalizing s with
  | nil => exact Nat.le_refl _
  | cons g gs ih => exact Nat.le_trans (failures_le_runGroup g s) (ih _)

/-- The groups only append to the log. -/
theorem log_prefix_foldl (gs : List Group) (s : TestState σ) :
    s.log <+: (gs.foldl (runGroup h L) s).log := by
  induction gs generalizing s with
  | nil => exact List.prefix_refl _
  | cons g gs ih =>
    obtain ⟨es, out, hlog, -, -⟩ := runGroup_spec (h := h) (L := L) g s
    exact (hlog ▸ List.prefix_append s.log es).trans (ih _)

/-- A run that reports nothing makes all the calls. -/
theorem foldl_quiet {gs : List Group} (hgs : ∀ g ∈ gs, g.WellFormed) {s : TestState σ}
    (hquiet : (gs.foldl (runGroup h L) s).failures = s.failures) :
    ∃ es, (gs.foldl (runGroup h L) s).log = s.log ++ es ∧
      es.map Entry.check = gs.flatMap Group.checks ∧ ∀ e ∈ es, e.Tolerated h L := by
  induction gs generalizing s with
  | nil => exact ⟨[], (List.append_nil _).symm, rfl, fun e he => absurd he List.not_mem_nil⟩
  | cons g gs ih =>
    -- no group takes a failure back, so that the first cannot have counted one
    have hfirst : (runGroup h L s g).failures = s.failures := by
      have hle := failures_le_runGroup (h := h) (L := L) g s
      have hle' := failures_le_foldl (h := h) (L := L) gs (runGroup h L s g)
      rw [List.foldl_cons] at hquiet
      omega
    obtain ⟨es, hlog, hchecks, hright⟩ := runGroup_quiet (hgs g List.mem_cons_self) hfirst
    obtain ⟨es', hlog', hchecks', hright'⟩ :=
      ih (fun g' hg' => hgs g' (List.mem_cons_of_mem g hg')) (hquiet.trans hfirst.symm)
    refine ⟨es ++ es', ?_, ?_, ?_⟩
    · rw [List.foldl_cons, hlog', hlog, List.append_assoc]
    · rw [List.map_append, List.flatMap_cons, hchecks, hchecks']
    · intro e he
      rcases List.mem_append.mp he with he | he
      · exact hright e he
      · exact hright' e he

/-- Groups all of whose entries are tolerated count no failure. -/
theorem foldl_right {gs : List Group} (hgs : ∀ g ∈ gs, g.WellFormed) {s : TestState σ}
    (hright : ∀ e ∈ (gs.foldl (runGroup h L) s).log, e.Tolerated h L) :
    (gs.foldl (runGroup h L) s).failures = s.failures := by
  induction gs generalizing s with
  | nil => rfl
  | cons g gs ih =>
    have hfirst : (runGroup h L s g).failures = s.failures :=
      runGroup_right (hgs g List.mem_cons_self) fun e he =>
        hright e ((log_prefix_foldl gs (runGroup h L s g)).subset he)
    exact (ih (fun g' hg' => hgs g' (List.mem_cons_of_mem g hg')) hright).trans hfirst

/-- The groups of the program have the form that the results above ask for. -/
theorem wellFormed_groups : ∀ g ∈ groups, g.WellFormed := by
  unfold Group.WellFormed
  decide

end Groups

/-- **Which runs pass.** Over any library, the test returns 0 exactly when the library starts and is
ready, all fourteen calls are made in their order and the answers are right; except that the key
deleted at the end may still be listed. -/
theorem astest_passes_iff (h : FujinetNio) {σ : Type} (L : Library σ) (store : σ) :
    (astest h L store).exit = 0 ↔ L.init = h.fnOk ∧ L.ready = true ∧
      (astest h L store).final.log.map Entry.check = groups.flatMap Group.checks ∧
      ∀ e ∈ (astest h L store).final.log, e.Tolerated h L := by
  unfold astest
  split
  next hinit => exact ⟨nofun, fun hright => absurd hright.1 hinit⟩
  next hinit =>
    split
    next hready =>
      refine ⟨nofun, fun hright => absurd (hready.symm.trans hright.2.1) Bool.false_ne_true⟩
    next hready =>
      dsimp only
      -- the exit code is 0 exactly where nothing was counted
      have hexit : ∀ n : Nat, (if n ≠ 0 then 1 else 0) = 0 ↔ n = 0 := by
        intro n
        split
        next hne => exact ⟨nofun, fun heq => absurd heq hne⟩
        next heq => exact ⟨fun _ => Decidable.not_not.mp heq, fun _ => rfl⟩
      rw [hexit]
      refine ⟨fun hquiet => ?_, fun hright => foldl_right wellFormed_groups hright.2.2.2⟩
      obtain ⟨es, hlog, hchecks, hright⟩ := foldl_quiet wellFormed_groups hquiet
      rw [List.nil_append] at hlog
      rw [hlog]
      exact ⟨Decidable.not_not.mp hinit, eq_true_of_ne_false hready, hchecks, hright⟩

end NioApps.Astest
