import NioApps.Checksum.Addx
import NioApps.Checksum.Branch
import NioApps.Lib.EndAround

/-!
# Checksum — what the checksum shows

The fold is a sum of bytes with an end-around carry, so it depends on their sum alone, and shows
every change of a single byte except one zero of that arithmetic taken for the other.

* `Yields` — a routine returns a value from every call on the given bytes.
* `checksumRoutines_detect` — closed form, permutations and single changed bytes, for both routines.
-/

namespace NioApps.Checksum

open M68k Loop

/-! ## The closed form -/

def byteSum (bytes : List UInt8) : Nat := (bytes.map UInt8.toNat).sum

/-- The reference computes the residue of the sum of the bytes modulo 255, with 255 for a sum that
is a positive multiple. -/
theorem calcChecksum_eq_residue (bytes : List UInt8) :
    calcChecksum bytes = residue 256 (byteSum bytes) := by
  have hdigits : ∀ v ∈ bytes.map UInt8.toNat, v < 256 := by
    intro v hv
    obtain ⟨b, -, rfl⟩ := List.mem_map.mp hv
    exact b.toNat_lt
  have hfold : bytes.foldl foldByte 0 = (bytes.map UInt8.toNat).foldl (endAround 256) 0 := by
    rw [List.foldl_map]
    exact congrArg (fun f => bytes.foldl f 0) (funext₂ foldByte_eq)
  rw [calcChecksum, hfold, byteSum]
  simpa using foldl_endAround (by decide) hdigits 0

theorem byteSum_eq_zero {bytes : List UInt8} : byteSum bytes = 0 ↔ ∀ b ∈ bytes, b = 0 := by
  rw [byteSum, List.sum_eq_zero_iff_forall_eq_nat, List.forall_mem_map]
  refine forall₂_congr fun b _ => ?_
  exact ⟨fun h => UInt8.toNat_inj.mp h, fun h => by rw [h]; rfl⟩

theorem byteSum_perm {bytes bytes' : List UInt8} (h : bytes.Perm bytes') :
    byteSum bytes = byteSum bytes' :=
  (h.map UInt8.toNat).sum_nat

theorem byteSum_middle (pre post : List UInt8) (b : UInt8) :
    byteSum (pre ++ b :: post) = byteSum (pre ++ post) + b.toNat := by
  simp only [byteSum, List.map_append, List.map_cons, List.sum_append, List.sum_cons]
  omega

/-- One byte that is not 0 is enough for a positive sum. -/
theorem byteSum_pos {bytes : List UInt8} : 0 < byteSum bytes ↔ ∃ b ∈ bytes, b ≠ 0 := by
  rw [Nat.pos_iff_ne_zero, Ne, byteSum_eq_zero]
  push Not
  rfl

/-- What the checksum does not show of a changed byte. -/
theorem calcChecksum_changed_iff (pre post : List UInt8) {a b : UInt8} (hne : a ≠ b) :
    calcChecksum (pre ++ b :: post) = calcChecksum (pre ++ a :: post) ↔
      (a = 0 ∧ b = 0xFF ∨ a = 0xFF ∧ b = 0) ∧ ∃ c ∈ pre ++ post, c ≠ 0 := by
  have hvalues : ∀ x : UInt8, (x = 0 ↔ x.toNat = 0) ∧ (x = 0xFF ↔ x.toNat = 255) :=
    fun x => ⟨UInt8.toNat_inj.symm, UInt8.toNat_inj.symm⟩
  rw [calcChecksum_eq_residue, calcChecksum_eq_residue, byteSum_middle, byteSum_middle, eq_comm,
    residue_add_eq_iff a.toNat_lt b.toNat_lt (mt UInt8.toNat_inj.mp hne), byteSum_pos,
    (hvalues a).1, (hvalues a).2, (hvalues b).1, (hvalues b).2]

/-! ## A call on given bytes -/

/-- A call with the given bytes in its buffer, at `0x10000`. -/
def callOn (bytes : List UInt8) : State where
  d := fun _ => 0
  a := fun _ => 0
  x := false
  z := false
  c := false
  mem := storeValue (storeValue (storeBytes (fun _ => 0) 0x10000 bytes) 4 4 0x10000) 10 2
    bytes.length
  reads := []
  pc := 0

section CallOn

variable (bytes : List UInt8)

theorem dataArg_callOn : dataArg (callOn bytes) = 0x10000 := by
  have hdisj : ∀ a ∈ addrsFrom (4 : Long) 4, 2 ≤ (a - 10).toNat := by
    intro a ha
    obtain ⟨i, hi, rfl⟩ := mem_addrsFrom ha
    bv_omega
  show BitVec.ofNat 32 (valueAt (storeValue (storeValue _ 4 4 0x10000) 10 2 bytes.length) 4 4) = _
  rw [valueAt, bytesFrom_storeValue_of_ge _ hdisj, ← valueAt,
    valueAt_storeValue _ _ (by decide) (by decide)]
  rfl

variable {bytes}

/-- The length that the routine is called with, up to 65535, is that of the bytes. -/
theorem lenArg_callOn (h : bytes.length ≤ 65535) : lenArg (callOn bytes) = bytes.length :=
  valueAt_storeValue _ 10 (by decide) (by omega)

/-- The bytes that stand in the buffer are those of the call. -/
theorem buffer_callOn (h : bytes.length ≤ 65535) : buffer (callOn bytes) = bytes := by
  have hargs : ∀ a ∈ addrsFrom (0x10000 : Long) bytes.length,
      4 ≤ (a - 4).toNat ∧ 2 ≤ (a - 10).toNat := by
    intro a ha
    obtain ⟨i, hi, rfl⟩ := mem_addrsFrom ha
    have hi' : i < 65536 := by omega
    constructor
    all_goals bv_omega
  rw [buffer, dataArg_callOn, lenArg_callOn h]
  show bytesFrom (storeValue (storeValue _ 4 4 0x10000) 10 2 bytes.length) 0x10000 _ = bytes
  rw [bytesFrom_storeValue_of_ge _ fun a ha => (hargs a ha).2,
    bytesFrom_storeValue_of_ge _ fun a ha => (hargs a ha).1,
    bytesFrom_storeBytes _ _ (by omega)]

/-- The buffer of the call stands clear of the stack. -/
theorem bufferClear_callOn (h : bytes.length ≤ 65535) : BufferClear (callOn bytes) := by
  rw [BufferClear, dataArg_callOn, lenArg_callOn h]
  intro a ha
  obtain ⟨i, hi, rfl⟩ := mem_addrsFrom ha
  have hi' : i < 65536 := by omega
  show 4 ≤ (0x10000 + BitVec.ofNat 32 i - (0 - 4) : Long).toNat
  bv_omega

end CallOn

/-! ## The value of a routine -/

/-- Every call of the routine with `bytes` in its buffer returns, with `v` in the low byte of
D0. -/
def Yields (p : Program Label) (bytes : List UInt8) (v : Nat) : Prop :=
  ∀ s : State, s.pc = 0 → BufferClear s → buffer s = bytes →
    ∃ dest s', Returns (step p) s (.returned dest s') ∧ low .byte (s'.d .d0) = v

/-- A routine gives one result for each buffer. -/
theorem Yields.unique {p : Program Label} {bytes : List UInt8} {v w : Nat}
    (hlen : bytes.length ≤ 65535) (hv : Yields p bytes v) (hw : Yields p bytes w) : v = w := by
  have hclear := bufferClear_callOn hlen
  have hbuffer := buffer_callOn hlen
  obtain ⟨dest, s', hreturns, rfl⟩ := hv _ rfl hclear hbuffer
  obtain ⟨dest', s'', hreturns', rfl⟩ := hw _ rfl hclear hbuffer
  cases hreturns.unique hreturns'
  rfl

/-- What the ADDX routine gives is the checksum of the reference. -/
theorem addx_yields (bytes : List UInt8) :
    Yields fnCalcChecksumAsm bytes (calcChecksum bytes) := by
  rintro s hpc hclear rfl
  obtain ⟨s', hreturns, hchecked⟩ := addx_returns hclear hpc
  exact ⟨_, s', hreturns, hchecked.chk⟩

/-- What the branching routine gives is the checksum of the reference. -/
theorem branch_yields (bytes : List UInt8) :
    Yields fnCalcChecksumAsmBranch bytes (calcChecksum bytes) := by
  rintro s hpc - rfl
  obtain ⟨s', hreturns, hchecked⟩ := branch_returns hpc
  exact ⟨_, s', hreturns, hchecked.chk⟩

/-- What a routine shows of the bytes it is called on. -/
structure Detects (p : Program Label) : Prop where
  zeros : ∀ bytes : List UInt8, bytes.length ≤ 65535 → (∀ b ∈ bytes, b = 0) → Yields p bytes 0
  sum : ∀ bytes : List UInt8, bytes.length ≤ 65535 → (∃ b ∈ bytes, b ≠ 0) →
    Yields p bytes (1 + (byteSum bytes - 1) % 255)
  perm : ∀ (bytes bytes' : List UInt8) (v : Nat), bytes.length ≤ 65535 → bytes.Perm bytes' →
    Yields p bytes v → Yields p bytes' v
  changed : ∀ (pre post : List UInt8) (a b : UInt8) (v : Nat),
    (pre ++ a :: post).length ≤ 65535 → a ≠ b → Yields p (pre ++ a :: post) v →
    (Yields p (pre ++ b :: post) v ↔
      (a = 0 ∧ b = 0xFF ∨ a = 0xFF ∧ b = 0) ∧ ∃ c ∈ pre ++ post, c ≠ 0)

/-- A routine that returns the fold shows what the fold shows. -/
theorem detects_of_yields {p : Program Label} (h : ∀ bytes, Yields p bytes (calcChecksum bytes)) :
    Detects p where
  -- all four follow from the residue that the checksum is
  zeros bytes _ hzero := by
    have hsum : calcChecksum bytes = 0 := by
      rw [calcChecksum_eq_residue, byteSum_eq_zero.mpr hzero, residue_zero]
    rw [← hsum]
    exact h bytes
  sum bytes _ hbyte := by
    have hsum : calcChecksum bytes = 1 + (byteSum bytes - 1) % 255 := by
      rw [calcChecksum_eq_residue, residue_of_pos (byteSum_pos.mpr hbyte)]
    rw [← hsum]
    exact h bytes
  perm bytes bytes' v hlen hperm hv := by
    have hsame : calcChecksum bytes' = v := by
      rw [calcChecksum_eq_residue, ← byteSum_perm hperm, ← calcChecksum_eq_residue]
      exact (h bytes).unique hlen hv
    rw [← hsame]
    exact h bytes'
  -- one byte changed: the two results agree only where the residues do
  changed pre post a b v hlen hne hv := by
    have hlen' : (pre ++ b :: post).length ≤ 65535 := by
      rw [List.length_append, List.length_cons] at hlen ⊢
      exact hlen
    have hsame : calcChecksum (pre ++ a :: post) = v := (h _).unique hlen hv
    rw [← calcChecksum_changed_iff pre post hne, hsame]
    constructor
    · intro hv'
      exact (h _).unique hlen' hv'
    · intro heq
      rw [← heq]
      exact h _

/-- **What the checksum shows.** Both routines compute 0 for zeros and otherwise the sum of the
bytes modulo 255, with 255 for 0; they do not show the order of the bytes, nor a single byte taken
from 0 to 255 or back next to a byte that is not zero, and they show every other changed byte. -/
theorem checksumRoutines_detect : Detects fnCalcChecksumAsm ∧ Detects fnCalcChecksumAsmBranch :=
  ⟨detects_of_yields addx_yields, detects_of_yields branch_yields⟩

end NioApps.Checksum
