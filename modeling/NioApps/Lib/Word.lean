import Mathlib.Tactic.Ring

/-!
# Lib — unsigned C words and little-endian fields

Casts to `uint16_t` are spelled `u16`, so that a definition shows where the code narrows a
sum. `leBytes n v` is the `n`-byte little-endian encoding of `v`, `leValue` the number a byte
list encodes; the shift-and-or expressions C code assembles fields with are shown equal to
`leValue` once, here. `splitU16` and `splitField` take such fields off the front of a list.
-/

namespace NioApps

/-- The cast `(uint16_t) n`. -/
def u16 (n : Nat) : Nat := n % 65536

theorem u16_of_lt {n : Nat} (h : n < 65536) : u16 n = n := Nat.mod_eq_of_lt h

theorem u16_lt (n : Nat) : u16 n < 65536 := Nat.mod_lt n (by decide)

theorem u16_le (n : Nat) : u16 n ≤ n := Nat.mod_le n 65536

/-- A sum of two `uint16_t` values that does not fit loses exactly `2 ^ 16`. -/
theorem u16_wrap {n : Nat} (hlo : 65536 ≤ n) (hhi : n < 131072) : u16 n = n - 65536 := by
  unfold u16
  omega

/-! ## Little-endian byte lists -/

/-- The `n` bytes of the little-endian encoding of `v` (modulo `256 ^ n`). -/
def leBytes : Nat → Nat → List UInt8
  | 0, _ => []
  | n + 1, v => UInt8.ofNat v :: leBytes n (v / 256)

/-- The number a little-endian byte list encodes. -/
def leValue : List UInt8 → Nat
  | [] => 0
  | b :: bs => b.toNat + 256 * leValue bs

@[simp] theorem leBytes_length (n v : Nat) : (leBytes n v).length = n := by
  induction n generalizing v with
  | zero => rfl
  | succ n ih => simp [leBytes, ih]

/-- Of a number stored as `n` bytes its value modulo `256 ^ n` is read back. -/
theorem leValue_leBytes (n v : Nat) : leValue (leBytes n v) = v % 256 ^ n := by
  induction n generalizing v with
  | zero => simp [leBytes, leValue, Nat.mod_one]
  | succ n ih =>
    rw [show 256 ^ (n + 1) = 256 * 256 ^ n from Nat.pow_succ', Nat.mod_mul, leBytes, leValue,
      ih, UInt8.toNat_ofNat']

/-- The value of `n` bytes. -/
theorem leValue_lt (bs : List UInt8) : leValue bs < 256 ^ bs.length := by
  induction bs with
  | nil => simp [leValue]
  | cons b bs ih =>
    have hb : b.toNat < 256 := b.toNat_lt
    rw [leValue, List.length_cons, Nat.pow_succ']
    omega

/-- The bytes of the number that a byte list encodes are the list. -/
theorem leBytes_leValue (bs : List UInt8) : leBytes bs.length (leValue bs) = bs := by
  induction bs with
  | nil => rfl
  | cons b bs ih =>
    have hb : b.toNat < 256 := b.toNat_lt
    have hlow : UInt8.ofNat (b.toNat + 256 * leValue bs) = b := by
      rw [← UInt8.toNat_inj, UInt8.toNat_ofNat']
      omega
    have hrest : (b.toNat + 256 * leValue bs) / 256 = leValue bs := by omega
    rw [leValue, List.length_cons, leBytes, hlow, hrest, ih]

/-- The low bytes come first. -/
theorem take_leBytes {k n : Nat} (h : k ≤ n) (v : Nat) :
    (leBytes n v).take k = leBytes k v := by
  induction k generalizing n v with
  | zero => simp [leBytes]
  | succ k ih =>
    -- there is a first byte to take
    obtain ⟨n, rfl⟩ : ∃ n', n = n' + 1 := ⟨n - 1, by omega⟩
    rw [leBytes, leBytes, List.take_succ_cons, ih (by omega)]

/-- Or with a shifted number is a sum, where the low bits are free. -/
theorem or_shiftLeft_eq {lo hi k : Nat} (h : lo < 2 ^ k) :
    lo ||| (hi <<< k) = lo + 2 ^ k * hi := by
  rw [Nat.or_comm, ← Nat.shiftLeft_add_eq_or_of_lt h, Nat.shiftLeft_eq]
  ring

/-- The bytes of a 16-bit field, as the code puts them together. -/
theorem or_shift_u16 (b₀ b₁ : UInt8) :
    b₀.toNat ||| (b₁.toNat <<< 8) = leValue [b₀, b₁] := by
  have h₀ : b₀.toNat < 256 := b₀.toNat_lt
  rw [or_shiftLeft_eq (by omega)]
  simp [leValue]

/-- The bytes of a 32-bit field, as the code puts them together. -/
theorem or_shift_u32 (b₀ b₁ b₂ b₃ : UInt8) :
    b₀.toNat ||| (b₁.toNat <<< 8) ||| (b₂.toNat <<< 16) ||| (b₃.toNat <<< 24) =
      leValue [b₀, b₁, b₂, b₃] := by
  have h₀ : b₀.toNat < 256 := b₀.toNat_lt
  have h₁ : b₁.toNat < 256 := b₁.toNat_lt
  have h₂ : b₂.toNat < 256 := b₂.toNat_lt
  rw [or_shiftLeft_eq (k := 8) (by omega), or_shiftLeft_eq (k := 16) (by omega),
    or_shiftLeft_eq (k := 24) (by omega)]
  simp only [leValue]
  omega

/-! ## Taking a byte list apart -/

/-- A 16-bit field from the start of a byte list, and what follows it. -/
def splitU16 : List UInt8 → Option (Nat × List UInt8)
  | b₀ :: b₁ :: rest => some (leValue [b₀, b₁], rest)
  | _ => none

/-- A byte string under its 16-bit length, and what follows it. -/
def splitField (bs : List UInt8) : Option (List UInt8 × List UInt8) := do
  let (len, rest) ← splitU16 bs
  if len ≤ rest.length then some (rest.take len, rest.drop len) else none

/-- A number is split off again. -/
theorem splitU16_leBytes {v : Nat} (h : v < 65536) (rest : List UInt8) :
    splitU16 (leBytes 2 v ++ rest) = some (v, rest) := by
  have hvalue : leValue (leBytes 2 v) = v := by
    rw [leValue_leBytes]
    exact Nat.mod_eq_of_lt (by simpa using h)
  exact congrArg (fun n => some (n, rest)) hvalue

theorem splitField_leBytes {field : List UInt8} (h : field.length < 65536) (rest : List UInt8) :
    splitField (leBytes 2 field.length ++ (field ++ rest)) = some (field, rest) := by
  simp only [splitField, splitU16_leBytes h, Option.bind_eq_bind, Option.bind_some]
  rw [if_pos (by simp), List.take_left, List.drop_left]

end NioApps
