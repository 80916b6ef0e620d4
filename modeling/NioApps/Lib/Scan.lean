import NioApps.Lib.Format

/-!
# Lib — formatted text, read back

The other way round: a text is read along the conversions it was written with. Numbers are read as
far as their digits go, so what follows one must not start with a digit.

* `scan` — the numbers in a text; `scan_text`, `scan_unsigned`, `scan_hex`, `scan_line` — one
  conversion each.
* `scan_pieces` — a whole text.
-/

namespace NioApps.Scan

open Format Text

/-- Text between conversions, a decimal number, a hexadecimal number of so many digits, and
anything up to the end of the line. -/
inductive Conv where
  | text (s : List UInt8)
  | unsigned
  | hex (digits : Nat)
  | line

def isDigit (c : UInt8) : Bool := 0x30 ≤ c && c ≤ 0x39

/-- The number that decimal digits stand for. -/
def number (digits : List UInt8) : Nat :=
  digits.foldl (fun v c => 10 * v + (c.toNat - 0x30)) 0

def scan : List Conv → List UInt8 → Option (List Nat)
  | [], input => if input = [] then some [] else none
  | .text s :: convs, input =>
    if s.isPrefixOf input then scan convs (input.drop s.length) else none
  | .unsigned :: convs, input =>
    if input.takeWhile isDigit = [] then none
    else (scan convs (input.dropWhile isDigit)).map (number (input.takeWhile isDigit) :: ·)
  | .hex digits :: convs, input =>
    (value (input.take digits)).bind fun v => (scan convs (input.drop digits)).map (v :: ·)
  | .line :: convs, input => scan convs (input.dropWhile (· ≠ 0x0A))

/-! ## Numbers -/

/-- The text does not go on with a digit. -/
def NoDigit (rest : List UInt8) : Prop := ∀ c ∈ rest.head?, isDigit c = false

theorem isDigit_digit {d : Nat} (hd : d < 10) : isDigit (digit d) = true := by
  have hvalue := toNat_digit (show d < 16 by omega)
  rw [if_pos hd] at hvalue
  rw [isDigit, Bool.and_eq_true, decide_eq_true_iff, decide_eq_true_iff, UInt8.le_iff_toNat_le,
    UInt8.le_iff_toNat_le, hvalue]
  show 0x30 ≤ 0x30 + d ∧ 0x30 + d ≤ 0x39
  omega

/-- A decimal number is made of digits. -/
theorem isDigit_of_mem_decimal {v : Nat} {c : UInt8} (hc : c ∈ decimal v) :
    isDigit c = true := by
  unfold decimal at hc
  split at hc
  next => rw [List.mem_singleton.mp hc]; rfl
  next =>
    obtain ⟨d, hd, rfl⟩ := List.mem_map.mp hc
    exact isDigit_digit (Nat.digits_lt_base (by decide) (List.mem_reverse.mp hd))

/-- A number has at least one digit. -/
theorem decimal_ne_nil (v : Nat) : decimal v ≠ [] := by
  unfold decimal
  split
  next => exact List.cons_ne_nil _ _
  next hv =>
    intro hnil
    exact Nat.digits_ne_nil_iff_ne_zero.mpr hv
      (List.reverse_eq_nil_iff.mp (List.map_eq_nil_iff.mp hnil))

theorem number_concat (digits : List UInt8) (c : UInt8) :
    number (digits ++ [c]) = 10 * number digits + (c.toNat - 0x30) := by
  rw [number, List.foldl_concat]
  rfl

/-- The number that the digits are read as. -/
theorem number_of_digits {ds : List Nat} (hds : ∀ d ∈ ds, d < 10) :
    number (ds.reverse.map digit) = Nat.ofDigits 10 ds := by
  induction ds with
  | nil => rfl
  | cons d ds ih =>
    obtain ⟨hd, hds⟩ := List.forall_mem_cons.mp hds
    have hvalue := toNat_digit (show d < 16 by omega)
    rw [if_pos hd] at hvalue
    rw [List.reverse_cons, List.map_append, List.map_singleton, number_concat, ih hds, hvalue,
      Nat.ofDigits_cons, Nat.add_sub_cancel_left]
    exact Nat.add_comm _ _

/-- **Round trip.** The decimal text of a number stands for it. -/
theorem number_decimal (v : Nat) : number (decimal v) = v := by
  unfold decimal
  split
  next hzero => rw [hzero]; rfl
  next =>
    rw [number_of_digits fun d hd => Nat.digits_lt_base (by decide) hd]
    exact Nat.ofDigits_digits 10 v

/-! ## One conversion -/

variable {convs : List Conv} {rest : List UInt8}

theorem scan_text (s : List UInt8) : scan (.text s :: convs) (s ++ rest) = scan convs rest := by
  rw [scan, if_pos (List.isPrefixOf_iff_prefix.mpr (List.prefix_append s rest)), List.drop_left]

/-- A decimal number is read back, if no digit follows it. -/
theorem scan_unsigned (v : Nat) (hrest : NoDigit rest) :
    scan (.unsigned :: convs) (decimal v ++ rest) = (scan convs rest).map (v :: ·) := by
  have hdigits : ∀ c ∈ decimal v, isDigit c = true := fun c hc => isDigit_of_mem_decimal hc
  have hstop : rest.takeWhile isDigit = [] ∧ rest.dropWhile isDigit = rest := by
    cases rest with
    | nil => exact ⟨rfl, rfl⟩
    | cons c rest =>
      have hc : isDigit c = false := hrest c rfl
      simp [hc]
  rw [scan, List.takeWhile_append_of_pos hdigits, List.dropWhile_append_of_pos hdigits, hstop.1,
    hstop.2, List.append_nil, if_neg (decimal_ne_nil v), number_decimal]

theorem scan_hex {digits v : Nat} (hv : v < 16 ^ digits) :
    scan (.hex digits :: convs) (padded digits v ++ rest) = (scan convs rest).map (v :: ·) := by
  rw [scan, List.take_left' (length_padded digits v), List.drop_left' (length_padded digits v),
    value_padded hv, Option.bind_some]

/-- The rest of a line is skipped. -/
theorem scan_line {s : List UInt8} (hs : 0x0A ∉ s) :
    scan (.line :: convs) (s ++ 0x0A :: rest) = scan convs (0x0A :: rest) := by
  have hall : ∀ c ∈ s, decide (c ≠ 0x0A) = true := fun c hc =>
    decide_eq_true fun heq => hs (heq ▸ hc)
  rw [scan, List.dropWhile_append_of_pos hall]
  rfl

/-! ## A whole text -/

/-- The conversion a piece is read with: strings are read as text. -/
def conv : Piece → Conv
  | .text s => .text s
  | .unsigned _ _ => .unsigned
  | .hex digits _ => .hex digits
  | .left width s => .text (Piece.left width s).render

/-- The number in a piece. -/
def arg : Piece → Option Nat
  | .unsigned _ v => some v
  | .hex _ v => some v
  | _ => none

/-- Pieces that can be read back when `rest` follows: numbers without padding that nothing runs
into. -/
def Readable : List Piece → List UInt8 → Prop
  | [], _ => True
  | .unsigned width _ :: pieces, rest =>
    width = 0 ∧ NoDigit (render pieces ++ rest) ∧ Readable pieces rest
  | .hex digits v :: pieces, rest => v < 16 ^ digits ∧ Readable pieces rest
  | _ :: pieces, rest => Readable pieces rest

/-- **Round trip.** What was written with some pieces is read back with their conversions. -/
theorem scan_pieces {pieces : List Piece} (h : Readable pieces rest) :
    scan (pieces.map conv ++ convs) (render pieces ++ rest) =
      (scan convs rest).map (pieces.filterMap arg ++ ·) := by
  induction pieces with
  | nil => exact (Option.map_id' ..).symm
  | cons piece pieces ih =>
    rw [List.map_cons, List.cons_append, render, List.flatMap_cons, List.append_assoc, ← render]
    -- each piece is read back by the conversion that goes with it
    cases piece with
    | text s =>
      rw [conv, Piece.render, scan_text, ih h]
      rfl
    | unsigned width v =>
      obtain ⟨rfl, hstop, hrest⟩ := h
      rw [conv, Piece.render, Nat.zero_sub, List.replicate_zero, List.nil_append,
        scan_unsigned v hstop, ih hrest, Option.map_map]
      rfl
    | hex digits v =>
      rw [conv, Piece.render, scan_hex h.1, ih h.2, Option.map_map]
      rfl
    | left width s =>
      rw [conv, scan_text, ih h]
      rfl

end NioApps.Scan
