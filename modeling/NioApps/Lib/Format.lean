import Mathlib.Data.Nat.Digits.Lemmas
import NioApps.Lib.Text

/-!
# Lib — formatted text

The text that a C format gives, as the list of its pieces with their arguments.

* `render` — the text; `Piece.length`, `length_render` — its length.
* `length_decimal_le` — how many digits an unsigned number of a given size has.
* `Printable` — no control character; `printable_render`.
-/

namespace NioApps.Format

open Text

/-- The text of `%lu`. -/
def decimal (v : Nat) : List UInt8 :=
  if v = 0 then [digit 0] else (Nat.digits 10 v).reverse.map digit

/-- Text between conversions, `%nlu`, `%0nX` for a number below `16 ^ n`, and `%-ns`. -/
inductive Piece where
  | text (s : List UInt8)
  | unsigned (width v : Nat)
  | hex (digits v : Nat)
  | left (width : Nat) (s : List UInt8)
  deriving DecidableEq

def Piece.render : Piece → List UInt8
  | .text s => s
  | .unsigned width v => List.replicate (width - (decimal v).length) 0x20 ++ decimal v
  | .hex digits v => padded digits v
  | .left width s => s ++ List.replicate (width - s.length) 0x20

def render (pieces : List Piece) : List UInt8 := pieces.flatMap Piece.render

/-! ## Lengths -/

def Piece.length : Piece → Nat
  | .text s => s.length
  | .unsigned width v => max width (decimal v).length
  | .hex digits _ => digits
  | .left width s => max width s.length

/-- How long a piece is when it is printed. -/
theorem Piece.length_render (piece : Piece) : piece.render.length = piece.length := by
  cases piece with
  | text s => rfl
  | unsigned width v =>
    rw [Piece.render, List.length_append, List.length_replicate, Piece.length]
    omega
  | hex digits v => exact length_padded digits v
  | left width s =>
    rw [Piece.render, List.length_append, List.length_replicate, Piece.length]
    omega

theorem length_render (pieces : List Piece) :
    (render pieces).length = (pieces.map Piece.length).sum := by
  rw [render, List.length_flatMap]
  exact congrArg List.sum (List.map_congr_left fun piece _ => piece.length_render)

/-- A number below `10 ^ n` has at most `n` digits. -/
theorem length_decimal_le {v n : Nat} (hpos : 0 < n) (hv : v < 10 ^ n) :
    (decimal v).length ≤ n := by
  unfold decimal
  split
  next => exact hpos
  next =>
    rw [List.length_map, List.length_reverse]
    exact (Nat.digits_length_le_iff (by decide) v).mpr hv

/-! ## Control characters -/

def Printable (s : List UInt8) : Prop := ∀ c ∈ s, 0x20 ≤ c

instance (s : List UInt8) : Decidable (Printable s) := List.decidableBAll _ s

/-- Two printable texts one after the other. -/
theorem Printable.append {s t : List UInt8} (hs : Printable s) (ht : Printable t) :
    Printable (s ++ t) := by
  intro c hc
  rcases List.mem_append.mp hc with hc | hc
  · exact hs c hc
  · exact ht c hc

theorem printable_blanks (n : Nat) : Printable (List.replicate n 0x20) := by
  intro c hc
  rw [List.eq_of_mem_replicate hc]
  decide

theorem Printable.notMem_nul {s : List UInt8} (h : Printable s) : 0 ∉ s :=
  fun hmem => absurd (h 0 hmem) (by decide)

theorem le_digit {d : Nat} (hd : d < 16) : 0x20 ≤ digit d := by
  rw [UInt8.le_iff_toNat_le, toNat_digit hd]
  show 0x20 ≤ _
  split
  next => omega
  next => omega

/-- Digits with leading zeros are printable. -/
theorem printable_padded (n v : Nat) : Printable (padded n v) := by
  induction n generalizing v with
  | zero => exact fun c hc => absurd hc List.not_mem_nil
  | succ n ih =>
    refine (ih (v / 16)).append fun c hc => ?_
    rw [List.mem_singleton.mp hc]
    exact le_digit (Nat.mod_lt v (by decide))

/-- A decimal number is printable. -/
theorem printable_decimal (v : Nat) : Printable (decimal v) := by
  unfold decimal
  split
  next => decide
  next =>
    intro c hc
    obtain ⟨d, hd, rfl⟩ := List.mem_map.mp hc
    have hlt : d < 10 := Nat.digits_lt_base (by decide) (List.mem_reverse.mp hd)
    exact le_digit (by omega)

/-- The text between conversions and the strings have no control characters. -/
def Piece.Plain : Piece → Prop
  | .text s => Printable s
  | .left _ s => Printable s
  | .unsigned _ _ => True
  | .hex _ _ => True

/-- A text of plain pieces is printable. -/
theorem printable_render {pieces : List Piece} (h : ∀ piece ∈ pieces, piece.Plain) :
    Printable (render pieces) := by
  intro c hc
  obtain ⟨piece, hpiece, hc⟩ := List.mem_flatMap.mp hc
  have hplain := h piece hpiece
  cases piece with
  | text s => exact hplain c hc
  | unsigned width v => exact (printable_blanks _).append (printable_decimal v) c hc
  | hex digits v => exact printable_padded digits v c hc
  | left width s => exact Printable.append hplain (printable_blanks _) c hc

end NioApps.Format
