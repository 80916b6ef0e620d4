import Mathlib.Data.List.Infix
import Mathlib.Tactic.Ring

/-!
# Lib — text with hexadecimal numbers

Characters are ASCII codes. Numbers are written with a fixed number of upper-case hexadecimal
digits and read back; lines that end in a separator are split again.

* `padded` — the text `%0nX` gives for a number below `16 ^ n`; `value_padded` reads it back.
* `readCells_flatMap` — columns of equal width, each read back from its place.
* `splitOn_lines` — lines, each followed by the separator.
-/

namespace NioApps.Text

/-! ## Digits -/

def digit (d : Nat) : UInt8 :=
  if d < 10 then UInt8.ofNat (0x30 + d) else UInt8.ofNat (0x37 + d)

/-- The last `n` digits of a number. -/
def padded : Nat → Nat → List UInt8
  | 0, _ => []
  | n + 1, v => padded n (v / 16) ++ [digit (v % 16)]

def digitValue (c : UInt8) : Option Nat :=
  if 0x30 ≤ c.toNat ∧ c.toNat ≤ 0x39 then some (c.toNat - 0x30)
  else if 0x41 ≤ c.toNat ∧ c.toNat ≤ 0x46 then some (c.toNat - 0x37)
  else none

/-- The number a text of digits stands for. -/
def value (text : List UInt8) : Option Nat :=
  text.foldlM (fun v c => (digitValue c).map (16 * v + ·)) 0

theorem toNat_digit {d : Nat} (hd : d < 16) :
    (digit d).toNat = if d < 10 then 0x30 + d else 0x37 + d := by
  unfold digit
  split
  next => exact UInt8.toNat_ofNat_of_lt' (show 0x30 + d < 256 by omega)
  next => exact UInt8.toNat_ofNat_of_lt' (show 0x37 + d < 256 by omega)

/-- A digit is read back. -/
theorem digitValue_digit {d : Nat} (hd : d < 16) : digitValue (digit d) = some d := by
  rw [digitValue, toNat_digit hd]
  by_cases hten : d < 10
  · simp only [if_pos hten]
    rw [if_pos (by omega)]
    exact congrArg some (by omega)
  · simp only [if_neg hten]
    rw [if_neg (by omega), if_pos (by omega)]
    exact congrArg some (by omega)

@[simp] theorem length_padded (n v : Nat) : (padded n v).length = n := by
  induction n generalizing v with
  | zero => rfl
  | succ n ih => rw [padded, List.length_append, ih, List.length_singleton]

/-- **Round trip.** The digits that are written stand for the number, up to their weight. -/
theorem value_padded_mod (n v : Nat) : value (padded n v) = some (v % 16 ^ n) := by
  induction n generalizing v with
  | zero => rw [Nat.pow_zero, Nat.mod_one]; rfl
  | succ n ih =>
    have hdigit : digitValue (digit (v % 16)) = some (v % 16) :=
      digitValue_digit (Nat.mod_lt v (by decide))
    have hvalue := ih (v / 16)
    rw [value] at hvalue
    rw [value, padded, List.foldlM_append, hvalue]
    simp only [Option.bind_eq_bind, Option.bind_some, List.foldlM_cons, List.foldlM_nil, hdigit,
      Option.map_some, Option.pure_def]
    rw [Nat.pow_succ, Nat.mul_comm (16 ^ n), Nat.mod_mul, Nat.add_comm]

theorem value_padded {n v : Nat} (h : v < 16 ^ n) : value (padded n v) = some v := by
  rw [value_padded_mod, Nat.mod_eq_of_lt h]

/-- What a number is printed with are digits. -/
theorem digitValue_of_mem {n v : Nat} {c : UInt8} (hc : c ∈ padded n v) :
    ∃ d, digitValue c = some d := by
  induction n generalizing v with
  | zero => cases hc
  | succ n ih =>
    rcases List.mem_append.mp hc with hc | hc
    · exact ih hc
    · obtain rfl := List.mem_singleton.mp hc
      exact ⟨_, digitValue_digit (Nat.mod_lt v (by decide))⟩

/-- A character that is not a digit is not in the text. -/
theorem notMem_padded {c : UInt8} (hc : digitValue c = none) (n v : Nat) : c ∉ padded n v := by
  intro hmem
  obtain ⟨d, hd⟩ := digitValue_of_mem hmem
  rw [hc] at hd
  cases hd

/-! ## Columns and lines -/

variable {α β : Type}

/-- What is read from `n` columns of `width` characters. -/
def readCells (width : Nat) (read : List α → Option β) : Nat → List α → List β
  | 0, _ => []
  | n + 1, text => (read (text.take width)).toList ++ readCells width read n (text.drop width)

/-- **Columns.** From a text of columns of that width each is read as it is from itself. -/
theorem readCells_flatMap {γ : Type} {width : Nat} (read : List α → Option β) (cell : γ → List α)
    (hwidth : ∀ c, (cell c).length = width) (cols : List γ) (rest : List α) :
    readCells width read cols.length (cols.flatMap cell ++ rest) =
      cols.filterMap fun c => read (cell c) := by
  induction cols with
  | nil => rfl
  | cons c cols ih =>
    rw [List.length_cons, readCells, List.flatMap_cons, List.append_assoc,
      List.take_left' (hwidth c), List.drop_left' (hwidth c), ih, List.filterMap_cons]
    cases read (cell c) with
    | none => rfl
    | some b => rfl

/-- Lines that were joined are split again, with nothing after the last. -/
theorem splitOn_lines [BEq α] [LawfulBEq α] (sep : α) {lines : List (List α)}
    (h : ∀ line ∈ lines, sep ∉ line) :
    (lines.flatMap (· ++ [sep])).splitOn sep = lines ++ [[]] := by
  induction lines with
  | nil => rfl
  | cons line lines ih =>
    obtain ⟨hline, hlines⟩ := List.forall_mem_cons.mp h
    rw [List.flatMap_cons, List.append_assoc, List.singleton_append,
      List.splitOn_append_cons_self_of_not_mem hline, ih hlines, List.cons_append]

/-! ## The first numbers -/

/-- The numbers below `m` split where a bound `n` cuts them. -/
theorem range_split (n m : Nat) :
    List.range m = List.range (min n m) ++ List.range' (min n m) (m - min n m) := by
  rw [List.range_eq_range', List.range_eq_range']
  have happend : List.range' 0 (min n m) ++ List.range' (0 + 1 * min n m) (m - min n m) =
      List.range' 0 (min n m + (m - min n m)) := List.range'_append
  rw [Nat.one_mul, Nat.zero_add, Nat.add_sub_cancel' (Nat.min_le_right n m)] at happend
  exact happend.symm

/-- The numbers below `n` among those below `m`. -/
theorem filter_range {p : Nat → Bool} {n m : Nat} (hp : ∀ c < m, (p c = true ↔ c < n)) :
    (List.range m).filter p = List.range (min n m) := by
  rw [range_split n m, List.filter_append, List.filter_eq_self.mpr, List.filter_eq_nil_iff.mpr,
    List.append_nil]
  · intro c hc hpc
    have hbounds := List.mem_range'_1.mp hc
    have hlt := (hp c (by omega)).mp hpc
    omega
  · intro c hc
    have hbounds := List.mem_range.mp hc
    exact (hp c (by omega)).mpr (by omega)

/-- The same where one stops at the first that is not below `n`. -/
theorem takeWhile_range {p : Nat → Bool} {n m : Nat} (hp : ∀ c < m, (p c = true ↔ c < n)) :
    (List.range m).takeWhile p = List.range (min n m) := by
  have hfirst : ∀ c ∈ List.range (min n m), p c = true := by
    intro c hc
    have hbounds := List.mem_range.mp hc
    exact (hp c (by omega)).mpr (by omega)
  rw [range_split n m, List.takeWhile_append_of_pos hfirst]
  cases hrest : m - min n m with
  | zero => exact List.append_nil _
  | succ k =>
    have hnot : p (min n m) = false := by
      rw [← Bool.not_eq_true, hp _ (by omega)]
      omega
    rw [List.range'_succ, List.takeWhile_cons, hnot]
    exact List.append_nil _

end NioApps.Text
