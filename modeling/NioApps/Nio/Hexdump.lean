import NioApps.Lib.Loop
import NioApps.Lib.Memory
import NioApps.Lib.Text

/-!
# Nio — the dump of `nioread.c`

`hexdump` prints sixteen bytes a row. `row` and `col` are `uint16_t` on a machine whose `int` has
sixteen bits, so both the sum in the tests and the step of the rows wrap.

* `dumpRow`, `dumpStep` — a row, and one pass of the outer loop.
* `readDump` — a reader of such a text.
* `hexdump_exact` — when the loop ends, and what a reader gets back.
-/

namespace NioApps.Nio

/-! ## The code -/

/-- `row + col < len`. -/
def inDump (len row col : Nat) : Bool := u16 (row + col) < len

/-- The columns of a row: `%02X ` or three blanks. -/
def dumpCell (buf : Nat → UInt8) (len row col : Nat) : List UInt8 :=
  if inDump len row col then Text.padded 2 (buf (u16 (row + col))).toNat ++ [0x20]
  else [0x20, 0x20, 0x20]

/-- `(ch >= 32 && ch <= 126) ? ch : '.'` -/
def printable (ch : UInt8) : UInt8 := if 32 ≤ ch ∧ ch ≤ 126 then ch else 0x2E

/-- What one pass prints, without the end of the line. -/
def dumpRow (buf : Nat → UInt8) (len row : Nat) : List UInt8 :=
  Text.padded 4 row ++ [0x20, 0x20] ++ (List.range 16).flatMap (dumpCell buf len row) ++ [0x20] ++
    ((List.range 16).takeWhile (inDump len row)).map fun col => printable (buf (u16 (row + col)))

/-- One pass of the outer loop: `row`, and what has been printed. -/
def dumpStep (buf : Nat → UInt8) (len : Nat) :
    Nat × List UInt8 → (Nat × List UInt8) ⊕ List UInt8
  | (row, text) =>
    if row < len then .inl (u16 (row + 16), text ++ (dumpRow buf len row ++ [0x0A]))
    else .inr text

/-- `hexdump`: what it prints, if it is done after `fuel` passes. -/
def hexdump (buf : Nat → UInt8) (len : UInt16) (fuel : Nat) : Option (List UInt8) :=
  (Loop.after (dumpStep buf len.toNat) fuel (0, [])).getRight?

/-! ## A reader -/

/-- A line of a dump: its label, the bytes in its columns, and the characters after them. -/
structure DumpRow where
  label : Option Nat
  bytes : List UInt8
  shown : List UInt8
  deriving DecidableEq

/-- The byte in a column, where there is one. -/
def readCell (cell : List UInt8) : Option UInt8 := (Text.value (cell.take 2)).map UInt8.ofNat

def readRow (line : List UInt8) : DumpRow where
  label := Text.value (line.take 4)
  bytes := Text.readCells 3 readCell 16 (line.drop 6)
  shown := line.drop 55

def readDump (text : List UInt8) : List DumpRow := ((text.splitOn 0x0A).dropLast).map readRow

/-- The number of rows for `len` bytes. -/
def rowCount (len : Nat) : Nat := (len + 15) / 16

/-- The row that starts at an offset of some data. -/
def rowOf (data : List UInt8) (row : Nat) : DumpRow where
  label := some row
  bytes := (data.drop row).take 16
  shown := ((data.drop row).take 16).map printable

/-- The rows of some data: sixteen bytes each, labelled with the offset of the first. -/
def rowsOf (data : List UInt8) : List DumpRow :=
  (List.range (rowCount data.length)).map fun k => rowOf data (16 * k)

/-! ## A row -/

section Row

variable {buf : Nat → UInt8} {len row : Nat}

/-- The bytes a dump of `len` bytes shows. -/
def dumped (buf : Nat → UInt8) (len : Nat) : List UInt8 := (List.range len).map buf

/-- The bytes of one row. -/
theorem dumped_row (hrow : row ≤ len) :
    ((dumped buf len).drop row).take 16 =
      (List.range (min (len - row) 16)).map fun col => buf (row + col) := by
  apply List.ext_getElem
  · simp only [dumped, List.length_take, List.length_drop, List.length_map, List.length_range]
    omega
  · intro i _ _
    simp only [dumped, List.getElem_take, List.getElem_drop, List.getElem_map,
      List.getElem_range]

/-- A cell is filled where a byte is left for it; below 65520 the sum of row and column does not
wrap. -/
theorem inDump_iff (hrow : row ≤ 65520) {col : Nat} (hcol : col < 16) :
    inDump len row col = true ↔ col < len - row := by
  rw [inDump, decide_eq_true_iff, u16_of_lt (by omega)]
  omega

theorem length_dumpCell (col : Nat) : (dumpCell buf len row col).length = 3 := by
  unfold dumpCell
  split
  next => rw [List.length_append, Text.length_padded]; rfl
  next => rfl

/-- A cell is read back as its byte, or as none. -/
theorem readCell_dumpCell (col : Nat) :
    readCell (dumpCell buf len row col) =
      if inDump len row col then some (buf (u16 (row + col))) else none := by
  unfold dumpCell
  split
  next hin =>
    -- two digits are enough for a byte
    have hbyte : (buf (u16 (row + col))).toNat < 16 ^ 2 := (buf (u16 (row + col))).toNat_lt
    rw [readCell, List.take_left' (Text.length_padded 2 _), Text.value_padded hbyte,
      Option.map_some, UInt8.ofNat_toNat]
  next hout => rfl

/-- There is no line feed within a row. -/
theorem newline_notMem_dumpRow : 0x0A ∉ dumpRow buf len row := by
  have hdigits : ∀ n v, 0x0A ∉ Text.padded n v := Text.notMem_padded (by decide)
  have hcells : 0x0A ∉ (List.range 16).flatMap (dumpCell buf len row) := by
    intro hmem
    obtain ⟨col, -, hcell⟩ := List.mem_flatMap.mp hmem
    unfold dumpCell at hcell
    split at hcell
    next =>
      -- in the digits or in the blank after them
      rcases List.mem_append.mp hcell with hcell | hcell
      · exact hdigits _ _ hcell
      · exact absurd hcell (by decide)
    next => exact absurd hcell (by decide)
  have hshown : 0x0A ∉ ((List.range 16).takeWhile (inDump len row)).map
      fun col => printable (buf (u16 (row + col))) := by
    intro hmem
    obtain ⟨col, -, hchar⟩ := List.mem_map.mp hmem
    unfold printable at hchar
    split at hchar
    next hrange =>
      -- what is printed as it is lies above the line feed
      rw [hchar] at hrange
      exact absurd hrange.1 (by decide)
    next => exact absurd hchar (by decide)
  simp only [dumpRow, List.mem_append, not_or]
  exact ⟨⟨⟨⟨hdigits _ _, by decide⟩, hcells⟩, by decide⟩, hshown⟩

/-- **A row is read back.** -/
theorem readRow_dumpRow (hrow : row ≤ len) (hmax : row ≤ 65520) :
    readRow (dumpRow buf len row) = rowOf (dumped buf len) row := by
  have hin : ∀ col < 16, (inDump len row col = true ↔ col < len - row) :=
    fun col hcol => inDump_iff hmax hcol
  have hsum : ∀ col ∈ List.range (min (len - row) 16), u16 (row + col) = row + col := by
    intro col hcol
    have hbounds := List.mem_range.mp hcol
    exact u16_of_lt (by omega)
  -- the cells that are filled, in their order
  have hbytes : (List.range 16).filterMap (fun col => readCell (dumpCell buf len row col)) =
      ((dumped buf len).drop row).take 16 := by
    simp only [readCell_dumpCell]
    rw [dumped_row hrow, ← Text.filter_range hin, ← List.filterMap_eq_map, List.filterMap_filter]
    refine List.filterMap_congr fun col hcol => ?_
    have hcol' : row + col < 65536 := by
      have hbounds := List.mem_range.mp hcol
      omega
    rw [u16_of_lt hcol']
    rfl
  have hshown : ((List.range 16).takeWhile (inDump len row)).map
      (fun col => printable (buf (u16 (row + col)))) =
        (((dumped buf len).drop row).take 16).map printable := by
    rw [dumped_row hrow, Text.takeWhile_range hin, List.map_map]
    exact List.map_congr_left fun col hcol => congrArg (fun i => printable (buf i)) (hsum col hcol)
  have hcells : ((List.range 16).flatMap (dumpCell buf len row)).length = 48 := by
    rw [List.length_flatMap]
    simp only [length_dumpCell, List.map_const', List.length_range]
    rfl
  -- the label, the columns and the characters stand at 0, 6 and 55
  have hlabel : (dumpRow buf len row).take 4 = Text.padded 4 row := by
    simp only [dumpRow, List.append_assoc]
    exact List.take_left' (Text.length_padded 4 row)
  have hcolumns : Text.readCells 3 readCell 16 ((dumpRow buf len row).drop 6) =
      ((dumped buf len).drop row).take 16 := by
    rw [← hbytes]
    have hdrop : (dumpRow buf len row).drop 6 = (List.range 16).flatMap (dumpCell buf len row) ++
        ([0x20] ++ ((List.range 16).takeWhile (inDump len row)).map
          fun col => printable (buf (u16 (row + col)))) := by
      simp only [dumpRow, List.append_assoc]
      rw [← List.append_assoc]
      exact List.drop_left' (by rw [List.length_append, Text.length_padded]; rfl)
    rw [hdrop]
    exact Text.readCells_flatMap readCell _ length_dumpCell (List.range 16) _
  have htail : (dumpRow buf len row).drop 55 =
      (((dumped buf len).drop row).take 16).map printable := by
    rw [← hshown]
    refine List.drop_left' ?_
    simp only [List.length_append, Text.length_padded, hcells, List.length_cons, List.length_nil]
  rw [readRow, rowOf, hlabel, hcolumns, htail, Text.value_padded (show row < 16 ^ 4 by omega)]

end Row

/-! ## The loop -/

section Loop

variable {buf : Nat → UInt8} {len : Nat}

/-- What `k` passes have printed. -/
def dumpText (buf : Nat → UInt8) (len k : Nat) : List UInt8 :=
  (List.range k).flatMap fun i => dumpRow buf len (16 * i) ++ [0x0A]

theorem dumpText_succ (k : Nat) :
    dumpText buf len (k + 1) = dumpText buf len k ++ (dumpRow buf len (16 * k) ++ [0x0A]) := by
  rw [dumpText, List.range_succ, List.flatMap_append, List.flatMap_singleton]
  rfl

/-- The loop after `k` passes, as long as `row` has not wrapped. -/
theorem after_dumpStep {k : Nat} (hk : k ≤ rowCount len) (hwrap : 16 * k < 65536) :
    Loop.after (dumpStep buf len) k (0, []) = .inl (16 * k, dumpText buf len k) := by
  induction k with
  | zero => rfl
  | succ k ih =>
    -- one pass appends one row, and the row it goes to does not wrap
    have hrow : 16 * k < len := by
      rw [rowCount] at hk
      omega
    have hstep : dumpStep buf len (16 * k, dumpText buf len k) =
        .inl (16 * (k + 1), dumpText buf len (k + 1)) := by
      rw [dumpStep, if_pos hrow, dumpText_succ, u16_of_lt (by omega)]
      rfl
    rw [Loop.after_add, ih (by omega) (by omega)]
    exact Loop.after_succ_inl hstep 0

/-- Up to 65520 bytes the loop ends with the text of all rows. -/
theorem returns_dumpStep (hlen : len ≤ 65520) :
    Loop.Returns (dumpStep buf len) (0, []) (dumpText buf len (rowCount len)) := by
  -- the last row begins below 65520, so that the one after it is still a 16-bit number
  have hcount : len ≤ 16 * rowCount len ∧ 16 * rowCount len < 65536 := by
    rw [rowCount]
    omega
  refine .of_reaches ⟨_, after_dumpStep (Nat.le_refl _) hcount.2⟩ (.of_step ?_)
  rw [dumpStep, if_neg (by omega)]

/-- From 65521 bytes on `row` wraps to 0 before it gets to `len`. -/
theorem endless_dumpStep (hlen : 65520 < len) (k : Nat) :
    ∃ s, Loop.after (dumpStep buf len) k (0, []) = .inl s := by
  -- the invariant: a row that begins a block of sixteen and never gets past 65520
  refine Loop.after_endless (I := fun s => s.1 ≤ 65520 ∧ s.1 % 16 = 0) ?_ ⟨by decide, rfl⟩ k
  rintro ⟨row, text⟩ ⟨hmax, hmod⟩
  refine ⟨_, by rw [dumpStep, if_pos (by omega)], ?_, ?_⟩
  · show u16 (row + 16) ≤ 65520
    unfold u16
    omega
  · show u16 (row + 16) % 16 = 0
    unfold u16
    omega

/-- The whole dump is read back as its rows. -/
theorem readDump_dumpText (hlen : len ≤ 65520) :
    readDump (dumpText buf len (rowCount len)) = rowsOf (dumped buf len) := by
  have hlines : dumpText buf len (rowCount len) =
      ((List.range (rowCount len)).map fun k => dumpRow buf len (16 * k)).flatMap
        (· ++ [0x0A]) := by
    rw [List.flatMap_map]
    rfl
  have hline : ∀ line ∈ (List.range (rowCount len)).map fun k => dumpRow buf len (16 * k),
      0x0A ∉ line := by
    intro line hline
    obtain ⟨k, -, rfl⟩ := List.mem_map.mp hline
    exact newline_notMem_dumpRow
  rw [readDump, hlines, Text.splitOn_lines 0x0A hline, List.dropLast_concat, List.map_map, rowsOf,
    dumped, List.length_map, List.length_range, ← dumped]
  refine List.map_congr_left fun k hk => ?_
  have hbounds := List.mem_range.mp hk
  rw [rowCount] at hbounds
  exact readRow_dumpRow (by omega) (by omega)

end Loop

/-- The rows of some data hold the data. -/
theorem flatMap_bytes_rowsOf (data : List UInt8) : (rowsOf data).flatMap DumpRow.bytes = data := by
  -- the rows up to each place hold the bytes up to there
  suffices hrows : ∀ k, ((List.range k).map fun i => rowOf data (16 * i)).flatMap DumpRow.bytes =
      data.take (16 * k) by
    rw [rowsOf, hrows]
    apply List.take_of_length_le
    rw [rowCount]
    omega
  intro k
  induction k with
  | zero => rfl
  | succ k ih =>
    rw [List.range_succ, List.map_append, List.flatMap_append, ih, Nat.mul_succ, List.take_add]
    exact congrArg (data.take (16 * k) ++ ·) (List.append_nil _)

section Dump

variable {buf : Nat → UInt8} {len : UInt16} {fuel : Nat} {text : List UInt8}

/-- The loop only comes to its end for at most 65520 bytes: after that the row wraps round before it
gets there. -/
theorem hexdump_le (h : hexdump buf len fuel = some text) : len.toNat ≤ 65520 := by
  have hafter := Sum.getRight?_eq_some_iff.mp h
  -- otherwise every fuel ends within the loop
  by_contra hlong
  obtain ⟨s, hs⟩ := endless_dumpStep (Nat.lt_of_not_le hlong) fuel
  rw [hs] at hafter
  cases hafter

theorem hexdump_returns (buf : Nat → UInt8) (h : len.toNat ≤ 65520) :
    ∃ fuel text, hexdump buf len fuel = some text := by
  obtain ⟨fuel, hfuel⟩ : Loop.Returns (dumpStep buf len.toNat) (0, []) _ := returns_dumpStep h
  exact ⟨fuel, _, Sum.getRight?_eq_some_iff.mpr hfuel⟩

/-- What the loop printed when it came to its end is read back. -/
theorem readDump_of_hexdump (h : hexdump buf len fuel = some text) :
    readDump text = rowsOf ((List.range len.toNat).map buf) := by
  have hreturns : Loop.Returns (dumpStep buf len.toNat) (0, []) text :=
    ⟨fuel, Sum.getRight?_eq_some_iff.mp h⟩
  rw [hreturns.unique (returns_dumpStep (hexdump_le h))]
  exact readDump_dumpText (hexdump_le h)

end Dump

/-- **When `hexdump` ends, and what it shows.** It ends, within some number of passes, exactly when
there are at most 65520 bytes. Then the text it has printed is read back as the rows of these bytes,
each with the offset of its first byte and the characters of its bytes, and the columns hold the
bytes in their order. -/
theorem hexdump_exact (buf : Nat → UInt8) (len : UInt16) :
    ((∃ fuel text, hexdump buf len fuel = some text) ↔ len.toNat ≤ 65520) ∧
    ∀ fuel text, hexdump buf len fuel = some text →
      readDump text = rowsOf ((List.range len.toNat).map buf) ∧
      (readDump text).flatMap DumpRow.bytes = (List.range len.toNat).map buf := by
  refine ⟨⟨?_, hexdump_returns buf⟩, fun fuel text htext => ?_⟩
  · rintro ⟨fuel, text, htext⟩
    exact hexdump_le htext
  · have hread := readDump_of_hexdump htext
    refine ⟨hread, ?_⟩
    rw [hread]
    exact flatMap_bytes_rowsOf _

end NioApps.Nio
