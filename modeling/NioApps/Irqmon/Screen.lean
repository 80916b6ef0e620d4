import NioApps.Fnctl.AppStore
import NioApps.Irqmon.Vectors
import NioApps.Lib.BufProg
import NioApps.Lib.Format
import NioApps.Lib.Memory

/-!
# Irqmon — the screen

Every line is formatted with `vsprintf` into an array of 96 bytes and written through the video
services of the BIOS, 79 characters from the first column on, so that the cursor never leaves the
row. The line of IRQ 15 stands on the row on which `draw_status` writes the ticks.

* `Bios` — a text screen behind `int 10h`.
* `screenWrite` — the loop over a string, as a program that reads it.
* `monitorCalls` — what `draw_static` and a number of passes that draw ask of the BIOS.
* `monitor_screen` — when no line runs past the array, and what the screen shows then.
* `irq15_hidden` — no row is ever left with the line of IRQ 15.
-/

namespace NioApps.Irqmon

open Fnctl (ascii)
open Format (Piece render Printable)

/-! ## The video services -/

/-- The calls of `int 10h` that are made: AH = 2, AH = 6 and AH = 14, on page 0. -/
inductive VideoCall where
  | setCursor (row col : UInt8)
  | scrollUp (lines fill top left bottom right : UInt8)
  | teletype (ch : UInt8)
  deriving DecidableEq

/-- A screen of 25 rows and 80 columns, and what these calls do to it where the program uses them:
a character that is no control character goes to the cursor, which moves to the right. -/
structure Bios (δ : Type) where
  video : VideoCall → δ → δ
  cursor : δ → Nat × Nat
  cell : δ → Nat → Nat → UInt8
  cursor_setCursor : ∀ d (row col : UInt8), row.toNat < 25 → col.toNat < 80 →
    cursor (video (.setCursor row col) d) = (row.toNat, col.toNat)
  cell_setCursor : ∀ d row col, cell (video (.setCursor row col) d) = cell d
  cursor_teletype : ∀ d row col ch, cursor d = (row, col) → row < 25 → col + 1 < 80 → 0x20 ≤ ch →
    cursor (video (.teletype ch) d) = (row, col + 1)
  cell_teletype : ∀ d row col ch, cursor d = (row, col) → row < 25 → col + 1 < 80 → 0x20 ≤ ch →
    cell (video (.teletype ch) d) = Function.update (cell d) row
      (Function.update (cell d row) col ch)
  cell_scrollUp : ∀ d row col, row < 25 → col < 80 →
    cell (video (.scrollUp 0 0x07 0 0 24 79) d) row col = 0x20

variable {δ : Type}

def Bios.run (B : Bios δ) (calls : List VideoCall) (d : δ) : δ := calls.foldl (flip B.video) d

theorem Bios.run_cons (B : Bios δ) (call : VideoCall) (calls : List VideoCall) (d : δ) :
    B.run (call :: calls) d = B.run calls (B.video call d) := rfl

theorem Bios.run_append (B : Bios δ) (calls calls' : List VideoCall) (d : δ) :
    B.run (calls ++ calls') d = B.run calls' (B.run calls d) := List.foldl_append

/-! ## The code -/

/-- `screen_goto(col, row)` -/
def screenGoto (col row : UInt16) : VideoCall := .setCursor (row - 1).toUInt8 (col - 1).toUInt8

/-- The calls of `screen_clear`. -/
def screenClear : List VideoCall := [.scrollUp 0 0x07 0 0 24 79, screenGoto 1 1]

/-- The loop of `screen_write` from `i` on, with `n` passes left. -/
def screenWriteLoop (i : Nat) (ended : Bool) : Nat → BufProg VideoCall PUnit
  | 0 => pure ⟨⟩
  | n + 1 =>
    if ended then do
      BufProg.report (.teletype 0x20)
      screenWriteLoop (i + 1) true n
    else do
      let ch ← BufProg.byte i
      if ch ≠ 0 then
        BufProg.report (.teletype ch)
        screenWriteLoop (i + 1) false n
      else
        BufProg.report (.teletype 0x20)
        screenWriteLoop (i + 1) true n

def screenWrite (col row : UInt16) (width : Nat) : BufProg VideoCall PUnit := do
  BufProg.report (screenGoto col row)
  screenWriteLoop 0 false width

/-- A string with its terminator over what stood there. -/
def stringAt (before : Nat → UInt8) (text : List UInt8) : Nat → UInt8 :=
  overlay before 0 (text ++ [0])

/-- The calls of `screen_write` for a string. -/
def screenText (before : Nat → UInt8) (col row : UInt16) (width : Nat) (text : List UInt8) :
    List VideoCall :=
  ((screenWrite col row width).exec (stringAt before text)).events

/-- `sizeof(buf)`. -/
def screenBuf : Nat := 96

/-- The calls of `screen_printf`; `none` where `vsprintf` runs past the array. -/
def screenPrintf (before : Nat → UInt8) (col row : UInt16) (width : Nat) (pieces : List Piece) :
    Option (List VideoCall) :=
  if (render pieces).length + 1 ≤ screenBuf then
    some (screenText before col row width (render pieces))
  else none

def irqNames : List String :=
  ["Timer", "Keyboard", "Cascade", "COM2", "COM1", "LPT2/Sound", "Floppy", "LPT1", "RTC", "IRQ9",
    "IRQ10", "PCI/IRQ11", "Mouse", "FPU", "IDE1", "IDE2"]

def irqName (i : Fin 16) : List UInt8 := ascii (irqNames.get i)

/-- What a pass that draws finds, each line when it is formatted: the vectors and the counters, the
ticks, the masks, and the bytes that stand in the array before. -/
structure View where
  oldHandlers : Fin 16 → FarPtr
  vectors : Fin 16 → FarPtr
  irqCounts : Fin 16 → UInt32
  rates : Fin 16 → UInt32
  biosTicks : UInt32
  master : UInt8
  slave : UInt8
  before : UInt16 → Nat → UInt8

/-- `old_handlers[i] ? old_handlers[i] : _dos_getvect(irq_vectors[i])` -/
def View.old (v : View) (i : Fin 16) : FarPtr :=
  if v.oldHandlers i ≠ .null then v.oldHandlers i else v.vectors i

def View.vectorLine (v : View) (i : Fin 16) : List Piece :=
  [.unsigned 2 i.val, .text (ascii "  "), .hex 2 (irqVector i).toNat, .text (ascii "h  "),
    .hex 4 (v.old i).segment.toNat, .text (ascii ":"), .hex 4 (v.old i).offset.toNat,
    .text (ascii " "), .left 13 (irqName i), .text (ascii " "),
    .unsigned 10 (v.irqCounts i).toNat, .text (ascii " "), .unsigned 10 (v.rates i).toNat]

def View.ticksLine (v : View) : List Piece :=
  [.text (ascii "BIOS ticks="), .unsigned 0 v.biosTicks.toNat,
    .text (ascii "  PIC mask master="), .hex 2 v.master.toNat, .text (ascii " slave="),
    .hex 2 v.slave.toNat]

def View.sampleLine (v : View) : List Piece :=
  [.text (ascii "sample IRQ0="), .unsigned 0 (v.rates 0).toNat,
    .text (ascii " IRQ3="), .unsigned 0 (v.rates 3).toNat,
    .text (ascii " IRQ4="), .unsigned 0 (v.rates 4).toNat,
    .text (ascii " IRQ8="), .unsigned 0 (v.rates 8).toNat,
    .text (ascii " IRQ11="), .unsigned 0 (v.rates 11).toNat,
    .text (ascii " IRQ12="), .unsigned 0 (v.rates 12).toNat,
    .text (ascii " IRQ14="), .unsigned 0 (v.rates 14).toNat]

def vectorRow (i : Fin 16) : UInt16 := 6 + UInt16.ofNat i.val

def drawVectors (v : View) : Option (List VideoCall) :=
  ((List.finRange 16).mapM fun i =>
    screenPrintf (v.before (vectorRow i)) 1 (vectorRow i) 79 (v.vectorLine i)).map List.flatten

def drawStatus (v : View) : Option (List VideoCall) := do
  let ticks ← screenPrintf (v.before 21) 1 21 79 v.ticksLine
  let sample ← screenPrintf (v.before 22) 1 22 79 v.sampleLine
  pure (ticks ++ sample)

def draw (v : View) : Option (List VideoCall) := do
  let vectors ← drawVectors v
  let status ← drawStatus v
  pure (vectors ++ status)

/-- The lines of `draw_static`, with their rows. -/
def staticLines : List (UInt16 × List UInt8) :=
  [(1, ascii "IRQMON - MS-DOS interrupt monitor"),
    (2, ascii "Q/Esc quit  C clear counters"),
    (4, ascii "IRQ Vec  Handler   Name          Total      /sample"),
    (5, ascii "--- ---- --------- ------------- ---------- ----------"),
    (23, ascii "Watch IRQ0(timer), IRQ4(COM1), IRQ8(RTC), IRQ11(PCI), IRQ14(IDE).")]

/-- Lines written one after the other. -/
def screenLines (before : UInt16 → Nat → UInt8) (lines : List (UInt16 × List UInt8)) :
    List VideoCall :=
  lines.flatMap fun line => screenText (before line.1) 1 line.1 79 line.2

/-- `draw_static`; `after` is what follows the literals in memory. -/
def drawStatic (after : UInt16 → Nat → UInt8) : List VideoCall :=
  screenClear ++ screenLines after staticLines

/-- The calls of `main` up to the last of a number of passes that draw. -/
def monitorCalls (after : UInt16 → Nat → UInt8) (views : List View) : Option (List VideoCall) :=
  (views.mapM draw).map fun drawn => drawStatic after ++ drawn.flatten

/-! ## What is meant -/

/-- The rows show these lines, cut to 79 characters, and blanks after them. -/
def Shows (B : Bios δ) (d : δ) (lines : Nat → List UInt8) : Prop :=
  ∀ row < 25, ∀ col < 80, B.cell d row col = ((lines row).take 79).getD col 0x20

/-- The line `draw_static` leaves on a row, counted from 0. -/
def staticLine (row : Nat) : List UInt8 := (staticLines.lookup (UInt16.ofNat (row + 1))).getD []

/-- The line of a row after the last view. -/
def shownLine (last : Option View) (row : Nat) : List UInt8 :=
  match last with
  | none => staticLine row
  | some v =>
    if h : 5 ≤ row ∧ row < 20 then render (v.vectorLine ⟨row - 5, by omega⟩)
    else if row = 20 then render v.ticksLine
    else if row = 21 then render v.sampleLine
    else staticLine row

/-- The digits of the seven rates on the last line. -/
def View.rateDigits (v : View) : Nat :=
  (([0, 3, 4, 8, 11, 12, 14] : List (Fin 16)).map fun i =>
    (Format.decimal (v.rates i).toNat).length).sum

/-! ## `screen_write` -/

/-- A text, cut or filled up with blanks. -/
def fit (width : Nat) (text : List UInt8) : List UInt8 :=
  (text ++ List.replicate width 0x20).take width

theorem fit_nil (n : Nat) : fit n [] = List.replicate n 0x20 := by
  rw [fit, List.nil_append, List.take_of_length_le (by rw [List.length_replicate])]

theorem fit_cons (n : Nat) (c : UInt8) (text : List UInt8) :
    fit (n + 1) (c :: text) = c :: fit n text := by
  rw [fit, fit, List.cons_append, List.take_succ_cons, List.replicate_succ', ← List.append_assoc,
    List.take_append_of_le_length (by rw [List.length_append, List.length_replicate]; omega)]

theorem length_fit (n : Nat) (text : List UInt8) : (fit n text).length = n := by
  rw [fit, List.length_take, List.length_append, List.length_replicate]
  omega

/-- A fitted text shows the text as far as the width goes, and blanks after it. -/
theorem getD_fit (n : Nat) (text : List UInt8) (col : Nat) :
    (fit n text).getD col 0x20 = (text.take n).getD col 0x20 := by
  induction n generalizing text col with
  | zero => simp [fit]
  | succ n ih =>
    cases text with
    | nil =>
      rw [fit_nil, List.take_nil, List.getD_eq_getElem?_getD,
        List.getElem?_getD_replicate_default_eq]
      rfl
    | cons c text =>
      rw [fit_cons, List.take_succ_cons]
      cases col with
      | zero => rfl
      | succ col => exact ih text col

theorem printable_fit {n : Nat} {text : List UInt8} (h : Printable text) :
    Printable (fit n text) := fun c hc =>
  (h.append (Format.printable_blanks n)) c (List.mem_of_mem_take hc)

section Write

variable {m : Nat → UInt8} {i n : Nat} {text : List UInt8}

/-- After the NUL the loop writes blanks and reads nothing. -/
theorem exec_screenWriteLoop_ended (m : Nat → UInt8) (i n : Nat) :
    (screenWriteLoop i true n).exec m =
      ⟨⟨⟩, (List.replicate n 0x20).map VideoCall.teletype, []⟩ := by
  induction n generalizing i with
  | zero => rfl
  | succ n ih =>
    rw [screenWriteLoop, if_pos rfl, BufProg.exec_bind, BufProg.exec_report, ih]
    rfl

/-- The loop from the middle of a string on: it prints the rest, reads it up to the terminator, and
nothing after that. -/
theorem exec_screenWriteLoop (htext : ∀ k, ∀ h : k < text.length, m (i + k) = text[k])
    (hend : m (i + text.length) = 0) (hnul : 0 ∉ text) :
    (screenWriteLoop i false n).exec m =
      ⟨⟨⟩, (fit n text).map VideoCall.teletype, List.range' i (min n (text.length + 1))⟩ := by
  induction n generalizing i text with
  | zero => rw [Nat.zero_min]; rfl
  | succ n ih =>
    rw [screenWriteLoop, if_neg Bool.false_ne_true, BufProg.exec_bind, BufProg.exec_byte]
    cases text with
    | nil =>
      -- the NUL: what is left is written as blanks
      have hzero : m i = 0 := hend
      rw [hzero, if_neg (not_not.mpr rfl), BufProg.exec_bind, BufProg.exec_report,
        exec_screenWriteLoop_ended, fit_nil, List.length_nil, Nat.min_eq_right (by omega)]
      rfl
    | cons c text =>
      have hchar : m i = c := htext 0 (by simp)
      have hne : c ≠ 0 := fun hc => hnul (hc ▸ List.mem_cons_self)
      -- a letter is written, and the rest stands one further on
      have hrest : ∀ k, ∀ h : k < text.length, m (i + 1 + k) = text[k] := by
        intro k hk
        rw [show i + 1 + k = i + (k + 1) by omega]
        exact htext (k + 1) (Nat.succ_lt_succ hk)
      have hend' : m (i + 1 + text.length) = 0 := by
        rw [show i + 1 + text.length = i + (text.length + 1) by omega]
        exact hend
      rw [hchar, if_pos hne, BufProg.exec_bind, BufProg.exec_report,
        ih hrest hend' fun hmem => hnul (List.mem_cons_of_mem c hmem), fit_cons,
        List.length_cons, Nat.succ_min_succ, List.range'_succ]
      rfl

/-- **`screen_write`.** It prints exactly `width` characters, the string cut or filled up with
blanks, and reads no byte after the terminator. -/
theorem exec_screenWrite (before : Nat → UInt8) (col row : UInt16) (width : Nat)
    (hnul : 0 ∉ text) :
    (screenWrite col row width).exec (stringAt before text) =
      ⟨⟨⟩, screenGoto col row :: (fit width text).map VideoCall.teletype,
        List.range' 0 (min width (text.length + 1))⟩ := by
  have hbyte : ∀ k, k < text.length + 1 →
      stringAt before text (0 + k) = (text ++ [0]).getD k 0 := by
    intro k hk
    rw [stringAt, overlay_add (by rw [List.length_append]; exact hk)]
  have htext : ∀ k, ∀ h : k < text.length, stringAt before text (0 + k) = text[k] := by
    intro k hk
    rw [hbyte k (by omega), List.getD_append _ _ _ _ hk, List.getD_eq_getElem _ _ hk]
  have hend : stringAt before text (0 + text.length) = 0 := by
    rw [hbyte _ (by omega), List.getD_append_right _ _ _ _ (Nat.le_refl _), Nat.sub_self]
    rfl
  rw [screenWrite, BufProg.exec_bind, BufProg.exec_report, exec_screenWriteLoop htext hend hnul]
  rfl

/-- A text without a NUL is written whole: the cursor, then its fitted letters. -/
theorem screenText_eq (before : Nat → UInt8) (col row : UInt16) (width : Nat) (hnul : 0 ∉ text) :
    screenText before col row width text =
      screenGoto col row :: (fit width text).map VideoCall.teletype := by
  rw [screenText, exec_screenWrite before col row width hnul]

end Write

/-! ## The screen -/

/-- The row that `screen_goto` sends, from 0 on. -/
def lineRow (row : UInt16) : Nat := (row - 1).toUInt8.toNat

theorem lineRow_vectorRow (i : Fin 16) : lineRow (vectorRow i) = 5 + i.val := by
  revert i
  decide

section Display

variable {B : Bios δ} {d : δ}

/-- Characters written from the cursor on, short of the last column. -/
theorem cell_run_teletype {text : List UInt8} {row col : Nat} (hcursor : B.cursor d = (row, col))
    (hrow : row < 25) (hcol : col + text.length < 80) (hprint : Printable text) (r c : Nat) :
    B.cell (B.run (text.map VideoCall.teletype) d) r c =
      if r = row ∧ col ≤ c then text.getD (c - col) (B.cell d r c) else B.cell d r c := by
  induction text generalizing d col with
  | nil =>
    rw [List.getD_nil, ite_self]
    rfl
  | cons ch text ih =>
    rw [List.length_cons] at hcol
    have hch : 0x20 ≤ ch := hprint ch List.mem_cons_self
    -- the cursor moves on within the row, since the text is short enough
    have hnext := B.cursor_teletype d row col ch hcursor hrow (by omega) hch
    have hcell := B.cell_teletype d row col ch hcursor hrow (by omega) hch
    rw [List.map_cons, Bios.run_cons,
      ih hnext (by omega) (fun c hc => hprint c (List.mem_cons_of_mem ch hc)), hcell]
    by_cases hr : r = row
    · subst hr
      rw [Function.update_self]
      -- the columns before the letter, the letter itself, and those after it
      rcases Nat.lt_trichotomy c col with hlt | rfl | hgt
      · rw [if_neg (by omega), if_neg (by omega), Function.update_of_ne (by omega)]
      · rw [if_neg (by omega), if_pos (by omega), Function.update_self, Nat.sub_self]
        rfl
      · rw [if_pos (by omega), if_pos (by omega), Function.update_of_ne (by omega),
          show c - col = (c - (col + 1)) + 1 by omega]
        rfl
    · rw [if_neg (fun h => hr h.1), if_neg (fun h => hr h.1), Function.update_of_ne hr]

/-- **A line.** It takes its row, and no other row changes. -/
theorem shows_screenText {lines : Nat → List UInt8} {row : UInt16} {text : List UInt8}
    (before : Nat → UInt8) (hrow : lineRow row < 25) (hprint : Printable text)
    (h : Shows B d lines) :
    Shows B (B.run (screenText before 1 row 79 text) d)
      (Function.update lines (lineRow row) text) := by
  intro r hr c hc
  have hcursor : B.cursor (B.video (screenGoto 1 row) d) = (lineRow row, 0) :=
    B.cursor_setCursor d (row - 1).toUInt8 0 hrow (by decide)
  rw [screenText_eq before 1 row 79 hprint.notMem_nul, Bios.run_cons,
    cell_run_teletype hcursor hrow (by rw [length_fit]; decide) (printable_fit hprint) r c]
  -- moving the cursor changes no cell
  have hcell : B.cell (B.video (screenGoto 1 row) d) = B.cell d := B.cell_setCursor d _ _
  rw [hcell, h r hr c hc]
  by_cases heq : r = lineRow row
  · rw [if_pos ⟨heq, Nat.zero_le c⟩, heq, Function.update_self, Nat.sub_zero,
      ← getD_fit 79 text]
    rcases Nat.lt_or_ge c 79 with hlt | hge
    · rw [List.getD_eq_getElem _ _ (by rw [length_fit]; exact hlt),
        List.getD_eq_getElem _ _ (by rw [length_fit]; exact hlt)]
    · -- the last column is blank before and after
      rw [List.getD_eq_default _ _ (by rw [length_fit]; exact hge),
        List.getD_eq_default _ _ (by rw [List.length_take]; omega),
        List.getD_eq_default _ _ (by rw [length_fit]; exact hge)]
  · rw [if_neg (fun hand => heq hand.1), Function.update_of_ne heq]

/-- What lines written one after the other make of the lines of a screen. -/
def overwrite (lines : Nat → List UInt8) (written : List (UInt16 × List UInt8)) :
    Nat → List UInt8 :=
  written.foldl (fun lines line => Function.update lines (lineRow line.1) line.2) lines

/-- Lines that have a row and no control character. -/
def Writable (written : List (UInt16 × List UInt8)) : Prop :=
  ∀ line ∈ written, lineRow line.1 < 25 ∧ Printable line.2

/-- Lines that are written replace those that stood in their rows. -/
theorem shows_screenLines {lines : Nat → List UInt8} {written : List (UInt16 × List UInt8)}
    (before : UInt16 → Nat → UInt8) (hwritten : Writable written) (h : Shows B d lines) :
    Shows B (B.run (screenLines before written) d) (overwrite lines written) := by
  induction written generalizing d lines with
  | nil => exact h
  | cons line written ih =>
    have hline := hwritten line List.mem_cons_self
    have hfirst := shows_screenText (before line.1) hline.1 hline.2 h
    show Shows B (B.run (screenText _ 1 line.1 79 line.2 ++ screenLines before written) d) _
    rw [Bios.run_append]
    exact ih (fun l hl => hwritten l (List.mem_cons_of_mem line hl)) hfirst

end Display

/-! ## The lines of a view -/

/-- The lines that a pass writes, in their order. -/
def View.lines (v : View) : List (UInt16 × List UInt8) :=
  (List.finRange 16).map (fun i => (vectorRow i, render (v.vectorLine i))) ++
    [(21, render v.ticksLine), (22, render v.sampleLine)]

/-- The line of a vector is printable: its pieces are texts and numbers. -/
theorem printable_vectorLine (v : View) (i : Fin 16) : Printable (render (v.vectorLine i)) := by
  have hname : ∀ i, Printable (irqName i) := by decide
  refine Format.printable_render fun piece hpiece => ?_
  simp only [View.vectorLine, List.mem_cons, List.not_mem_nil, or_false] at hpiece
  rcases hpiece with rfl | rfl | rfl | rfl | rfl | rfl | rfl | rfl | rfl | rfl | rfl | rfl | rfl
  all_goals first | trivial | exact hname i | (show Printable _; decide)

theorem printable_ticksLine (v : View) : Printable (render v.ticksLine) := by
  refine Format.printable_render fun piece hpiece => ?_
  simp only [View.ticksLine, List.mem_cons, List.not_mem_nil, or_false] at hpiece
  rcases hpiece with rfl | rfl | rfl | rfl | rfl | rfl
  all_goals first | trivial | (show Printable _; decide)

theorem printable_sampleLine (v : View) : Printable (render v.sampleLine) := by
  refine Format.printable_render fun piece hpiece => ?_
  simp only [View.sampleLine, List.mem_cons, List.not_mem_nil, or_false] at hpiece
  rcases hpiece with rfl | rfl | rfl | rfl | rfl | rfl | rfl | rfl | rfl | rfl | rfl | rfl | rfl |
    rfl
  all_goals first | trivial | (show Printable _; decide)

/-- All lines of a pass are printable and stand in rows of the screen. -/
theorem writable_lines (v : View) : Writable v.lines := by
  intro line hline
  rcases List.mem_append.mp hline with hline | hline
  · obtain ⟨i, -, rfl⟩ := List.mem_map.mp hline
    refine ⟨?_, printable_vectorLine v i⟩
    show lineRow (vectorRow i) < 25
    rw [lineRow_vectorRow]
    omega
  · rcases List.mem_pair.mp hline with rfl | rfl
    · exact ⟨show lineRow 21 < 25 by decide, printable_ticksLine v⟩
    · exact ⟨show lineRow 22 < 25 by decide, printable_sampleLine v⟩

/-- Lines on consecutive rows. -/
theorem foldl_update_rows {n : Nat} (f : Fin n → List UInt8) (lines : Nat → List UInt8)
    (first row : Nat) :
    (List.finRange n).foldl (fun lines i => Function.update lines (first + i.val) (f i)) lines row =
      if h : first ≤ row ∧ row < first + n then f ⟨row - first, by omega⟩ else lines row := by
  induction n with
  | zero => rw [dif_neg (by omega)]; rfl
  | succ n ih =>
    rw [List.finRange_succ_last, List.foldl_append, List.foldl_map, List.foldl_cons, List.foldl_nil]
    simp only [Fin.val_castSucc, Fin.val_last]
    -- the row written last, or one of those before it
    by_cases hlast : row = first + n
    · subst hlast
      rw [Function.update_self, dif_pos (by omega)]
      exact congrArg f (Fin.ext (Nat.add_sub_cancel_left first n).symm)
    · rw [Function.update_of_ne hlast, ih fun i => f i.castSucc]
      by_cases hrow : first ≤ row ∧ row < first + n
      · rw [dif_pos hrow, dif_pos (by omega)]
        rfl
      · rw [dif_neg hrow, dif_neg (by omega)]

/-- Above and below the lines of a pass the static lines stay. -/
theorem shownLine_of_static {last : Option View} {row : Nat} (h : row < 5 ∨ 21 < row) :
    shownLine last row = staticLine row := by
  cases last with
  | none => rfl
  | some v => rw [shownLine, dif_neg (by omega), if_neg (by omega), if_neg (by omega)]

/-- **What a pass leaves.** The ticks are written over the last of the lines of the vectors. -/
theorem overwrite_lines (last : Option View) (v : View) (row : Nat) :
    overwrite (shownLine last) v.lines row = shownLine (some v) row := by
  have hticks : lineRow 21 = 20 := by decide
  have hsample : lineRow 22 = 21 := by decide
  rw [overwrite, View.lines, List.foldl_append, List.foldl_map]
  simp only [lineRow_vectorRow, List.foldl_cons, List.foldl_nil, hticks, hsample]
  -- the rows of the vectors and of the ticks, that of the sample, and those below
  rcases Nat.lt_trichotomy row 21 with hlt | rfl | hgt
  · rw [Function.update_of_ne (by omega)]
    rcases Nat.lt_or_eq_of_le (Nat.le_of_lt_succ hlt) with hlt | rfl
    · rw [Function.update_of_ne (by omega), foldl_update_rows fun i => render (v.vectorLine i)]
      by_cases hrow : 5 ≤ row
      · rw [dif_pos (by omega), shownLine, dif_pos (by omega)]
      · rw [dif_neg (by omega), shownLine_of_static (by omega), shownLine_of_static (by omega)]
    · -- the line of the ticks replaces that of IRQ 15
      rw [Function.update_self]
      rfl
  · rw [Function.update_self]
    rfl
  · rw [Function.update_of_ne (by omega), Function.update_of_ne (by omega),
      foldl_update_rows fun i => render (v.vectorLine i), dif_neg (by omega),
      shownLine_of_static (by omega), shownLine_of_static (by omega)]

/-! ## The array -/

/-- A line that fits the array with its terminator. -/
def Fits (pieces : List Piece) : Prop := (render pieces).length + 1 ≤ screenBuf

/-- A formatted line is written exactly where it fits the buffer of `screen_printf`. -/
theorem screenPrintf_eq_some_iff {before : Nat → UInt8} {col row : UInt16} {width : Nat}
    {pieces : List Piece} {calls : List VideoCall} :
    screenPrintf before col row width pieces = some calls ↔
      Fits pieces ∧ calls = screenText before col row width (render pieces) := by
  unfold screenPrintf Fits
  split
  next hfits => exact ⟨fun h => ⟨hfits, (Option.some.inj h).symm⟩, fun h => congrArg some h.2.symm⟩
  next hlong => exact ⟨nofun, fun h => absurd h.1 hlong⟩

theorem length_decimal_uint32 (n : UInt32) : (Format.decimal n.toNat).length ≤ 10 :=
  Format.length_decimal_le (by decide) (Nat.lt_trans n.toNat_lt (by decide))

/-- The line of a vector always fits the buffer. -/
theorem fits_vectorLine (v : View) (i : Fin 16) : Fits (v.vectorLine i) := by
  have hname : ∀ i, (irqName i).length ≤ 13 := by decide
  have hirq : (Format.decimal i.val).length ≤ 2 :=
    Format.length_decimal_le (by decide) (Nat.lt_trans i.isLt (by decide))
  have hcount := length_decimal_uint32 (v.irqCounts i)
  have hrate := length_decimal_uint32 (v.rates i)
  rw [Fits, Format.length_render]
  show _ + 1 ≤ 96
  simp only [View.vectorLine, List.map_cons, List.map_nil, Piece.length, List.sum_cons,
    List.sum_nil, Nat.max_eq_left hirq, Nat.max_eq_left hcount, Nat.max_eq_left hrate,
    Nat.max_eq_left (hname i)]
  decide

/-- So does the line of the ticks. -/
theorem fits_ticksLine (v : View) : Fits v.ticksLine := by
  have hticks := length_decimal_uint32 v.biosTicks
  rw [Fits, Format.length_render]
  show _ + 1 ≤ 96
  simp only [View.ticksLine, List.map_cons, List.map_nil, Piece.length, List.sum_cons,
    List.sum_nil, Nat.zero_max]
  show 11 + (_ + (18 + (2 + (7 + (2 + 0))))) + 1 ≤ 96
  omega

/-- The line of the sample fits only as long as its rate has at most 44 digits. -/
theorem fits_sampleLine_iff (v : View) : Fits v.sampleLine ↔ v.rateDigits ≤ 44 := by
  rw [Fits, Format.length_render]
  show _ + 1 ≤ 96 ↔ _
  simp only [View.sampleLine, View.rateDigits, List.map_cons, List.map_nil, Piece.length,
    List.sum_cons, List.sum_nil, Nat.zero_max]
  show 12 + (_ + (6 + (_ + (6 + (_ + (6 + (_ + (7 + (_ + (7 + (_ + (7 + (_ + 0))))))))))))) + 1 ≤
    96 ↔ _
  omega

/-! ## The calls -/

/-- A list of steps that each either fail or give a known result. -/
theorem mapM_eq_some_iff_of {α β : Type} {f : α → Option β} {p : α → Prop} {g : α → β}
    (h : ∀ a b, f a = some b ↔ p a ∧ b = g a) {as : List α} {bs : List β} :
    as.mapM f = some bs ↔ (∀ a ∈ as, p a) ∧ bs = as.map g := by
  induction as generalizing bs with
  | nil =>
    show some [] = some bs ↔ _
    simp [eq_comm]
  | cons a as ih =>
    simp only [List.mapM_cons, Option.bind_eq_bind, Option.bind_eq_some_iff, Option.pure_def,
      Option.some.injEq, h, ih, List.forall_mem_cons, List.map_cons]
    constructor
    · rintro ⟨_, ⟨ha, rfl⟩, _, ⟨has, rfl⟩, rfl⟩
      exact ⟨⟨ha, has⟩, rfl⟩
    · rintro ⟨⟨ha, has⟩, rfl⟩
      exact ⟨_, ⟨ha, rfl⟩, _, ⟨has, rfl⟩, rfl⟩

/-- The vectors are drawn as the sixteen lines they are. -/
theorem drawVectors_eq (v : View) :
    drawVectors v = some (screenLines v.before
      ((List.finRange 16).map fun i => (vectorRow i, render (v.vectorLine i)))) := by
  have hline : ∀ i calls,
      screenPrintf (v.before (vectorRow i)) 1 (vectorRow i) 79 (v.vectorLine i) = some calls ↔
        Fits (v.vectorLine i) ∧ calls = screenText (v.before (vectorRow i)) 1 (vectorRow i) 79
          (render (v.vectorLine i)) := fun _ _ => screenPrintf_eq_some_iff
  have hlines : (List.finRange 16).mapM (fun i =>
      screenPrintf (v.before (vectorRow i)) 1 (vectorRow i) 79 (v.vectorLine i)) = some _ :=
    (mapM_eq_some_iff_of hline).mpr ⟨fun i _ => fits_vectorLine v i, rfl⟩
  rw [drawVectors, hlines, Option.map_some, screenLines, List.flatMap_map]
  rfl

/-- The status is drawn as its two lines, where the second fits. -/
theorem drawStatus_eq_some_iff {v : View} {calls : List VideoCall} :
    drawStatus v = some calls ↔ v.rateDigits ≤ 44 ∧
      calls = screenLines v.before [(21, render v.ticksLine), (22, render v.sampleLine)] := by
  have hcalls : screenLines v.before [(21, render v.ticksLine), (22, render v.sampleLine)] =
      screenText (v.before 21) 1 21 79 (render v.ticksLine) ++
        screenText (v.before 22) 1 22 79 (render v.sampleLine) := by
    rw [screenLines, List.flatMap_cons, List.flatMap_singleton]
  rw [hcalls, ← fits_sampleLine_iff]
  simp only [drawStatus, Option.bind_eq_bind, Option.bind_eq_some_iff, Option.pure_def,
    Option.some.injEq, screenPrintf_eq_some_iff]
  constructor
  · rintro ⟨_, ⟨-, rfl⟩, _, ⟨hfits, rfl⟩, rfl⟩
    exact ⟨hfits, rfl⟩
  · rintro ⟨hfits, rfl⟩
    exact ⟨_, ⟨fits_ticksLine v, rfl⟩, _, ⟨hfits, rfl⟩, rfl⟩

/-- **One pass.** Only the last line can run past the array. -/
theorem draw_eq_some_iff (v : View) (calls : List VideoCall) :
    draw v = some calls ↔ v.rateDigits ≤ 44 ∧ calls = screenLines v.before v.lines := by
  have hlines : screenLines v.before v.lines = screenLines v.before
      ((List.finRange 16).map fun i => (vectorRow i, render (v.vectorLine i))) ++
        screenLines v.before [(21, render v.ticksLine), (22, render v.sampleLine)] := by
    rw [screenLines, View.lines, List.flatMap_append]
    rfl
  rw [hlines]
  simp only [draw, drawVectors_eq, Option.bind_eq_bind, Option.bind_some, Option.bind_eq_some_iff,
    Option.pure_def, Option.some.injEq, drawStatus_eq_some_iff]
  constructor
  · rintro ⟨_, ⟨hdigits, rfl⟩, rfl⟩
    exact ⟨hdigits, rfl⟩
  · rintro ⟨hdigits, rfl⟩
    exact ⟨_, ⟨hdigits, rfl⟩, rfl⟩

/-- The monitor writes its static lines and those of every pass, where all of them fit. -/
theorem monitorCalls_eq_some_iff {after : UInt16 → Nat → UInt8} {views : List View}
    {calls : List VideoCall} :
    monitorCalls after views = some calls ↔ (∀ v ∈ views, v.rateDigits ≤ 44) ∧
      calls = drawStatic after ++ views.flatMap fun v => screenLines v.before v.lines := by
  simp only [monitorCalls, Option.map_eq_some_iff, mapM_eq_some_iff_of draw_eq_some_iff]
  constructor
  · rintro ⟨_, ⟨hdigits, rfl⟩, rfl⟩
    exact ⟨hdigits, rfl⟩
  · rintro ⟨hdigits, rfl⟩
    exact ⟨_, ⟨hdigits, rfl⟩, rfl⟩

/-! ## The runs -/

section Runs

variable {B : Bios δ} {d : δ} {after : UInt16 → Nat → UInt8}

theorem Shows.congr {lines lines' : Nat → List UInt8} (h : Shows B d lines)
    (heq : ∀ row < 25, lines row = lines' row) : Shows B d lines' := by
  intro row hrow col hcol
  rw [← heq row hrow]
  exact h row hrow col hcol

/-- A cleared screen shows empty lines. -/
theorem shows_screenClear : Shows B (B.run screenClear d) fun _ => [] := by
  intro row hrow col hcol
  show B.cell (B.video (screenGoto 1 1) (B.video _ d)) row col = _
  rw [screenGoto, B.cell_setCursor, B.cell_scrollUp d row col hrow hcol]
  rfl

/-- The static lines are printable and stand in rows of the screen. -/
theorem writable_staticLines : Writable staticLines := by
  unfold Writable
  decide

/-- The static lines are on the screen before the first pass. -/
theorem shows_drawStatic : Shows B (B.run (drawStatic after) d) (shownLine none) := by
  rw [drawStatic, Bios.run_append]
  refine (shows_screenLines after writable_staticLines shows_screenClear).congr fun row hrow => ?_
  interval_cases row
  all_goals rfl

/-- By induction over the passes: each writes the same rows, so that the last is shown. -/
theorem shows_views {last : Option View} (views : List View) (h : Shows B d (shownLine last)) :
    Shows B (B.run (views.flatMap fun v => screenLines v.before v.lines) d)
      (shownLine (views.getLast?.or last)) := by
  induction views generalizing d last with
  | nil => exact h
  | cons v views ih =>
    have hpass : Shows B (B.run (screenLines v.before v.lines) d) (shownLine (some v)) :=
      (shows_screenLines v.before (writable_lines v) h).congr fun row _ =>
        overwrite_lines last v row
    have hlast : (v :: views).getLast?.or last = views.getLast?.or (some v) := by
      rw [List.getLast?_cons]
      cases views.getLast? with
      | none => rfl
      | some w => rfl
    rw [List.flatMap_cons, Bios.run_append, hlast]
    exact ih hpass

/-- After any number of passes the screen shows the last one. -/
theorem shows_monitorCalls {views : List View} {calls : List VideoCall}
    (h : monitorCalls after views = some calls) :
    Shows B (B.run calls d) (shownLine views.getLast?) := by
  rw [(monitorCalls_eq_some_iff.mp h).2, Bios.run_append]
  have hstatic : Shows B (B.run (drawStatic after) d) (shownLine none) := shows_drawStatic
  have hviews := shows_views views hstatic
  rwa [Option.or_none] at hviews

end Runs

/-- **What the screen shows.** However often the program draws, and whatever it finds each time, no
line runs past the array exactly when the seven rates of the last line have at most 44 digits
together. Then the screen holds the lines of `draw_static` and those of the last pass, cut to 79
characters, with the ticks where the line of IRQ 15 was written. -/
theorem monitor_screen (B : Bios δ) (d : δ) (after : UInt16 → Nat → UInt8) (views : List View) :
    ((∃ calls, monitorCalls after views = some calls) ↔ ∀ v ∈ views, v.rateDigits ≤ 44) ∧
    ∀ calls, monitorCalls after views = some calls →
      Shows B (B.run calls d) (shownLine views.getLast?) := by
  refine ⟨⟨?_, fun h => ⟨_, monitorCalls_eq_some_iff.mpr ⟨h, rfl⟩⟩⟩, fun calls h => ?_⟩
  · rintro ⟨calls, hcalls⟩
    exact (monitorCalls_eq_some_iff.mp hcalls).1
  · exact shows_monitorCalls h

/-! ## IRQ 15 -/

/-- The first two characters of a line. -/
def lineStart (text : List UInt8) : UInt8 × UInt8 := (text.getD 0 0x20, text.getD 1 0x20)

/-- The line of a vector starts with the two digits of its number. -/
theorem lineStart_vectorLine (v : View) (i : Fin 16) :
    lineStart (render (v.vectorLine i)) = lineStart (Piece.unsigned 2 i.val).render := by
  have hlen : 2 ≤ (Piece.unsigned 2 i.val).render.length := by
    rw [Piece.length_render]
    exact Nat.le_max_left 2 _
  rw [View.vectorLine, render, List.flatMap_cons, lineStart, lineStart,
    List.getD_append _ _ _ _ (by omega), List.getD_append _ _ _ _ (by omega)]

/-- The line of IRQ 15 would start with `15`. -/
theorem lineStart_irq15 (v : View) : lineStart (render (v.vectorLine 15)) = (0x31, 0x35) := by
  rw [lineStart_vectorLine]
  simp [Piece.render, Format.decimal, lineStart, Text.digit]

/-- No row of the screen starts with `15`: the line of IRQ 15 is written over by that of the ticks.
-/
theorem lineStart_shownLine (last : Option View) {row : Nat} (hrow : row < 25) :
    lineStart (shownLine last row) ≠ (0x31, 0x35) := by
  -- neither a static line nor that of the ticks or of the sample starts so
  have hstatic : lineStart (staticLine row) ≠ (0x31, 0x35) := by
    interval_cases row
    all_goals decide
  cases last with
  | none => exact hstatic
  | some v =>
    rw [shownLine]
    split
    next hvector =>
      -- and of the vectors only those up to 14 are left
      have hnot : ∀ i < 15, lineStart (Piece.unsigned 2 i).render ≠ (0x31, 0x35) := by
        intro i hi
        interval_cases i
        all_goals simp [Piece.render, Format.decimal, lineStart, Text.digit]
      rw [lineStart_vectorLine]
      exact hnot _ (show row - 5 < 15 by omega)
    next =>
      split
      next => exact fun h => absurd (congrArg Prod.fst h) (show (0x42 : UInt8) ≠ 0x31 by decide)
      next =>
        split
        next => exact fun h => absurd (congrArg Prod.fst h) (show (0x73 : UInt8) ≠ 0x31 by decide)
        next => exact hstatic

/-- The first two columns of a row. -/
theorem Shows.lineStart_eq {B : Bios δ} {d : δ} {lines : Nat → List UInt8} (h : Shows B d lines)
    {row : Nat} (hrow : row < 25) :
    (B.cell d row 0, B.cell d row 1) = lineStart (lines row) := by
  rw [h row hrow 0 (by decide), h row hrow 1 (by decide)]
  cases lines row with
  | nil => rfl
  | cons c text =>
    cases text with
    | nil => rfl
    | cons c' text => rfl

/-- **The line of IRQ 15.** Each pass writes it, on row 21, but after a pass no row of the screen
starts as it does. -/
theorem irq15_hidden (B : Bios δ) (d : δ) (after : UInt16 → Nat → UInt8) (views : List View)
    (calls : List VideoCall) (h : monitorCalls after views = some calls) :
    ∀ v ∈ views,
      screenText (v.before 21) 1 21 79 (render (v.vectorLine 15)) <:+: calls ∧
      ∀ row < 25, (B.cell (B.run calls d) row 0, B.cell (B.run calls d) row 1) ≠
        lineStart (render (v.vectorLine 15)) := by
  intro v hv
  refine ⟨?_, fun row hrow => ?_⟩
  · -- every pass writes the line with the others
    have hmem : (21, render (v.vectorLine 15)) ∈ v.lines :=
      List.mem_append_left _ (List.mem_map.mpr ⟨15, List.mem_finRange 15, rfl⟩)
    have hline : screenText (v.before 21) 1 21 79 (render (v.vectorLine 15)) <:+:
        screenLines v.before v.lines := by
      rw [screenLines, List.flatMap_def]
      exact List.infix_of_mem_flatten (List.mem_map.mpr ⟨_, hmem, rfl⟩)
    have hpass : screenLines v.before v.lines <:+:
        views.flatMap fun v => screenLines v.before v.lines := by
      rw [List.flatMap_def]
      exact List.infix_of_mem_flatten (List.mem_map.mpr ⟨v, hv, rfl⟩)
    rw [(monitorCalls_eq_some_iff.mp h).2]
    exact (hline.trans hpass).trans (List.suffix_append _ _).isInfix
  · -- but the screen shows the last pass
    have hshows : Shows B (B.run calls d) (shownLine views.getLast?) := shows_monitorCalls h
    rw [hshows.lineStart_eq hrow, lineStart_irq15]
    exact lineStart_shownLine _ hrow

/-- A screen in memory, with its cursor. -/
structure TextScreen where
  cursor : Nat × Nat
  cell : Nat → Nat → UInt8

/-- The services on such a screen, without those of control characters and of the last column. -/
def TextScreen.video : VideoCall → TextScreen → TextScreen
  | .setCursor row col, s => { s with cursor := (row.toNat, col.toNat) }
  | .scrollUp _ _ top left bottom right, s =>
    { s with cell := fun row col =>
        if top.toNat ≤ row ∧ row ≤ bottom.toNat ∧ left.toNat ≤ col ∧ col ≤ right.toNat then 0x20
        else s.cell row col }
  | .teletype ch, s =>
    { cursor := (s.cursor.1, s.cursor.2 + 1)
      cell := Function.update s.cell s.cursor.1
        (Function.update (s.cell s.cursor.1) s.cursor.2 ch) }

def textBios : Bios TextScreen where
  video := TextScreen.video
  cursor := TextScreen.cursor
  cell := TextScreen.cell
  cursor_setCursor _ _ _ _ _ := rfl
  cell_setCursor _ _ _ := rfl
  cursor_teletype _ _ _ _ hcursor _ _ _ := by simp only [TextScreen.video, hcursor]
  cell_teletype _ _ _ _ hcursor _ _ _ := by simp only [TextScreen.video, hcursor]
  cell_scrollUp _ row col hrow hcol :=
    if_pos ⟨Nat.zero_le row, Nat.le_of_lt_succ hrow, Nat.zero_le col, Nat.le_of_lt_succ hcol⟩

/-- A pass that finds the counters at 0. -/
def quietView : View where
  oldHandlers _ := ⟨0xF000, 0xFEA5⟩
  vectors _ := .null
  irqCounts _ := 0
  rates _ := 0
  biosTicks := 0
  master := 0xB8
  slave := 0xFF
  before _ _ := 0xCC

theorem irq15_hidden_quietView :
    ∃ calls, monitorCalls (fun _ _ => 0) [quietView] = some calls ∧
      ∀ row < 25, (textBios.cell (textBios.run calls ⟨(0, 0), fun _ _ => 0⟩) row 0,
        textBios.cell (textBios.run calls ⟨(0, 0), fun _ _ => 0⟩) row 1) ≠
          lineStart (render (quietView.vectorLine 15)) := by
  have hdigits : ∀ v ∈ [quietView], v.rateDigits ≤ 44 := by
    intro v hv
    rw [List.mem_singleton.mp hv]
    decide
  have hcalls : monitorCalls (fun _ _ => 0) [quietView] = some _ :=
    monitorCalls_eq_some_iff.mpr ⟨hdigits, rfl⟩
  exact ⟨_, hcalls, (irq15_hidden textBios _ _ _ _ hcalls quietView (List.mem_singleton_self _)).2⟩

end NioApps.Irqmon
