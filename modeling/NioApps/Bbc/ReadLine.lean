import NioApps.Lib.Mos6502

/-!
# Bbc — `bbc_read_line`

The assembler routine that reads a line with OSWORD 0. It moves its four arguments from A and the
argument stack into the control block; the byte that it takes off the stack first goes to the place
of the maximum length and the second to that of the minimum character.

* `bbcReadLine` — the lines of the source.
* `Call` — an entry under the calling convention that its comment states.
* `RightPlaces` — what is asked of a call.
* `rightPlaces_iff` — it holds exactly when the two swapped arguments are the same.
-/

namespace NioApps.Bbc

open Mos6502

/-! ## The environment -/

/-- What the routines outside the source work on: the cursor setting, and a record of the OSWORD
calls with the five bytes of the control block at each. -/
structure World where
  cursor : UInt8
  oswords : List (UInt8 × List UInt8)

/-- The control block that X and Y point to. -/
def blockAt (m : Machine World) : Addr := wordOf m.x m.y

/-- OSWORD 0 may store a line of the maximum length and its terminator, from the buffer on. -/
def InLine (m : Machine World) (addr : Addr) : Prop :=
  (addr - wordOf (m.mem (blockAt m)) (m.mem (blockAt m + 1))).toNat ≤ (m.mem (blockAt m + 2)).toNat

/-- The routines the source calls: `_cursor` of the C library sets the cursor and returns the setting
before, and OSWORD 0 of the MOS reads a line into the buffer. -/
structure Platform where
  cursor : Machine World → Machine World
  osword : Machine World → Machine World
  cursor_a : ∀ m, (cursor m).a = m.world.cursor
  cursor_world : ∀ m, (cursor m).world = { m.world with cursor := m.a }
  cursor_csp : ∀ m, (cursor m).csp = m.csp
  cursor_mem : ∀ m, (cursor m).mem = m.mem
  osword_world : ∀ m, m.a = 0 → (osword m).world = m.world
  osword_csp : ∀ m, m.a = 0 → (osword m).csp = m.csp
  osword_mem : ∀ m, m.a = 0 → ∀ addr, ¬ InLine m addr → (osword m).mem addr = m.mem addr

/-- A call of OSWORD, put on record. -/
def Platform.oswordCall (P : Platform) (m : Machine World) : Machine World :=
  P.osword { m with world :=
    { m.world with oswords := m.world.oswords ++ [(m.a, bytesAt m.mem (blockAt m) 5)] } }

/-! ## The source -/

def oswordReadLine : UInt8 := 0

/-- From the entry to the last store into `line_block`. -/
def fillBlock (lineBlock : Addr) : List (Instr World) :=
  [.sta (lineBlock + 4),
    .jsr popa,
    .sta (lineBlock + 2),
    .jsr popa,
    .sta (lineBlock + 3),
    .jsr popax,
    .sta lineBlock,
    .stx (lineBlock + 1)]

/-- From there to the `rts`. -/
def readLine (P : Platform) (lineBlock oldCursor : Addr) : List (Instr World) :=
  [.ldaImm 1,
    .jsr P.cursor,
    .sta oldCursor,
    .ldaImm oswordReadLine,
    .ldxImm (lo lineBlock),
    .ldyImm (hi lineBlock),
    .jsr P.oswordCall,
    .lda oldCursor,
    .jsr P.cursor,
    .ldaImm 1,
    .ldxImm 0]

/-- `_bbc_read_line`. -/
def bbcReadLine (P : Platform) (lineBlock oldCursor : Addr) : List (Instr World) :=
  fillBlock lineBlock ++ readLine P lineBlock oldCursor

/-! ## Calls -/

/-- A call under the convention of the comment: `max_char` in A, and `min_char`, `size` and the two
bytes of `buf` on the argument stack from the top. The stack, the two variables of the source and
the buffer of `size` characters and a terminator stand apart. -/
structure Call where
  lineBlock : Addr
  oldCursor : Addr
  buf : Addr
  size : UInt8
  minChar : UInt8
  maxChar : UInt8
  entry : Machine World
  inA : entry.a = maxChar
  top : entry.mem entry.csp = minChar
  second : entry.mem (entry.csp + 1) = size
  third : entry.mem (entry.csp + 2) = lo buf
  fourth : entry.mem (entry.csp + 3) = hi buf
  stackApart : 5 ≤ (entry.csp - lineBlock).toNat ∧ 4 ≤ (lineBlock - entry.csp).toNat
  cursorApart : 5 ≤ (oldCursor - lineBlock).toNat
  bufApart : size.toNat < (oldCursor - buf).toNat

def Call.exit (c : Call) (P : Platform) : Machine World :=
  c.entry.line (bbcReadLine P c.lineBlock c.oldCursor)

/-- What is asked of a call: the arguments in their places in the control block, nothing stored
outside the buffer and the variables, four bytes popped, and the cursor as it was. -/
structure RightPlaces (P : Platform) (c : Call) : Prop where
  block : (c.exit P).world.oswords = c.entry.world.oswords ++
    [(0, [lo c.buf, hi c.buf, c.size, c.minChar, c.maxChar])]
  bounded : ∀ addr, 5 ≤ (addr - c.lineBlock).toNat → addr ≠ c.oldCursor →
    c.size.toNat < (addr - c.buf).toNat → (c.exit P).mem addr = c.entry.mem addr
  popped : (c.exit P).csp = c.entry.csp + 4
  cursor : (c.exit P).world.cursor = c.entry.world.cursor

/-! ## The control block -/

section

variable (c : Call)

/-- The arguments on the stack are not in the control block. -/
theorem stack_ne_block {k j : Addr} (hk : k.toNat < 4) (hj : j.toNat < 5) :
    c.entry.csp + k ≠ c.lineBlock + j := by
  have hapart := c.stackApart
  bv_omega

/-- The memory when the control block is filled. -/
def filled : Addr → UInt8 :=
  let m0 := Function.update c.entry.mem (c.lineBlock + 4) c.maxChar
  let m1 := Function.update m0 (c.lineBlock + 2) c.minChar
  let m2 := Function.update m1 (c.lineBlock + 3) c.size
  let m3 := Function.update m2 c.lineBlock (lo c.buf)
  Function.update m3 (c.lineBlock + 1) (hi c.buf)

/-- The machine when the control block is filled. -/
theorem line_fillBlock : c.entry.line (fillBlock c.lineBlock) =
    { a := lo c.buf, x := hi c.buf, y := 0, csp := c.entry.csp + 4, mem := filled c
      world := c.entry.world } := by
  have hne := fun (k j : Addr) => stack_ne_block c (k := k) (j := j)
  -- what was stored so far is not what is popped next
  have hfirst : c.entry.csp ≠ c.lineBlock + 4 := by
    rw [← BitVec.add_zero c.entry.csp]
    exact hne 0 4 (by decide) (by decide)
  have hnext : c.entry.csp + 1 + 1 = c.entry.csp + 2 := BitVec.add_assoc _ _ _
  have hhigh : c.entry.csp + 2 + 1 = c.entry.csp + 3 := BitVec.add_assoc _ _ _
  have hpopped : c.entry.csp + 2 + 2 = c.entry.csp + 4 := BitVec.add_assoc _ _ _
  simp only [fillBlock, Machine.line_cons, Machine.line_nil, Machine.exec, popa, popax, filled,
    c.inA, hnext, hhigh, hpopped, Function.update_of_ne hfirst,
    Function.update_of_ne (hne 1 4 (by decide) (by decide)),
    Function.update_of_ne (hne 1 2 (by decide) (by decide)),
    Function.update_of_ne (hne 2 4 (by decide) (by decide)),
    Function.update_of_ne (hne 2 2 (by decide) (by decide)),
    Function.update_of_ne (hne 2 3 (by decide) (by decide)),
    Function.update_of_ne (hne 3 4 (by decide) (by decide)),
    Function.update_of_ne (hne 3 2 (by decide) (by decide)),
    Function.update_of_ne (hne 3 3 (by decide) (by decide)),
    c.top, c.second, c.third, c.fourth]

theorem bytesAt_filled :
    bytesAt (filled c) c.lineBlock 5 = [lo c.buf, hi c.buf, c.minChar, c.size, c.maxChar] := by
  show [filled c (c.lineBlock + 0), filled c (c.lineBlock + 1), filled c (c.lineBlock + 2),
    filled c (c.lineBlock + 3), filled c (c.lineBlock + 4)] = _
  simp [filled]

/-- What is not in the control block was not stored to. -/
theorem filled_of_apart {addr : Addr} (hapart : 5 ≤ (addr - c.lineBlock).toNat) :
    filled c addr = c.entry.mem addr := by
  have hne : ∀ j : Addr, j.toNat < 5 → addr ≠ c.lineBlock + j := by
    intro j hj
    bv_omega
  have hne0 : addr ≠ c.lineBlock := by bv_omega
  unfold filled
  rw [Function.update_of_ne (hne 1 (by decide)), Function.update_of_ne hne0,
    Function.update_of_ne (hne 3 (by decide)), Function.update_of_ne (hne 2 (by decide)),
    Function.update_of_ne (hne 4 (by decide))]

/-- `old_cursor` is not in the control block. -/
theorem bytesAt_block (v : UInt8) :
    bytesAt (Function.update (filled c) c.oldCursor v) c.lineBlock 5 =
      [lo c.buf, hi c.buf, c.minChar, c.size, c.maxChar] := by
  rw [← bytesAt_filled]
  apply List.map_congr_left
  intro i hi
  have hlt : i < 5 := List.mem_range.mp hi
  have hapart := c.cursorApart
  apply Function.update_of_ne
  intro heq
  rw [← heq] at hapart
  bv_omega

end

/-! ## The call of OSWORD -/

/-- The machine at the call of OSWORD, and the rest of the routine from there. -/
theorem exit_eq (P : Platform) (c : Call) :
    ∃ m : Machine World, blockAt m = c.lineBlock ∧ m.a = 0 ∧
      m.csp = c.entry.csp + 4 ∧ m.mem = Function.update (filled c) c.oldCursor c.entry.world.cursor ∧
      m.world = ⟨1, c.entry.world.oswords⟩ ∧
      c.exit P = (P.oswordCall m).line
        [.lda c.oldCursor, .jsr P.cursor, .ldaImm 1, .ldxImm 0] := by
  let m0 : Machine World :=
    { a := 1, x := hi c.buf, y := 0, csp := c.entry.csp + 4, mem := filled c
      world := c.entry.world }
  let m1 := P.cursor m0
  -- the machine just before OSWORD, after the old cursor has been stored
  refine ⟨{ m1 with
      a := oswordReadLine, x := lo c.lineBlock, y := hi c.lineBlock
      mem := Function.update m1.mem c.oldCursor m1.a }, ?_, rfl, ?_, ?_, ?_, ?_⟩
  · exact wordOf_lo_hi c.lineBlock
  · exact P.cursor_csp m0
  · dsimp only
    rw [P.cursor_mem m0, P.cursor_a m0]
  · exact P.cursor_world m0
  · rw [Call.exit, bbcReadLine, Machine.line_append, line_fillBlock]
    rfl

/-- With `min_char` for a maximum length, the line the MOS stores is within `min_char` of the
buffer. -/
theorem not_inLine_of_far {c : Call} {m : Machine World} (hblock : blockAt m = c.lineBlock)
    (hbytes : bytesAt m.mem c.lineBlock 5 = [lo c.buf, hi c.buf, c.minChar, c.size, c.maxChar])
    {addr : Addr} (hfar : c.minChar.toNat < (addr - c.buf).toNat) : ¬ InLine m addr := by
  have hfields : [m.mem (c.lineBlock + 0), m.mem (c.lineBlock + 1), m.mem (c.lineBlock + 2),
      m.mem (c.lineBlock + 3), m.mem (c.lineBlock + 4)] =
        [lo c.buf, hi c.buf, c.minChar, c.size, c.maxChar] := hbytes
  simp only [List.cons.injEq] at hfields
  obtain ⟨hlow, hhigh, hmax, -⟩ := hfields
  rw [show c.lineBlock + 0 = c.lineBlock from BitVec.add_zero _] at hlow
  rw [InLine, hblock, hlow, hhigh, hmax, wordOf_lo_hi]
  exact Nat.not_le_of_lt hfar

/-- What a call leaves: the block OSWORD saw, and memory, stack and cursor in terms of what OSWORD
leaves. -/
theorem exit_spec (P : Platform) (c : Call) :
    (c.exit P).world.oswords = c.entry.world.oswords ++
        [(0, [lo c.buf, hi c.buf, c.minChar, c.size, c.maxChar])] ∧
      (c.exit P).csp = c.entry.csp + 4 ∧
      (c.exit P).world.cursor = (c.exit P).mem c.oldCursor ∧
      ∀ addr, c.minChar.toNat < (addr - c.buf).toNat →
        (c.exit P).mem addr =
          Function.update (filled c) c.oldCursor c.entry.world.cursor addr := by
  obtain ⟨m, hblock, ha, hcsp, hmem, hworld, hexit⟩ := exit_eq P c
  -- the line block still holds the five bytes: the old cursor is stored elsewhere
  have hbytes : bytesAt m.mem c.lineBlock 5 =
      [lo c.buf, hi c.buf, c.minChar, c.size, c.maxChar] := by
    rw [hmem]
    exact bytesAt_block c _
  let called : Machine World := { m with world :=
    { m.world with oswords := m.world.oswords ++ [(m.a, bytesAt m.mem (blockAt m) 5)] } }
  let last : Machine World := { P.osword called with a := (P.osword called).mem c.oldCursor }
  have hlast : c.exit P = { P.cursor last with a := 1, x := 0 } := hexit
  refine ⟨?_, ?_, ?_, fun addr hfar => ?_⟩
  · rw [hlast]
    show (P.cursor last).world.oswords = _
    rw [P.cursor_world last]
    show (P.osword called).world.oswords = _
    rw [P.osword_world called ha]
    show m.world.oswords ++ [(m.a, bytesAt m.mem (blockAt m) 5)] = _
    rw [hworld, ha, hblock, hbytes]
  · rw [hlast]
    show (P.cursor last).csp = _
    rw [P.cursor_csp last]
    exact (P.osword_csp called ha).trans hcsp
  · rw [hlast]
    show (P.cursor last).world.cursor = (P.cursor last).mem c.oldCursor
    rw [P.cursor_world last, P.cursor_mem last]
  · rw [hlast]
    show (P.cursor last).mem addr = _
    rw [P.cursor_mem last, ← hmem]
    -- OSWORD stores the line within the buffer and its terminator
    exact P.osword_mem called ha addr (not_inLine_of_far (m := called) hblock hbytes hfar)

/-- **When the arguments are in their places.** The maximum length that the MOS is given is
`min_char` and the minimum character is `size`; the stack is popped and the cursor restored on every
call, and all is right exactly when the two arguments are the same. -/
theorem rightPlaces_iff (P : Platform) (c : Call) : RightPlaces P c ↔ c.size = c.minChar := by
  obtain ⟨hosword, hcsp, hcursor, hmem⟩ := exit_spec P c
  constructor
  · intro hright
    have hblock := List.append_cancel_left (hosword.symm.trans hright.block)
    simp only [List.cons.injEq, Prod.mk.injEq] at hblock
    exact hblock.1.2.2.2.1.symm
  · intro hsame
    refine ⟨?_, fun addr hapart hold hfar => ?_, hcsp, ?_⟩
    · rw [hosword, hsame]
    · rw [hmem addr (hsame ▸ hfar), Function.update_of_ne hold, filled_of_apart c hapart]
    · rw [hcursor, hmem c.oldCursor (hsame ▸ c.bufApart), Function.update_self]

/-- A MOS at which Return is pressed at once. -/
def emptyLine : Platform where
  cursor m := { m with a := m.world.cursor, world := { m.world with cursor := m.a } }
  osword m :=
    { m with mem :=
      Function.update m.mem (wordOf (m.mem (blockAt m)) (m.mem (blockAt m + 1))) 0x0D }
  cursor_a _ := rfl
  cursor_world _ := rfl
  cursor_csp _ := rfl
  cursor_mem _ := rfl
  osword_world _ _ := rfl
  osword_csp _ _ := rfl
  osword_mem m _ addr hfar := by
    apply Function.update_of_ne
    rintro rfl
    apply hfar
    rw [InLine, BitVec.sub_self]
    exact Nat.zero_le _

/-- `bbc_read_line(buf, 80, 32, 126)`. -/
def commonCall : Call where
  lineBlock := 0x2000
  oldCursor := 0x2005
  buf := 0x3000
  size := 80
  minChar := 32
  maxChar := 126
  entry :=
    { a := 126, x := 0, y := 0, csp := 0x7000
      mem := fun addr =>
        if addr = 0x7000 then 32
        else if addr = 0x7001 then 80
        else if addr = 0x7003 then 0x30
        else 0
      world := ⟨0, []⟩ }
  inA := rfl
  top := rfl
  second := rfl
  third := rfl
  fourth := rfl
  stackApart := by decide
  cursorApart := by decide
  bufApart := by decide

/-- The MOS is told to take 32 characters, and only those from 80 on. -/
theorem bbcReadLine_swaps_size :
    (commonCall.exit emptyLine).world.oswords = [(0, [0x00, 0x30, 32, 80, 126])] ∧
      ¬ RightPlaces emptyLine commonCall := by
  have hosword := (exit_spec emptyLine commonCall).1
  refine ⟨hosword, fun hright => ?_⟩
  have hblock := hosword.symm.trans hright.block
  revert hblock
  decide

end NioApps.Bbc
