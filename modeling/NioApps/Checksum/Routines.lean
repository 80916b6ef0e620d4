import NioApps.Lib.M68k

/-!
# Checksum — the routines of `checksumbench_asm.s`

The two hand-written checksum routines, line by line, and the fold their header comment gives as
the algorithm. Arguments are on the stack: the data pointer at `4(sp)`, the length in the low word
of the slot at `8(sp)`.

* `fnCalcChecksumAsm` — folds the carry with ADDX and compares pointers.
* `fnCalcChecksumAsmBranch` — folds the carry with a branch and counts with DBRA.
* `Folded` — the part of the loop invariant the two have in common.
-/

namespace NioApps.Checksum

open M68k

/-! ## The algorithm -/

/-- One byte of the fold: `sum = chk + byte; chk = (sum & 0xff) + (sum >> 8)`. -/
def foldByte (chk : Nat) (b : UInt8) : Nat :=
  let sum := chk + b.toNat
  (sum &&& 0xFF) + (sum >>> 8)

def calcChecksum (bytes : List UInt8) : Nat := bytes.foldl foldByte 0

@[simp] theorem calcChecksum_nil : calcChecksum [] = 0 := rfl

theorem foldByte_eq (chk : Nat) (b : UInt8) :
    foldByte chk b = (chk + b.toNat) % 256 + (chk + b.toNat) / 256 := by
  rw [foldByte, Nat.shiftRight_eq_div_pow]
  exact congrArg (· + _) (Nat.and_two_pow_sub_one_eq_mod _ 8)

theorem foldByte_lt {chk : Nat} (h : chk < 256) (b : UInt8) : foldByte chk b < 256 := by
  have hb : b.toNat < 256 := b.toNat_lt
  rw [foldByte_eq]
  omega

theorem calcChecksum_snoc (bytes : List UInt8) (b : UInt8) :
    calcChecksum (bytes ++ [b]) = foldByte (calcChecksum bytes) b := by
  rw [calcChecksum, List.foldl_append]
  rfl

theorem foldl_foldByte_lt (bytes : List UInt8) {chk : Nat} (h : chk < 256) :
    bytes.foldl foldByte chk < 256 := by
  induction bytes generalizing chk with
  | nil => exact h
  | cons b bytes ih => exact ih (foldByte_lt h b)

theorem calcChecksum_lt (bytes : List UInt8) : calcChecksum bytes < 256 :=
  foldl_foldByte_lt bytes (by decide)

/-! ## The carry -/

/-- ADD and then ADDX of a zero register. -/
theorem addx_fold {chk : Nat} (h : chk < 256) (b : UInt8) :
    (chk + b.toNat + (decide (256 ≤ chk + b.toNat)).toNat) % 256 = foldByte chk b := by
  have hb : b.toNat < 256 := b.toNat_lt
  rw [foldByte_eq]
  rcases Nat.lt_or_ge (chk + b.toNat) 256 with hlow | hcarry
  · rw [decide_eq_false (by omega), show false.toNat = 0 from rfl]
    omega
  · rw [decide_eq_true hcarry, show true.toNat = 1 from rfl]
    omega

/-- ADD, and ADDQ of one when it carried. -/
theorem addq_fold {chk : Nat} (h : chk < 256) (b : UInt8) :
    (if 256 ≤ chk + b.toNat then ((chk + b.toNat) % 256 + 1) % 256 else (chk + b.toNat) % 256) =
      foldByte chk b := by
  have hb : b.toNat < 256 := b.toNat_lt
  rw [foldByte_eq]
  split
  all_goals omega

/-! ## The listings -/

inductive Label where
  | loop
  | done
  | loopB
  | noCarry
  | doneB
  deriving DecidableEq

/-- `_fn_calc_checksum_asm`. -/
def fnCalcChecksumAsm : Program Label := [
  .op (.movea (.disp 4 .sp) .a0),
  .op (.move .word (.disp 10 .sp) (.data .d1)),
  .op (.move .long (.data .d2) (.predec .sp)),
  .op (.moveq 0 .d0),
  .op (.tst .word (.data .d1)),
  .bcc .eq .done,
  .op (.moveq 0 .d2),
  .op (.move .word (.data .d1) (.data .d2)),
  .op (.lea .a0 .d2 .a1),
  .op (.moveq 0 .d2),
  .label .loop,
  .op (.add .byte (.postinc .a0) .d0),
  .op (.addx .byte .d2 .d0),
  .op (.cmpa .a1 .a0),
  .bcc .ne .loop,
  .label .done,
  .op (.move .long (.postinc .sp) (.data .d2)),
  .rts]

/-- `_fn_calc_checksum_asm_branch`. -/
def fnCalcChecksumAsmBranch : Program Label := [
  .op (.movea (.disp 4 .sp) .a0),
  .op (.move .word (.disp 10 .sp) (.data .d1)),
  .op (.moveq 0 .d0),
  .op (.tst .word (.data .d1)),
  .bcc .eq .doneB,
  .op (.subq .word 1 .d1),
  .label .loopB,
  .op (.add .byte (.postinc .a0) .d0),
  .bcc .cc .noCarry,
  .op (.addq .byte 1 .d0),
  .label .noCarry,
  .dbra .d1 .loopB,
  .label .doneB,
  .rts]

/-! ## A call -/

section Call

variable (s : State)

/-- The data pointer, at `4(sp)`. -/
def dataArg : Long := BitVec.ofNat 32 (valueAt s.mem (s.a .sp + 4) 4)

/-- The length, at `10(sp)`. -/
def lenArg : Nat := valueAt s.mem (s.a .sp + 10) 2

/-- The bytes the call is about. -/
def buffer : List UInt8 := bytesFrom s.mem (dataArg s) (lenArg s)

/-- The buffer does not overlap the four bytes below the stack pointer. -/
def BufferClear : Prop :=
  ∀ addr ∈ addrsFrom (dataArg s) (lenArg s), 4 ≤ (addr - (s.a .sp - 4)).toNat

def returnAddress : Long := BitVec.ofNat 32 (valueAt s.mem (s.a .sp) 4)

/-- Where the arguments are read. -/
def argReads : List Long := addrsFrom (s.a .sp + 4) 4 ++ addrsFrom (s.a .sp + 10) 2

theorem lenArg_lt : lenArg s < 65536 := valueAt_lt s.mem (s.a .sp + 10) 2

/-- The length fits the low word it is loaded into. -/
theorem low_lenArg (r : Long) : low .word (setLow .word r (lenArg s)) = lenArg s := by
  rw [low_setLow]
  exact Nat.mod_eq_of_lt (lenArg_lt s)

end Call

/-- What is true of the state a call returns in: the checksum is in D0, D2 and the stack pointer
are as on entry (RTS has taken the return address), and after the arguments and the buffer only
`exitReads` have been read. -/
structure Checked (s₀ s : State) (exitReads : List Long) : Prop where
  chk : low .byte (s.d .d0) = calcChecksum (buffer s₀)
  d2 : s.d .d2 = s₀.d .d2
  sp : s.a .sp = s₀.a .sp + 4
  reads : s.reads = s₀.reads ++ argReads s₀ ++ addrsFrom (dataArg s₀) (lenArg s₀) ++ exitReads

/-! ## The invariant of both loops -/

variable {s₀ s s' : State} {k : Nat}

/-- The first `k` bytes of the buffer have been folded, and nothing but the arguments and they
read. -/
structure Folded (s₀ : State) (k : Nat) (s : State) : Prop where
  chk : low .byte (s.d .d0) = calcChecksum (bytesFrom s₀.mem (dataArg s₀) k)
  ptr : s.a .a0 = dataArg s₀ + BitVec.ofNat 32 k
  reads : s.reads = s₀.reads ++ argReads s₀ ++ addrsFrom (dataArg s₀) k

/-- The low byte of D0 is the checksum of the bytes read so far. -/
theorem Folded.chk_lt (h : Folded s₀ k s) : low .byte (s.d .d0) < 256 := by
  rw [h.chk]
  exact calcChecksum_lt _

/-- One pass through the loop: one byte read, folded in, and the pointer moved on. -/
theorem Folded.succ (h : Folded s₀ k s)
    (hmem : s.mem (s.a .a0) = s₀.mem (dataArg s₀ + BitVec.ofNat 32 k))
    (hchk : low .byte (s'.d .d0) = foldByte (low .byte (s.d .d0)) (s.mem (s.a .a0)))
    (hptr : s'.a .a0 = s.a .a0 + 1) (hreads : s'.reads = s.reads ++ [s.a .a0]) :
    Folded s₀ (k + 1) s' where
  chk := by rw [hchk, h.chk, hmem, bytesFrom_succ, calcChecksum_snoc]
  ptr := by
    rw [hptr, h.ptr, BitVec.add_assoc, BitVec.ofNat_add]
    rfl
  reads := by rw [hreads, h.reads, h.ptr, addrsFrom_succ, List.append_assoc]

end NioApps.Checksum
