import Mathlib.Tactic.Common
import Mathlib.Logic.Function.Basic

/-!
# Lib — straight lines of 6502 code with cc65's argument stack

A line of code loads and stores bytes and calls routines. The machine has the three registers, the
stack pointer of cc65's argument stack, the memory, and whatever else the routines that are called
work on. `popa` and `popax` are the routines of the cc65 runtime that take a byte and two bytes off
the argument stack.

* `line_append` — a line run in two parts.
* `wordOf_lo_hi` — an address put together from its two bytes.
-/

namespace NioApps.Mos6502

abbrev Addr := BitVec 16

/-- `<addr`, the low byte of an address. -/
def lo (addr : Addr) : UInt8 := UInt8.ofNat (addr.toNat % 256)

/-- `>addr`, the high byte of an address. -/
def hi (addr : Addr) : UInt8 := UInt8.ofNat (addr.toNat / 256)

/-- The address with these two bytes. -/
def wordOf (low high : UInt8) : Addr := BitVec.ofNat 16 (low.toNat + 256 * high.toNat)

/-- An address is its two bytes. -/
@[simp] theorem wordOf_lo_hi (addr : Addr) : wordOf (lo addr) (hi addr) = addr := by
  have haddr := addr.isLt
  apply BitVec.eq_of_toNat_eq
  rw [wordOf, BitVec.toNat_ofNat, lo, hi, UInt8.toNat_ofNat', UInt8.toNat_ofNat']
  omega

structure Machine (σ : Type) where
  a : UInt8
  x : UInt8
  y : UInt8
  /-- the stack pointer of the argument stack -/
  csp : Addr
  mem : Addr → UInt8
  world : σ

inductive Instr (σ : Type) where
  | ldaImm (v : UInt8)
  | ldxImm (v : UInt8)
  | ldyImm (v : UInt8)
  | lda (addr : Addr)
  | sta (addr : Addr)
  | stx (addr : Addr)
  | jsr (routine : Machine σ → Machine σ)

variable {σ : Type}

namespace Machine

def exec (m : Machine σ) : Instr σ → Machine σ
  | .ldaImm v => { m with a := v }
  | .ldxImm v => { m with x := v }
  | .ldyImm v => { m with y := v }
  | .lda addr => { m with a := m.mem addr }
  | .sta addr => { m with mem := Function.update m.mem addr m.a }
  | .stx addr => { m with mem := Function.update m.mem addr m.x }
  | .jsr routine => routine m

/-- A straight line of code. -/
def line (m : Machine σ) (code : List (Instr σ)) : Machine σ := code.foldl exec m

@[simp] theorem line_nil (m : Machine σ) : m.line [] = m := rfl

@[simp] theorem line_cons (m : Machine σ) (i : Instr σ) (code : List (Instr σ)) :
    m.line (i :: code) = (m.exec i).line code := rfl

theorem line_append (m : Machine σ) (front back : List (Instr σ)) :
    m.line (front ++ back) = (m.line front).line back := List.foldl_append

end Machine

/-- `popa`: the byte on top of the argument stack into A. -/
def popa (m : Machine σ) : Machine σ := { m with a := m.mem m.csp, y := 0, csp := m.csp + 1 }

/-- `popax`: the two bytes on top of the argument stack into A and X. -/
def popax (m : Machine σ) : Machine σ :=
  { m with a := m.mem m.csp, x := m.mem (m.csp + 1), y := 0, csp := m.csp + 2 }

/-- The bytes from an address on. -/
def bytesAt (mem : Addr → UInt8) (addr : Addr) (n : Nat) : List UInt8 :=
  (List.range n).map fun i => mem (addr + BitVec.ofNat 16 i)

end NioApps.Mos6502
