import NioApps.Lib.Loop
import NioApps.Lib.Word
import Mathlib.Data.List.Nodup
import Mathlib.Logic.Function.Basic

/-!
# Lib — a subset of the m68k instruction set

Programs as listings of labels and instructions over eight data and eight address registers, and
memory that is byte-addressed modulo `2 ^ 32` and big-endian. `step` carries out the line at the
program counter. The code itself is no part of the data memory.

The flags N and V are left out: no condition of the subset reads them. `reads` is the log of every
byte of data read, oldest first.

* `bytesFrom_storeBytes` — what was stored is read back.
* `low_setLow` — an operation on a part of a register leaves its result in that part.
-/

namespace NioApps.M68k

abbrev Long := BitVec 32

/-! ## Operand sizes -/

inductive Size where
  | byte
  | word
  | long
  deriving DecidableEq

def Size.bytes : Size → Nat
  | .byte => 1
  | .word => 2
  | .long => 4

/-- How many values an operand of the size can have. -/
def Size.modulus : Size → Nat
  | .byte => 256
  | .word => 65536
  | .long => 4294967296

@[simp] theorem Size.bytes_byte : Size.byte.bytes = 1 := rfl
@[simp] theorem Size.bytes_word : Size.word.bytes = 2 := rfl
@[simp] theorem Size.bytes_long : Size.long.bytes = 4 := rfl
@[simp] theorem Size.modulus_byte : Size.byte.modulus = 256 := rfl
@[simp] theorem Size.modulus_word : Size.word.modulus = 65536 := rfl
@[simp] theorem Size.modulus_long : Size.long.modulus = 4294967296 := rfl

/-- The part of a register an operation of size `sz` works on. -/
def low (sz : Size) (r : Long) : Nat := r.toNat % sz.modulus

/-- A register whose part of size `sz` was replaced, the rest of it kept. -/
def setLow (sz : Size) (r : Long) (v : Nat) : Long :=
  BitVec.ofNat 32 (r.toNat / sz.modulus * sz.modulus + v % sz.modulus)

@[simp] theorem low_zero (sz : Size) : low sz 0#32 = 0 := Nat.zero_mod _

@[simp] theorem low_long (r : Long) : low .long r = r.toNat := Nat.mod_eq_of_lt r.isLt

/-- The low part of a register that was just written. -/
theorem low_setLow (sz : Size) (r : Long) (v : Nat) : low sz (setLow sz r v) = v % sz.modulus := by
  have hr : r.toNat < 4294967296 := r.isLt
  unfold low setLow
  rw [BitVec.toNat_ofNat]
  cases sz
  all_goals
    simp only [Size.modulus_byte, Size.modulus_word, Size.modulus_long]
    omega

@[simp] theorem setLow_long (r : Long) (v : Nat) : setLow .long r v = BitVec.ofNat 32 v := by
  have hr : r.toNat < 4294967296 := r.isLt
  apply BitVec.eq_of_toNat_eq
  rw [setLow, BitVec.toNat_ofNat, BitVec.toNat_ofNat, Size.modulus_long]
  omega

/-- A word moved into a cleared register is extended with zeros. -/
theorem setLow_zero (sz : Size) (v : Nat) :
    setLow sz 0#32 v = BitVec.ofNat 32 (v % sz.modulus) := by
  rw [setLow, show (0#32).toNat = 0 from rfl, Nat.zero_div, Nat.zero_mul, Nat.zero_add]

/-! ## Memory -/

abbrev Mem := Long → UInt8

/-- The addresses of `n` bytes from `addr` on. -/
def addrsFrom (addr : Long) (n : Nat) : List Long :=
  (List.range n).map fun i => addr + BitVec.ofNat 32 i

def bytesFrom (mem : Mem) (addr : Long) (n : Nat) : List UInt8 := (addrsFrom addr n).map mem

/-- The number that stands in memory in big-endian order. -/
def valueAt (mem : Mem) (addr : Long) (n : Nat) : Nat := leValue (bytesFrom mem addr n).reverse

/-- Memory after the bytes `bs` were stored from `addr` on. -/
def storeBytes (mem : Mem) (addr : Long) (bs : List UInt8) : Mem :=
  fun a => (bs[(a - addr).toNat]?).getD (mem a)

def storeValue (mem : Mem) (addr : Long) (n v : Nat) : Mem :=
  storeBytes mem addr (leBytes n v).reverse

@[simp] theorem length_addrsFrom (addr : Long) (n : Nat) : (addrsFrom addr n).length = n := by
  rw [addrsFrom, List.length_map, List.length_range]

@[simp] theorem length_bytesFrom (mem : Mem) (addr : Long) (n : Nat) :
    (bytesFrom mem addr n).length = n := by
  rw [bytesFrom, List.length_map, length_addrsFrom]

theorem mem_addrsFrom {addr a : Long} {n : Nat} (h : a ∈ addrsFrom addr n) :
    ∃ i < n, a = addr + BitVec.ofNat 32 i := by
  obtain ⟨i, hi, rfl⟩ := List.mem_map.mp h
  exact ⟨i, List.mem_range.mp hi, rfl⟩

@[simp] theorem addrsFrom_zero (addr : Long) : addrsFrom addr 0 = [] := rfl

@[simp] theorem bytesFrom_zero (mem : Mem) (addr : Long) : bytesFrom mem addr 0 = [] := rfl

theorem addrsFrom_succ (addr : Long) (n : Nat) :
    addrsFrom addr (n + 1) = addrsFrom addr n ++ [addr + BitVec.ofNat 32 n] := by
  rw [addrsFrom, List.range_succ, List.map_append, List.map_singleton]
  rfl

theorem bytesFrom_succ (mem : Mem) (addr : Long) (n : Nat) :
    bytesFrom mem addr (n + 1) = bytesFrom mem addr n ++ [mem (addr + BitVec.ofNat 32 n)] := by
  rw [bytesFrom, addrsFrom_succ, List.map_append, List.map_singleton]
  rfl

/-- How far a block's byte lies from the block's start. -/
theorem offset_toNat (addr : Long) {i : Nat} (h : i < 4294967296) :
    (addr + BitVec.ofNat 32 i - addr).toNat = i := by
  rw [BitVec.add_comm, BitVec.add_sub_cancel, BitVec.toNat_ofNat, Nat.mod_eq_of_lt h]

/-- Offsets of less than 32 bits lead to different addresses. -/
theorem add_ofNat_inj (addr : Long) {i j : Nat} (hi : i < 4294967296) (hj : j < 4294967296) :
    addr + BitVec.ofNat 32 i = addr + BitVec.ofNat 32 j ↔ i = j := by
  constructor
  · intro heq
    rw [← offset_toNat addr hi, heq, offset_toNat addr hj]
  · intro heq
    rw [heq]

/-- A block no longer than the address space does not meet itself. -/
theorem nodup_addrsFrom (addr : Long) {n : Nat} (h : n ≤ 4294967296) :
    (addrsFrom addr n).Nodup := by
  refine List.Nodup.map_on ?_ List.nodup_range
  intro i hi j hj heq
  have hi' : i < 4294967296 := Nat.lt_of_lt_of_le (List.mem_range.mp hi) h
  have hj' : j < 4294967296 := Nat.lt_of_lt_of_le (List.mem_range.mp hj) h
  exact (add_ofNat_inj addr hi' hj').mp heq

/-- A store touches only the bytes from its address on; the distance is taken modulo `2 ^ 32`. -/
theorem storeBytes_of_ge (mem : Mem) {addr a : Long} {bs : List UInt8}
    (h : bs.length ≤ (a - addr).toNat) : storeBytes mem addr bs a = mem a := by
  rw [storeBytes, List.getElem?_eq_none h, Option.getD_none]

/-- What was stored is read back. -/
theorem bytesFrom_storeBytes (mem : Mem) (addr : Long) {bs : List UInt8}
    (h : bs.length ≤ 4294967296) :
    bytesFrom (storeBytes mem addr bs) addr bs.length = bs := by
  apply List.ext_getElem
  · rw [length_bytesFrom]
  · intro i _ hi
    have hoff := offset_toNat addr (Nat.lt_of_lt_of_le hi h)
    simp only [bytesFrom, addrsFrom, List.getElem_map, List.getElem_range, storeBytes, hoff,
      List.getElem?_eq_getElem hi, Option.getD_some]

/-- A store that meets no byte of a block leaves it alone. -/
theorem bytesFrom_storeBytes_of_ge (mem : Mem) {addr addr' : Long} {n : Nat} {bs : List UInt8}
    (h : ∀ a ∈ addrsFrom addr' n, bs.length ≤ (a - addr).toNat) :
    bytesFrom (storeBytes mem addr bs) addr' n = bytesFrom mem addr' n :=
  List.map_congr_left fun a ha => storeBytes_of_ge mem (h a ha)

theorem bytesFrom_storeValue_of_ge (mem : Mem) {addr addr' : Long} {n k v : Nat}
    (h : ∀ a ∈ addrsFrom addr' k, n ≤ (a - addr).toNat) :
    bytesFrom (storeValue mem addr n v) addr' k = bytesFrom mem addr' k := by
  apply bytesFrom_storeBytes_of_ge
  rwa [List.length_reverse, leBytes_length]

/-- A value that fits its bytes is read back. -/
theorem valueAt_storeValue (mem : Mem) (addr : Long) {n v : Nat} (hn : n ≤ 4294967296)
    (hv : v < 256 ^ n) : valueAt (storeValue mem addr n v) addr n = v := by
  have hlen : (leBytes n v).reverse.length = n := by
    rw [List.length_reverse, leBytes_length]
  have hread := bytesFrom_storeBytes mem addr
    (show (leBytes n v).reverse.length ≤ 4294967296 by rw [hlen]; exact hn)
  rw [hlen] at hread
  rw [valueAt, storeValue, hread, List.reverse_reverse, leValue_leBytes, Nat.mod_eq_of_lt hv]

theorem addrsFrom_one (addr : Long) : addrsFrom addr 1 = [addr] := by
  simp [addrsFrom]

theorem valueAt_one (mem : Mem) (addr : Long) : valueAt mem addr 1 = (mem addr).toNat := by
  rw [valueAt, bytesFrom, addrsFrom_one]
  rfl

theorem valueAt_lt (mem : Mem) (addr : Long) (n : Nat) : valueAt mem addr n < 256 ^ n := by
  have hlt := leValue_lt (bytesFrom mem addr n).reverse
  rwa [List.length_reverse, length_bytesFrom] at hlt

/-! ## Instructions -/

inductive DReg where
  | d0 | d1 | d2 | d3 | d4 | d5 | d6 | d7
  deriving DecidableEq

/-- The address registers; `sp` is A7. -/
inductive AReg where
  | a0 | a1 | a2 | a3 | a4 | a5 | a6 | sp
  deriving DecidableEq

/-- Operands: `Dn`, `d(An)`, `(An)+` and `-(An)`. -/
inductive Ea where
  | data (n : DReg)
  | disp (off : BitVec 16) (n : AReg)
  | postinc (n : AReg)
  | predec (n : AReg)
  deriving DecidableEq

/-- The instructions that only work on data. Those that come in sizes name one; the operand of
`lea` is `(An,Dm.l)`. -/
inductive Op where
  | move (sz : Size) (src dst : Ea)
  | movea (src : Ea) (n : AReg)
  | moveq (v : BitVec 8) (n : DReg)
  | tst (sz : Size) (src : Ea)
  | lea (base : AReg) (index : DReg) (n : AReg)
  | add (sz : Size) (src : Ea) (n : DReg)
  | addx (sz : Size) (m n : DReg)
  | addq (sz : Size) (v : Nat) (n : DReg)
  | subq (sz : Size) (v : Nat) (n : DReg)
  | cmpa (m n : AReg)
  deriving DecidableEq

inductive Cond where
  | eq
  | ne
  | cc
  deriving DecidableEq

/-- The lines of a listing, over labels `ℓ`. -/
inductive Line (ℓ : Type) where
  | label (l : ℓ)
  | op (o : Op)
  | bcc (cond : Cond) (dest : ℓ)
  | dbra (n : DReg) (dest : ℓ)
  | rts
  deriving DecidableEq

abbrev Program (ℓ : Type) := List (Line ℓ)

structure State where
  d : DReg → Long
  a : AReg → Long
  x : Bool
  z : Bool
  c : Bool
  mem : Mem
  reads : List Long
  pc : Nat

/-- How a run ends: back in the caller, or past the listing. -/
inductive Outcome where
  | returned (dest : Long) (s : State)
  | fault (s : State)

namespace State

variable (s : State)

@[simp] def goto (n : Nat) : State := { s with pc := n }

@[simp] def setA (n : AReg) (v : Long) : State := { s with a := Function.update s.a n v }

@[simp] def setD (sz : Size) (n : DReg) (v : Nat) : State :=
  { s with d := Function.update s.d n (setLow sz (s.d n) v) }

/-- Flags after an addition or subtraction: X and C are its carry, Z tells a zero result. -/
@[simp] def arith (carry zero : Bool) : State := { s with x := carry, c := carry, z := zero }

/-- Flags after data was moved or tested: C is cleared, X is kept. -/
@[simp] def tested (v : Nat) : State := { s with z := v == 0, c := false }

/-- How far `(An)+` and `-(An)` move the register. A byte moves the stack pointer by two. -/
@[simp] def stride (sz : Size) (n : AReg) : Long :=
  if sz = .byte ∧ n = .sp then 2 else BitVec.ofNat 32 sz.bytes

/-- The value that stands at `addr`, its bytes logged as read. -/
@[simp] def fetch (sz : Size) (addr : Long) : Nat × State :=
  (valueAt s.mem addr sz.bytes, { s with reads := s.reads ++ addrsFrom addr sz.bytes })

@[simp] def load (sz : Size) : Ea → Nat × State
  | .data n => (low sz (s.d n), s)
  | .disp off n => s.fetch sz (s.a n + off.signExtend 32)
  | .postinc n => (s.setA n (s.a n + stride sz n)).fetch sz (s.a n)
  | .predec n => (s.setA n (s.a n - stride sz n)).fetch sz (s.a n - stride sz n)

@[simp] def put (sz : Size) (addr : Long) (v : Nat) : State :=
  { s with mem := storeValue s.mem addr sz.bytes v }

@[simp] def store (sz : Size) (v : Nat) : Ea → State
  | .data n => s.setD sz n v
  | .disp off n => s.put sz (s.a n + off.signExtend 32) v
  | .postinc n => (s.setA n (s.a n + stride sz n)).put sz (s.a n) v
  | .predec n => (s.setA n (s.a n - stride sz n)).put sz (s.a n - stride sz n) v

@[simp] def holds : Cond → Bool
  | .eq => s.z
  | .ne => !s.z
  | .cc => !s.c

end State

/-- What an instruction does to registers, flags and memory. -/
@[simp] def Op.effect (s : State) : Op → State
  | .move sz src dst =>
    let (v, s) := s.load sz src
    (s.store sz v dst).tested v
  | .movea src n =>
    let (v, s) := s.load .long src
    s.setA n (BitVec.ofNat 32 v)
  | .moveq v n => (s.setD .long n (v.signExtend 32).toNat).tested v.toNat
  | .tst sz src =>
    let (v, s) := s.load sz src
    s.tested v
  | .lea base index n => s.setA n (s.a base + s.d index)
  | .add sz src n =>
    let (v, s) := s.load sz src
    let sum := low sz (s.d n) + v
    (s.setD sz n sum).arith (sz.modulus ≤ sum) (sum % sz.modulus == 0)
  | .addx sz m n =>
    -- Z is only ever cleared, so that a chain of additions is tested as a whole
    let sum := low sz (s.d n) + low sz (s.d m) + s.x.toNat
    (s.setD sz n sum).arith (sz.modulus ≤ sum) (s.z && sum % sz.modulus == 0)
  | .addq sz v n =>
    let sum := low sz (s.d n) + v
    (s.setD sz n sum).arith (sz.modulus ≤ sum) (sum % sz.modulus == 0)
  | .subq sz v n =>
    let old := low sz (s.d n)
    (s.setD sz n (old + (sz.modulus - v))).arith (old < v) (old == v)
  | .cmpa m n => { s with z := s.a n == s.a m, c := (s.a n).toNat < (s.a m).toNat }

/-! ## Execution -/

section Program

variable {ℓ : Type} [DecidableEq ℓ] {p : Program ℓ} {s : State}

/-- The line of a label. -/
def Program.find (p : Program ℓ) (l : ℓ) : Nat := p.findIdx (· = .label l)

/-- The line at the program counter. A branch goes to the line of its label, `rts` back to the
address on the stack, everything else to the next line. -/
def step (p : Program ℓ) (s : State) : State ⊕ Outcome :=
  match p[s.pc]? with
  | none => .inr (.fault s)
  | some (.label _) => .inl (s.goto (s.pc + 1))
  | some (.op o) => .inl ((o.effect s).goto (s.pc + 1))
  | some (.bcc cond dest) => .inl (s.goto (if s.holds cond then p.find dest else s.pc + 1))
  | some (.dbra n dest) =>
    -- the low word counts down, and the loop ends when it was zero
    let s' := s.setD .word n (low .word (s.d n) + 65535)
    .inl (s'.goto (if low .word (s'.d n) = 65535 then s.pc + 1 else p.find dest))
  | some .rts =>
    let (dest, s) := s.load .long (.postinc .sp)
    .inr (.returned (BitVec.ofNat 32 dest) s)

/-- `rts` ends the call at the address on the stack. -/
theorem returns_of_rts (h : p[s.pc]? = some .rts) :
    Loop.Returns (step p) s
      (.returned (BitVec.ofNat 32 (valueAt s.mem (s.a .sp) 4)) (s.load .long (.postinc .sp)).2) := by
  apply Loop.Returns.of_step
  rw [step, h]
  rfl

/-- Operations carried out one after the other. -/
def runOps (s : State) (ops : List Op) : State :=
  ops.foldl (fun s o => (o.effect s).goto (s.pc + 1)) s

/-- Straight-line code moves on by one for each instruction. -/
theorem runOps_pc (s : State) (ops : List Op) : (runOps s ops).pc = s.pc + ops.length := by
  induction ops generalizing s with
  | nil => rfl
  | cons o ops ih =>
    show (runOps ((o.effect s).goto (s.pc + 1)) ops).pc = _
    rw [ih, List.length_cons]
    show s.pc + 1 + ops.length = _
    omega

/-- **The block rule.** Lines without a branch run as the composition of their effects. -/
theorem reaches_runOps {ops : List Op} (h : ops.map .op <+: p.drop s.pc) :
    Loop.Reaches (step p) s (runOps s ops) := by
  induction ops generalizing s with
  | nil => exact .refl _ s
  | cons o ops ih =>
    rw [List.map_cons, List.cons_prefix_iff] at h
    obtain ⟨rest, hdrop, hops⟩ := h
    have hline : p[s.pc]? = some (.op o) := by
      rw [← List.head?_drop, hdrop, List.head?_cons]
    have hstep : step p s = .inl ((o.effect s).goto (s.pc + 1)) := by
      rw [step, hline]
    have hrest : p.drop ((o.effect s).goto (s.pc + 1)).pc = rest := by
      show p.drop (s.pc + 1) = rest
      rw [← List.tail_drop, hdrop, List.tail_cons]
    exact .head hstep (ih (by rw [hrest]; exact hops))

/-- The block rule, with the state a block ends in named rather than computed. -/
theorem reaches_block (p : Program ℓ) (s : State) (ops : List Op)
    (h : ops.map .op <+: p.drop s.pc) :
    ∃ t, t = runOps s ops ∧ t.pc = s.pc + ops.length ∧ Loop.Reaches (step p) s t :=
  ⟨_, rfl, runOps_pc s ops, reaches_runOps h⟩

end Program

end NioApps.M68k
