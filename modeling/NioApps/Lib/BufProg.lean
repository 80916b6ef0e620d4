import Mathlib.Tactic.Common

/-!
# Lib — programs that read a byte buffer

A `BufProg ε α` is a program whose only access to memory is to read bytes of one buffer by
index, and which reports events of type `ε` on the way to a result of type `α`. It is the
tree of its reads: what happens next is a function of the byte read. A program can therefore
not look at a byte without the read standing in the tree, so its footprint on a memory (the
indices it reads there, in order) is exact by construction.

* `exec` — value, events and footprint of a program on a memory.
* `exec_congr` — two memories that agree on the footprint give the same value, the same
  events and the same footprint. "Depends only on the bytes it reads" is this theorem.
* `ReadsBelow` — every index read is below a limit, with the rules that carry it through
  `bind` and through the copying of a block.
-/

namespace NioApps

universe u v

/-- A program reading bytes of one buffer and reporting events. -/
inductive BufProg (ε : Type v) (α : Type u) : Type (max u v) where
  | done (a : α) : BufProg ε α
  | read (i : Nat) (next : UInt8 → BufProg ε α) : BufProg ε α
  | emit (e : ε) (rest : BufProg ε α) : BufProg ε α

namespace BufProg

variable {ε : Type v} {α β : Type u}

/-- Sequencing: the second program starts from the first one's value. -/
def bind : BufProg ε α → (α → BufProg ε β) → BufProg ε β
  | .done a, f => f a
  | .read i next, f => .read i fun b => (next b).bind f
  | .emit e rest, f => .emit e (rest.bind f)

instance : Monad (BufProg ε) where
  pure := .done
  bind := bind

/-- What a program does on a memory. -/
structure Outcome (ε : Type v) (α : Type u) where
  value : α
  events : List ε
  reads : List Nat
  deriving DecidableEq

def exec (m : Nat → UInt8) : BufProg ε α → Outcome ε α
  | .done a => ⟨a, [], []⟩
  | .read i next =>
    let r := exec m (next (m i))
    { r with reads := i :: r.reads }
  | .emit e rest =>
    let r := exec m rest
    { r with events := e :: r.events }

@[simp] theorem exec_pure (m : Nat → UInt8) (a : α) :
    exec m (pure a : BufProg ε α) = ⟨a, [], []⟩ := rfl

@[simp] theorem exec_read (m : Nat → UInt8) (i : Nat) (next : UInt8 → BufProg ε α) :
    exec m (.read i next) = { exec m (next (m i)) with
      reads := i :: (exec m (next (m i))).reads } := rfl

@[simp] theorem exec_emit (m : Nat → UInt8) (e : ε) (rest : BufProg ε α) :
    exec m (.emit e rest) = { exec m rest with events := e :: (exec m rest).events } := rfl

/-- Running a sequence: the events and the reads of the two parts stand one after the other. -/
@[simp] theorem exec_bind (m : Nat → UInt8) (p : BufProg ε α) (f : α → BufProg ε β) :
    exec m (p >>= f) =
      ⟨(exec m (f (exec m p).value)).value,
        (exec m p).events ++ (exec m (f (exec m p).value)).events,
        (exec m p).reads ++ (exec m (f (exec m p).value)).reads⟩ := by
  show exec m (p.bind f) = _
  induction p with
  | done a => rfl
  | read i next ih => simp only [bind, exec, ih, List.cons_append]
  | emit e rest ih => simp only [bind, exec, ih, List.cons_append]

/-- **A program depends only on the bytes it reads.** Two memories that agree on the
footprint of a program give the same value, events and footprint. -/
theorem exec_congr {m m' : Nat → UInt8} {p : BufProg ε α}
    (h : ∀ i ∈ (exec m p).reads, m i = m' i) : exec m' p = exec m p := by
  induction p with
  | done a => rfl
  | read i next ih =>
    -- the byte read first is the same, so both memories go on with the same program
    have hi : m i = m' i := h i (by simp)
    have hnext : exec m' (next (m i)) = exec m (next (m i)) :=
      ih (m i) fun j hj => h j (by simp [hj])
    rw [exec_read, exec_read, ← hi, hnext]
  | emit e rest ih =>
    have hrest : exec m' rest = exec m rest := ih fun j hj => h j (by simpa using hj)
    rw [exec_emit, exec_emit, hrest]

def ReadsBelow (m : Nat → UInt8) (n : Nat) (p : BufProg ε α) : Prop :=
  ∀ i ∈ (exec m p).reads, i < n

theorem ReadsBelow.pure (m : Nat → UInt8) (n : Nat) (a : α) :
    ReadsBelow m n (pure a : BufProg ε α) := by
  intro i hi
  simp at hi

/-- One part after another: the second has to read below for the value that the first comes to. -/
theorem ReadsBelow.bind {m : Nat → UInt8} {n : Nat} {p : BufProg ε α} {f : α → BufProg ε β}
    (hp : ReadsBelow m n p) (hf : ReadsBelow m n (f (exec m p).value)) :
    ReadsBelow m n (p >>= f) := by
  intro i hi
  rw [exec_bind] at hi
  rcases List.mem_append.mp hi with hi | hi
  · exact hp i hi
  · exact hf i hi

/-- A program that reads below `n` does not see the memory from `n` on. -/
theorem ReadsBelow.exec_congr {m m' : Nat → UInt8} {n : Nat} {p : BufProg ε α}
    (h : ReadsBelow m n p) (hm : ∀ i < n, m i = m' i) : exec m' p = exec m p :=
  BufProg.exec_congr fun i hi => hm i (h i hi)

/-! ## The primitive programs -/

def byte (i : Nat) : BufProg ε UInt8 := .read i .done

def report (e : ε) : BufProg ε PUnit := .emit e (.done ⟨⟩)

/-- The block of `n` bytes from index `i`: what `memcpy` takes out of the buffer. -/
def block (i : Nat) : Nat → BufProg ε (List UInt8)
  | 0 => pure []
  | n + 1 => do
    let b ← byte i
    let bs ← block (i + 1) n
    pure (b :: bs)

@[simp] theorem exec_byte (m : Nat → UInt8) (i : Nat) :
    exec m (byte i : BufProg ε UInt8) = ⟨m i, [], [i]⟩ := rfl

@[simp] theorem exec_report (m : Nat → UInt8) (e : ε) :
    exec m (report e) = ⟨⟨⟩, [e], []⟩ := rfl

@[simp] theorem exec_block (m : Nat → UInt8) (i n : Nat) :
    exec m (block i n : BufProg ε (List UInt8)) =
      ⟨(List.range' i n).map m, [], List.range' i n⟩ := by
  induction n generalizing i with
  | zero => rfl
  | succ n ih =>
    rw [block, exec_bind, exec_byte, exec_bind, ih (i + 1)]
    simp [List.range'_succ]

theorem ReadsBelow.byte {m : Nat → UInt8} {n i : Nat} (h : i < n) :
    ReadsBelow m n (byte i : BufProg ε UInt8) := by
  intro j hj
  rw [exec_byte, List.mem_singleton] at hj
  omega

/-- A block that ends below. -/
theorem ReadsBelow.block {m : Nat → UInt8} {n i len : Nat} (h : i + len ≤ n) :
    ReadsBelow m n (block i len : BufProg ε (List UInt8)) := by
  intro j hj
  rw [exec_block] at hj
  have hbounds := List.mem_range'_1.mp hj
  omega

end BufProg

end NioApps
