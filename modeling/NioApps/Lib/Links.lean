import Mathlib.Data.List.Basic

/-!
# Lib — following links a bounded number of times

Nodes with a link to at most one other node, as a heap has them: the links from a node may end, or
go round for ever. A loop with a bound follows them and tells whether it got to the end.

* `Linked` — the nodes that the links lead to.
* `walk` — the loop: the nodes it passes, and the link it is left with.
* `mem_walk`, `mem_walk_iff` — it passes only nodes that the links lead to, and all of them where it
  got to the end.
* `walk_of_ends` — where it got to the end, a larger bound shows nothing more.
-/

namespace NioApps.Links

variable {α : Type*}

/-- The links from `start` lead to the node. -/
inductive Linked (next : α → Option α) : Option α → α → Prop where
  | here (a : α) : Linked next (some a) a
  | there {a b : α} (h : Linked next (next a) b) : Linked next (some a) b

def walk (next : α → Option α) : Nat → Option α → List α × Option α
  | 0, start => ([], start)
  | _ + 1, none => ([], none)
  | n + 1, some a => (a :: (walk next n (next a)).1, (walk next n (next a)).2)

@[simp] theorem walk_none (next : α → Option α) (n : Nat) : walk next n none = ([], none) := by
  cases n with
  | zero => rfl
  | succ n => rfl

/-- Whatever a walk meets is linked to where it starts. -/
theorem mem_walk {next : α → Option α} {n : Nat} {start : Option α} {a : α}
    (h : a ∈ (walk next n start).1) : Linked next start a := by
  induction n generalizing start with
  | zero => cases h
  | succ n ih =>
    cases start with
    | none => cases h
    | some b =>
      rcases List.mem_cons.mp h with rfl | h
      · exact .here a
      · exact .there (ih h)

/-- **A walk that ended has passed every node.** -/
theorem mem_walk_iff {next : α → Option α} {n : Nat} {start : Option α}
    (hends : (walk next n start).2 = none) (a : α) :
    a ∈ (walk next n start).1 ↔ Linked next start a := by
  constructor
  · exact mem_walk
  · intro h
    -- the walk goes along the path that leads to the node
    induction h generalizing n with
    | here a =>
      cases n with
      | zero => cases hends
      | succ n => exact List.mem_cons_self
    | there hrest ih =>
      cases n with
      | zero => cases hends
      | succ n => exact List.mem_cons_of_mem _ (ih hends)

/-- A larger bound makes no difference to a walk that ended. -/
theorem walk_of_ends {next : α → Option α} {n m : Nat} {start : Option α}
    (hends : (walk next n start).2 = none) (hle : n ≤ m) :
    walk next m start = walk next n start := by
  induction n generalizing start m with
  | zero =>
    obtain rfl : start = none := hends
    rw [walk_none, walk_none]
  | succ n ih =>
    obtain ⟨m, rfl⟩ := Nat.exists_eq_add_of_le' (Nat.succ_le_of_lt hle)
    cases start with
    | none => rw [walk_none, walk_none]
    | some a =>
      have hrest : walk next (m + n) (next a) = walk next n (next a) :=
        ih hends (Nat.le_add_left n m)
      exact congrArg (fun rest => (a :: rest.1, rest.2)) hrest

end NioApps.Links
