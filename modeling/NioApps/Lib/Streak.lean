import Mathlib.Data.List.TakeWhile

/-!
# Lib — the elements at the end of a list that satisfy a predicate

`streak p l` is the number of elements at the end of `l` that satisfy `p`. It is what a counter
holds that is stepped for each element with `p` and reset by the others.

* `streak_append_singleton` — one more element.
* `split_concat` — where a list with one more element can be split.
* `exists_streak_iff` — a streak at the end of some prefix is a run anywhere in the list.
-/

namespace NioApps

variable {α : Type*} {p : α → Bool} {l : List α} {n : Nat}

def streak (p : α → Bool) (l : List α) : Nat := (l.reverse.takeWhile p).length

/-- One more makes the streak longer, or ends it. -/
theorem streak_append_singleton (x : α) :
    streak p (l ++ [x]) = if p x then streak p l + 1 else 0 := by
  rw [streak, List.reverse_append, List.reverse_singleton, List.singleton_append,
    List.takeWhile_cons]
  split
  next => rw [List.length_cons, streak]
  next => rfl

/-- The streak is a part of the list at its end. -/
theorem exists_streak (p : α → Bool) (l : List α) :
    ∃ front run, l = front ++ run ∧ run.length = streak p l ∧ ∀ x ∈ run, p x = true := by
  refine ⟨(l.reverse.dropWhile p).reverse, (l.reverse.takeWhile p).reverse, ?_, ?_, ?_⟩
  · rw [← List.reverse_append, List.takeWhile_append_dropWhile, List.reverse_reverse]
  · rw [List.length_reverse, streak]
  · intro x hx
    exact List.mem_takeWhile_imp (List.mem_reverse.mp hx)

/-- A run at the end is part of the streak. -/
theorem length_le_streak {front run : List α} (h : ∀ x ∈ run, p x = true) :
    run.length ≤ streak p (front ++ run) := by
  have hrun : ∀ x ∈ run.reverse, p x = true := fun x hx => h x (List.mem_reverse.mp hx)
  rw [streak, List.reverse_append, List.takeWhile_append_of_pos hrun, List.length_append,
    List.length_reverse]
  exact Nat.le_add_right _ _

/-- Some prefix ends in a streak of `n` exactly when `n` elements in a row satisfy `p`. -/
theorem exists_streak_iff :
    (∃ front, front <+: l ∧ n ≤ streak p front) ↔
      ∃ before run after, l = before ++ run ++ after ∧ run.length = n ∧ ∀ x ∈ run, p x = true := by
  constructor
  · rintro ⟨front, ⟨after, rfl⟩, hn⟩
    obtain ⟨before, run, rfl, hlen, hrun⟩ := exists_streak p front
    -- the last `n` of the streak
    refine ⟨before ++ run.take (run.length - n), run.drop (run.length - n), after, ?_, ?_, ?_⟩
    · simp only [List.append_assoc]
      rw [← List.append_assoc (run.take _), List.take_append_drop]
    · rw [List.length_drop]
      omega
    · exact fun x hx => hrun x (List.mem_of_mem_drop hx)
  · rintro ⟨before, run, after, rfl, rfl, hrun⟩
    exact ⟨before ++ run, List.prefix_append _ _, length_le_streak hrun⟩

/-- A list with one more element, split at an element of it. -/
theorem split_concat {before after : List α} {x c : α}
    (hsplit : l ++ [x] = before ++ c :: after) :
    (before = l ∧ c = x ∧ after = []) ∨ ∃ rest, after = rest ++ [x] ∧ l = before ++ c :: rest := by
  rcases List.eq_nil_or_concat after with rfl | ⟨rest, y, rfl⟩
  · obtain ⟨rfl, hlast⟩ := List.append_inj' hsplit rfl
    exact .inl ⟨rfl, (List.singleton_inj.mp hlast).symm, rfl⟩
  · rw [List.concat_eq_append, ← List.cons_append, ← List.append_assoc] at hsplit
    obtain ⟨rfl, hlast⟩ := List.append_inj' hsplit rfl
    exact .inr ⟨rest, by rw [List.concat_eq_append, List.singleton_inj.mp hlast], rfl⟩

end NioApps
