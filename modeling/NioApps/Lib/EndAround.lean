import Mathlib.Tactic.Ring

/-!
# Lib — sums with an end-around carry

Digits below a base `m` added up with the carry folded back into the sum. Such a sum is the sum
modulo `m - 1`, but zero has two representations: an accumulator that has left 0 comes back to
`m - 1` instead. `residue m s` is the accumulator after digits that add up to `s`.

* `foldl_endAround` — the accumulator depends on the sum of the digits alone.
* `residue_add_eq_iff` — which changes of one digit it does not show.
-/

namespace NioApps

/-- One digit added to the accumulator, and the carry to that. -/
def endAround (m acc v : Nat) : Nat := (acc + v) % m + (acc + v) / m

/-- The accumulator when the digits so far add up to `s`. -/
def residue (m s : Nat) : Nat := if s = 0 then 0 else 1 + (s - 1) % (m - 1)

variable {m v : Nat}

theorem endAround_of_lt {acc : Nat} (h : acc + v < m) : endAround m acc v = acc + v := by
  rw [endAround, Nat.mod_eq_of_lt h, Nat.div_eq_of_lt h, Nat.add_zero]

theorem endAround_of_carry {acc : Nat} (hlo : m ≤ acc + v) (hhi : acc + v < 2 * m) :
    endAround m acc v = acc + v - m + 1 := by
  have hdiv : (acc + v) / m = 1 := Nat.div_eq_of_lt_le (by omega) (by omega)
  rw [endAround, hdiv, Nat.mod_eq_sub_mod hlo, Nat.mod_eq_of_lt (by omega)]

@[simp] theorem residue_zero (m : Nat) : residue m 0 = 0 := rfl

/-- A positive sum is never 0: a multiple of `m - 1` stands as `m - 1`. -/
theorem residue_of_pos {s : Nat} (h : 0 < s) : residue m s = 1 + (s - 1) % (m - 1) :=
  if_neg (Nat.ne_of_gt h)

/-- A digit is its own residue. -/
theorem residue_of_lt (hv : v < m) : residue m v = v := by
  rcases Nat.eq_zero_or_pos v with rfl | hpos
  · rfl
  · rw [residue_of_pos hpos, Nat.mod_eq_of_lt (by omega)]
    omega

theorem mod_of_wrap {r n : Nat} (hlo : n ≤ r) (hhi : r < 2 * n) : r % n = r - n := by
  rw [Nat.mod_eq_sub_mod hlo, Nat.mod_eq_of_lt (by omega)]

/-- One step of the accumulator is one step of the sum: the case split is on whether a carry arises
and whether it brings the residue round. -/
theorem endAround_residue (hm : 2 ≤ m) (hv : v < m) (s : Nat) :
    endAround m (residue m s) v = residue m (s + v) := by
  rcases Nat.eq_zero_or_pos s with rfl | hpos
  · rw [residue_zero, Nat.zero_add, residue_of_lt hv, endAround_of_lt (by omega), Nat.zero_add]
  · -- with `r` for the residue of `s - 1`, both sides are 1 more than that of `r + v`
    have hr : (s - 1) % (m - 1) < m - 1 := Nat.mod_lt _ (by omega)
    have hsum : (s + v - 1) % (m - 1) = ((s - 1) % (m - 1) + v) % (m - 1) := by
      rw [show s + v - 1 = s - 1 + v from by omega, Nat.mod_add_mod]
    rw [residue_of_pos hpos, residue_of_pos (by omega), hsum]
    generalize (s - 1) % (m - 1) = r at hr
    rcases Nat.lt_or_ge (r + v) (m - 1) with hlow | hcarry
    · rw [endAround_of_lt (by omega), Nat.mod_eq_of_lt hlow]
      omega
    · rw [endAround_of_carry (by omega) (by omega), mod_of_wrap hcarry (by omega)]
      omega

/-- **The sum with an end-around carry**, in closed form. -/
theorem foldl_endAround (hm : 2 ≤ m) {vs : List Nat} (hvs : ∀ v ∈ vs, v < m) (s : Nat) :
    vs.foldl (endAround m) (residue m s) = residue m (s + vs.sum) := by
  induction vs generalizing s with
  | nil => rfl
  | cons v vs ih =>
    rw [List.foldl_cons, endAround_residue hm (hvs v List.mem_cons_self),
      ih fun w hw => hvs w (List.mem_cons_of_mem v hw), List.sum_cons, Nat.add_assoc]

/-- Two digits leave the same remainder modulo `m - 1` only as the two zeros. -/
theorem add_mod_eq_iff {t a b : Nat} (hab : a < b) (hb : b < m) :
    (t + a) % (m - 1) = (t + b) % (m - 1) ↔ a = 0 ∧ b = m - 1 := by
  have hr : t % (m - 1) < m - 1 := Nat.mod_lt _ (by omega)
  rw [← Nat.mod_add_mod t (m - 1) a, ← Nat.mod_add_mod t (m - 1) b]
  -- below the modulus, so that each sum wraps at most once
  generalize t % (m - 1) = r at hr
  constructor
  · intro heq
    rcases Nat.lt_or_ge (r + b) (m - 1) with hlow | hwrap
    · rw [Nat.mod_eq_of_lt hlow, Nat.mod_eq_of_lt (by omega)] at heq
      omega
    · rw [mod_of_wrap hwrap (by omega)] at heq
      rcases Nat.lt_or_ge (r + a) (m - 1) with halow | hawrap
      · rw [Nat.mod_eq_of_lt halow] at heq
        omega
      · rw [mod_of_wrap hawrap (by omega)] at heq
        omega
  · rintro ⟨rfl, rfl⟩
    rw [Nat.add_zero, Nat.add_mod_right]

/-- Two digits give the same residue only as 0 and `m - 1`, on a positive sum. -/
theorem residue_add_eq_iff_of_lt {t a b : Nat} (hab : a < b) (hb : b < m) :
    residue m (t + a) = residue m (t + b) ↔ (a = 0 ∧ b = m - 1) ∧ 0 < t := by
  rcases Nat.eq_zero_or_pos t with rfl | hpos
  · -- digits on their own are told apart
    rw [Nat.zero_add, Nat.zero_add, residue_of_lt hb, residue_of_lt (by omega)]
    omega
  · have hiff := add_mod_eq_iff (t := t - 1) hab hb
    rw [residue_of_pos (by omega), residue_of_pos (by omega),
      show t + a - 1 = t - 1 + a from by omega, show t + b - 1 = t - 1 + b from by omega]
    omega

/-- **What a changed digit does not show**: one zero taken for the other, next to digits that are
not all zero. -/
theorem residue_add_eq_iff {t a b : Nat} (ha : a < m) (hb : b < m) (hne : a ≠ b) :
    residue m (t + a) = residue m (t + b) ↔
      (a = 0 ∧ b = m - 1 ∨ a = m - 1 ∧ b = 0) ∧ 0 < t := by
  rcases Nat.lt_or_gt_of_ne hne with hlt | hgt
  · rw [residue_add_eq_iff_of_lt hlt hb]
    omega
  · rw [eq_comm, residue_add_eq_iff_of_lt hgt ha]
    omega

end NioApps
