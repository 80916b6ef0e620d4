import Mathlib.Tactic.Common

/-!
# Lib — loops given by a step function

A `for (;;)` loop whose body either goes round again with a new state or leaves with a
result is a function `step : σ → σ ⊕ ρ`. `after step k s` is the loop after at most `k`
passes through its body: the state it is in (`.inl`), or the result it has left with
(`.inr`). Nothing here assumes that the loop ends, so a rule proved of `after` for every
`k` speaks of runs that never leave as well.

* `after_preserves`, `after_invariant` — an invariant that one pass preserves holds after every
  number of passes, and a postcondition that every leaving pass establishes holds of the result.
* `returns_of_variant` — a loop whose passes decrease a natural number leaves.
* `after_lockstep` — two loops whose passes preserve a relation stay related.
-/

namespace NioApps.Loop

variable {σ ρ τ υ : Type*}

/-- The loop after at most `k` passes: still running in a state, or left with a result. -/
def after (step : σ → σ ⊕ ρ) : Nat → σ → σ ⊕ ρ
  | 0, s => .inl s
  | k + 1, s =>
    match step s with
    | .inl s' => after step k s'
    | .inr r => .inr r

/-- The loop entered in state `s` leaves with the result `r`. -/
def Returns (step : σ → σ ⊕ ρ) (s : σ) (r : ρ) : Prop :=
  ∃ k, after step k s = .inr r

/-- The loop entered in state `s` is, after some number of passes, running in state `s'`. -/
def Reaches (step : σ → σ ⊕ ρ) (s s' : σ) : Prop :=
  ∃ k, after step k s = .inl s'

@[simp] theorem after_zero (step : σ → σ ⊕ ρ) (s : σ) : after step 0 s = .inl s := rfl

theorem after_succ_inl {step : σ → σ ⊕ ρ} {s s' : σ} (h : step s = .inl s') (k : Nat) :
    after step (k + 1) s = after step k s' := by
  rw [after, h]

theorem after_succ_inr {step : σ → σ ⊕ ρ} {s : σ} {r : ρ} (h : step s = .inr r) (k : Nat) :
    after step (k + 1) s = .inr r := by
  rw [after, h]

/-- Passes compose: running `j + k` passes is running `k` more from where `j` passes got to. -/
theorem after_add (step : σ → σ ⊕ ρ) (j k : Nat) (s : σ) :
    after step (j + k) s =
      match after step j s with
      | .inl s' => after step k s'
      | .inr r => .inr r := by
  induction j generalizing s with
  | zero => simp
  | succ j ih =>
    rw [show j + 1 + k = (j + k) + 1 from by omega]
    cases h : step s with
    | inl s' => rw [after_succ_inl h, after_succ_inl h]; exact ih s'
    | inr r => rw [after_succ_inr h, after_succ_inr h]

/-- More steps do not change the result of a loop that is over. -/
theorem after_inr_mono {step : σ → σ ⊕ ρ} {s : σ} {r : ρ} {j k : Nat} (hle : j ≤ k)
    (h : after step j s = .inr r) : after step k s = .inr r := by
  obtain ⟨d, rfl⟩ := Nat.exists_eq_add_of_le hle
  rw [after_add, h]

/-- A loop returns at most one result. -/
theorem Returns.unique {step : σ → σ ⊕ ρ} {s : σ} {r r' : ρ} (h : Returns step s r)
    (h' : Returns step s r') : r = r' := by
  obtain ⟨j, hj⟩ := h
  obtain ⟨k, hk⟩ := h'
  -- both results are there after the larger number of passes
  have hj' := after_inr_mono (Nat.le_max_left j k) hj
  have hk' := after_inr_mono (Nat.le_max_right j k) hk
  rw [hj'] at hk'
  exact Sum.inr.inj hk'

theorem Returns.of_step {step : σ → σ ⊕ ρ} {s : σ} {r : ρ} (h : step s = .inr r) :
    Returns step s r :=
  ⟨1, after_succ_inr h 0⟩

theorem Returns.of_step_inl {step : σ → σ ⊕ ρ} {s s' : σ} {r : ρ} (h : step s = .inl s')
    (hr : Returns step s' r) : Returns step s r := by
  obtain ⟨k, hk⟩ := hr
  exact ⟨k + 1, by rw [after_succ_inl h, hk]⟩

theorem Reaches.refl (step : σ → σ ⊕ ρ) (s : σ) : Reaches step s s := ⟨0, rfl⟩

/-- One step more at the end. -/
theorem Reaches.tail {step : σ → σ ⊕ ρ} {s s' s'' : σ} (h : Reaches step s s')
    (hstep : step s' = .inl s'') : Reaches step s s'' := by
  obtain ⟨k, hk⟩ := h
  refine ⟨k + 1, ?_⟩
  rw [after_add, hk]
  exact after_succ_inl hstep 0

theorem Reaches.head {step : σ → σ ⊕ ρ} {s s' s'' : σ} (hstep : step s = .inl s')
    (h : Reaches step s' s'') : Reaches step s s'' := by
  obtain ⟨k, hk⟩ := h
  exact ⟨k + 1, by rw [after_succ_inl hstep, hk]⟩

/-- Steps one after another. -/
theorem Reaches.trans {step : σ → σ ⊕ ρ} {s s' s'' : σ} (h : Reaches step s s')
    (h' : Reaches step s' s'') : Reaches step s s'' := by
  obtain ⟨j, hj⟩ := h
  obtain ⟨k, hk⟩ := h'
  refine ⟨j + k, ?_⟩
  rw [after_add, hj]
  exact hk

/-- Any number of steps before a loop that returns. -/
theorem Returns.of_reaches {step : σ → σ ⊕ ρ} {s s' : σ} {r : ρ} (h : Reaches step s s')
    (hr : Returns step s' r) : Returns step s r := by
  obtain ⟨j, hj⟩ := h
  obtain ⟨k, hk⟩ := hr
  refine ⟨j + k, ?_⟩
  rw [after_add, hj]
  exact hk

/-- **The outcome rule.** What one pass keeps of a state, or makes of it on leaving, every number
of passes does. -/
theorem after_preserves {step : σ → σ ⊕ ρ} (P : σ ⊕ ρ → Prop)
    (hstep : ∀ s, P (.inl s) → P (step s)) {s : σ} (hs : P (.inl s)) (k : Nat) :
    P (after step k s) := by
  induction k generalizing s with
  | zero => exact hs
  | succ k ih =>
    have hpass := hstep s hs
    cases h : step s with
    | inl s' =>
      rw [after_succ_inl h]
      exact ih (h ▸ hpass)
    | inr r =>
      rw [after_succ_inr h]
      exact h ▸ hpass

/-- **The invariant rule.** If every pass from an invariant state ends in an invariant state
or leaves with a result satisfying `Q`, so does every number of passes. -/
theorem after_invariant {step : σ → σ ⊕ ρ} (I : σ → Prop) (Q : ρ → Prop)
    (hinl : ∀ s s', I s → step s = .inl s' → I s')
    (hinr : ∀ s r, I s → step s = .inr r → Q r)
    {s : σ} (hs : I s) (k : Nat) :
    Sum.elim I Q (after step k s) := by
  refine after_preserves (Sum.elim I Q) (fun s hs => ?_) hs k
  cases h : step s with
  | inl s' => exact hinl s s' hs h
  | inr r => exact hinr s r hs h

/-- **The invariant rule.** What each step preserves holds of every state that is reached. -/
theorem Reaches.invariant {step : σ → σ ⊕ ρ} (I : σ → Prop)
    (hstep : ∀ s s', I s → step s = .inl s' → I s') {s s' : σ} (hs : I s)
    (h : Reaches step s s') : I s' := by
  obtain ⟨k, hk⟩ := h
  have hall := after_invariant I (fun _ => True) hstep (fun _ _ _ _ => trivial) hs k
  rwa [hk] at hall

/-- **The variant rule.** A loop whose passes keep an invariant and decrease a natural number
leaves. -/
theorem returns_of_variant {step : σ → σ ⊕ ρ} (I : σ → Prop) (μ : σ → Nat)
    (hstep : ∀ s s', I s → step s = .inl s' → I s' ∧ μ s' < μ s)
    {s : σ} (hs : I s) : ∃ r, Returns step s r := by
  -- induction on a bound for the variant
  suffices hbound : ∀ n s, I s → μ s < n → ∃ r, Returns step s r from
    hbound (μ s + 1) s hs (Nat.lt_succ_self _)
  intro n
  induction n with
  | zero => intro s _ hlt; omega
  | succ n ih =>
    intro s hI hlt
    cases h : step s with
    | inr r => exact ⟨r, .of_step h⟩
    | inl s' =>
      obtain ⟨hI', hμ⟩ := hstep s s' hI h
      obtain ⟨r, hr⟩ := ih s' hI' (by omega)
      exact ⟨r, .of_step_inl h hr⟩

/-- **The counting rule.** After an entry that skips the loop when there is no pass to make, a run
of `n` passes, each of which takes the invariant of its number to that of the next and the last one
to `E`, gets to `E`. -/
theorem reaches_of_count {step : σ → σ ⊕ ρ} {n : Nat} (I : Nat → σ → Prop) (E : σ → Prop)
    (hpass : ∀ k s, k < n → I k s →
      ∃ s', Reaches step s s' ∧ (if k + 1 = n then E s' else I (k + 1) s'))
    {s : σ} (hentry : ∃ s', Reaches step s s' ∧ (if n = 0 then E s' else I 0 s')) :
    ∃ s', Reaches step s s' ∧ E s' := by
  -- induction on the number of passes that remain
  suffices hrest : ∀ m k, k + m = n → (∃ s', Reaches step s s' ∧ (if k = n then E s' else I k s')) →
      ∃ s', Reaches step s s' ∧ E s' by
    apply hrest n 0 (Nat.zero_add n)
    simpa only [eq_comm] using hentry
  intro m
  induction m with
  | zero =>
    rintro k hk ⟨s', hreach, hend⟩
    rw [if_pos (by omega)] at hend
    exact ⟨s', hreach, hend⟩
  | succ m ih =>
    rintro k hk ⟨s', hreach, hI⟩
    rw [if_neg (by omega)] at hI
    obtain ⟨s'', hreach', hnext⟩ := hpass k s' (by omega) hI
    exact ih (k + 1) (by omega) ⟨s'', hreach.trans hreach', hnext⟩

/-- A loop that goes round again from every invariant state never leaves. -/
theorem after_endless {step : σ → σ ⊕ ρ} {I : σ → Prop}
    (hstep : ∀ s, I s → ∃ s', step s = .inl s' ∧ I s') {s : σ} (hs : I s) (k : Nat) :
    ∃ s', after step k s = .inl s' := by
  induction k generalizing s with
  | zero => exact ⟨s, rfl⟩
  | succ k ih =>
    obtain ⟨s', hs', hI⟩ := hstep s hs
    obtain ⟨s'', hs''⟩ := ih hI
    exact ⟨s'', by rw [after_succ_inl hs', hs'']⟩

/-- Two loop outcomes are related: both running in states related by `R`, or both left with
results related by `S`. -/
inductive Lockstep (R : σ → τ → Prop) (S : ρ → υ → Prop) : σ ⊕ ρ → τ ⊕ υ → Prop where
  | running {s : σ} {t : τ} (h : R s t) : Lockstep R S (.inl s) (.inl t)
  | left {r : ρ} {u : υ} (h : S r u) : Lockstep R S (.inr r) (.inr u)

/-- **The lockstep rule.** Two loops whose single passes relate stay related after every
number of passes. -/
theorem after_lockstep {step : σ → σ ⊕ ρ} {step' : τ → τ ⊕ υ} (R : σ → τ → Prop)
    (S : ρ → υ → Prop) (hstep : ∀ s t, R s t → Lockstep R S (step s) (step' t))
    {s : σ} {t : τ} (h : R s t) (k : Nat) :
    Lockstep R S (after step k s) (after step' k t) := by
  induction k generalizing s t with
  | zero => exact .running h
  | succ k ih =>
    have hpass := hstep s t h
    -- the first passes leave together or go on together
    rw [after, after]
    generalize step s = out at hpass
    generalize step' t = out' at hpass
    cases hpass with
    | running h' => exact ih h'
    | left h' => exact .left h'

end NioApps.Loop
