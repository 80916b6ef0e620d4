import Mathlib.Data.List.Infix
import Mathlib.Logic.Function.Basic

/-!
# Lib — scripts that stop at the first failure

Actions taken one after another on a state; the first that fails ends the script. `completed` is the
state after a list of actions none of which failed. A program may take its actions in any way that a
monad allows: `Takes` says that it takes those of a list, with what it leaves where it fails.

* `completed_or_fails` — how a script ends.
* `completed_invariant` — an invariant of the actions taken so far.
* `Takes.bind`, `takes_forM`, `takes_ite` — the list of a program from those of its parts.
* `placed`, `placed_eq_some_iff` — a map filled by a script that gives each key one value.
-/

namespace NioApps.Script

variable {α σ : Type*} (exec : α → σ → Option σ)

/-- The state after all of the actions, if none failed. -/
def completed : List α → σ → Option σ
  | [], s => some s
  | a :: as, s => (exec a s).bind (completed as)

variable {exec}

/-- Two scripts one after the other. -/
theorem completed_append (as bs : List α) (s : σ) :
    completed exec (as ++ bs) s = (completed exec as s).bind (completed exec bs) := by
  induction as generalizing s with
  | nil => rfl
  | cons a as ih =>
    rw [List.cons_append, completed, completed, Option.bind_assoc]
    exact congrArg _ (funext ih)

theorem completed_map {β : Type*} (f : β → α) (bs : List β) (s : σ) :
    completed exec (bs.map f) s = completed (fun b => exec (f b)) bs s := by
  induction bs generalizing s with
  | nil => rfl
  | cons b bs ih => exact congrArg _ (funext ih)

/-- A script is completed by its first action and then the rest. -/
theorem completed_cons_eq_some {a : α} {as : List α} {s s' : σ} :
    completed exec (a :: as) s = some s' ↔ ∃ t, exec a s = some t ∧ completed exec as t = some s' :=
  Option.bind_eq_some_iff

variable (exec) in
/-- **How a script ends.** It is completed, or one of its actions fails after those before it. -/
theorem completed_or_fails (as : List α) (s : σ) :
    (∃ s', completed exec as s = some s') ∨
      ∃ before a after s', as = before ++ a :: after ∧ completed exec before s = some s' ∧
        exec a s' = none := by
  induction as generalizing s with
  | nil => exact .inl ⟨s, rfl⟩
  | cons a as ih =>
    cases hexec : exec a s with
    | none => exact .inr ⟨[], a, as, s, rfl, rfl, hexec⟩
    | some t =>
      rcases ih t with ⟨s', hdone⟩ | ⟨before, b, after, s', rfl, hdone, hfails⟩
      · exact .inl ⟨s', completed_cons_eq_some.mpr ⟨t, hexec, hdone⟩⟩
      · exact .inr ⟨a :: before, b, after, s', rfl,
          completed_cons_eq_some.mpr ⟨t, hexec, hdone⟩, hfails⟩

/-- A script each action of which succeeds when its turn comes is completed. -/
theorem completed_of_succeeds {as : List α} {s : σ}
    (hsucceeds : ∀ before a after s', as = before ++ a :: after →
      completed exec before s = some s' → (exec a s').isSome) :
    ∃ s', completed exec as s = some s' := by
  rcases completed_or_fails exec as s with hdone | ⟨before, a, after, s', hsplit, hdone, hfails⟩
  · exact hdone
  · have hsome := hsucceeds before a after s' hsplit hdone
    rw [hfails] at hsome
    cases hsome

/-- **The invariant rule.** What each command makes of the invariant of those before it holds of
every part of the script that was completed. -/
theorem completed_invariant {as : List α} (I : List α → σ → Prop)
    (hstep : ∀ before c after s s', as = before ++ c :: after → I before s → exec c s = some s' →
      I (before ++ [c]) s')
    {s : σ} (hs : I [] s) {before after : List α} (hsplit : as = before ++ after) {s' : σ}
    (hdone : completed exec before s = some s') : I before s' := by
  induction before using List.reverseRecOn generalizing after s' with
  | nil =>
    cases hdone
    exact hs
  | append_singleton before c ih =>
    rw [completed_append] at hdone
    obtain ⟨t, ht, hlast⟩ := Option.bind_eq_some_iff.mp hdone
    obtain ⟨t', ht', hnil⟩ := Option.bind_eq_some_iff.mp hlast
    cases hnil
    have hsplit' : as = before ++ c :: after := by
      rw [hsplit, List.append_assoc, List.singleton_append]
    exact hstep before c after t _ hsplit' (ih hsplit' ht) ht'

/-! ## Programs that take actions -/

section Takes

variable {α σ ε : Type}

/-- What a program has come to: the state, and the actions it has taken, a failed one included. -/
structure Trail (α σ : Type) where
  state : σ
  taken : List α

variable (exec : α → σ → Option σ) (failed : α → ε)

/-- Takes one action. -/
def act (a : α) : EStateM ε (Trail α σ) Unit := fun t =>
  match exec a t.state with
  | none => .error (failed a) { t with taken := t.taken ++ [a] }
  | some s => .ok () ⟨s, t.taken ++ [a]⟩

/-- The program takes the actions one after another: all of them, or up to the first that fails,
whose error it then ends with. -/
def Takes (p : EStateM ε (Trail α σ) Unit) (as : List α) : Prop :=
  ∀ t, (∃ s, completed exec as t.state = some s ∧ p t = .ok () ⟨s, t.taken ++ as⟩) ∨
    ∃ before a after s, as = before ++ a :: after ∧ completed exec before t.state = some s ∧
      exec a s = none ∧ p t = .error (failed a) ⟨s, t.taken ++ (before ++ [a])⟩

variable {exec failed}

theorem takes_pure : Takes exec failed (pure ()) [] := by
  intro t
  refine .inl ⟨t.state, rfl, ?_⟩
  rw [List.append_nil]
  rfl

/-- A single action. -/
theorem takes_act (a : α) : Takes exec failed (act exec failed a) [a] := by
  intro t
  cases hexec : exec a t.state with
  | none => exact .inr ⟨[], a, [], t.state, rfl, rfl, hexec, by rw [act, hexec]; rfl⟩
  | some s =>
    exact .inl ⟨s, completed_cons_eq_some.mpr ⟨s, hexec, rfl⟩, by rw [act, hexec]⟩

/-- **One part after another.** -/
theorem Takes.bind {p q : EStateM ε (Trail α σ) Unit} {as bs : List α}
    (hp : Takes exec failed p as) (hq : Takes exec failed q bs) :
    Takes exec failed (p >>= fun _ => q) (as ++ bs) := by
  intro t
  rcases hp t with ⟨s, hdone, hrun⟩ | ⟨before, a, after, s, rfl, hdone, hfails, hrun⟩
  · -- the first part is done, and the second goes on from what it left
    have hbind : (p >>= fun _ => q) t = q ⟨s, t.taken ++ as⟩ := by
      show EStateM.bind p _ t = _
      rw [EStateM.bind, hrun]
    rw [hbind]
    rcases hq ⟨s, t.taken ++ as⟩ with ⟨s', hdone', hrun'⟩ |
      ⟨before, b, after, s', rfl, hdone', hfails, hrun'⟩
    · refine .inl ⟨s', ?_, ?_⟩
      · rw [completed_append, hdone]
        exact hdone'
      · rw [hrun', List.append_assoc]
    · refine .inr ⟨as ++ before, b, after, s', ?_, ?_, hfails, ?_⟩
      · rw [List.append_assoc]
      · rw [completed_append, hdone]
        exact hdone'
      · rw [hrun', List.append_assoc, List.append_assoc]
  · -- the second part is not come to
    refine .inr ⟨before, a, after ++ bs, s, by rw [List.append_assoc, List.cons_append], hdone,
      hfails, ?_⟩
    show EStateM.bind p _ t = _
    rw [EStateM.bind, hrun]

/-- A loop that takes one action in each turn. -/
theorem takes_forM {β : Type} (f : β → α) (bs : List β) :
    Takes exec failed (bs.forM fun b => act exec failed (f b)) (bs.map f) := by
  induction bs with
  | nil => exact takes_pure
  | cons b bs ih => exact (takes_act (f b)).bind ih

theorem takes_ite {c : Prop} [Decidable c] {p : EStateM ε (Trail α σ) Unit} {as : List α}
    (hp : Takes exec failed p as) :
    Takes exec failed (if c then p else pure ()) (if c then as else []) := by
  split
  next => exact hp
  next => exact takes_pure

end Takes

/-! ## A map filled by a script -/

section Placed

variable {κ ν : Type*} [DecidableEq κ] (key : α → κ) (value : α → ν)

/-- The map after each element was put at its key. -/
def placed (as : List α) : κ → Option ν :=
  as.foldl (fun m a => Function.update m (key a) (some (value a))) fun _ => none

variable {key value}

@[simp] theorem placed_nil : placed key value [] = fun _ => none := rfl

theorem placed_concat (as : List α) (a : α) :
    placed key value (as ++ [a]) =
      Function.update (placed key value as) (key a) (some (value a)) := by
  rw [placed, List.foldl_append]
  rfl

/-- Where no two elements share a key, each is found at its own. -/
theorem placed_eq_some_iff {as : List α} (hkeys : (as.map key).Nodup) {k : κ} {v : ν} :
    placed key value as k = some v ↔ ∃ a ∈ as, key a = k ∧ value a = v := by
  induction as using List.reverseRecOn with
  | nil => simp
  | append_singleton as a ih =>
    rw [List.map_append, List.map_singleton, List.nodup_append] at hkeys
    obtain ⟨hkeys, -, hfresh⟩ := hkeys
    -- the last key is none of those before it
    have hne : ∀ b ∈ as, key b ≠ key a := fun b hb =>
      hfresh _ (List.mem_map_of_mem hb) _ List.mem_cons_self
    rw [placed_concat]
    by_cases hk : k = key a
    · subst hk
      rw [Function.update_self, Option.some.injEq]
      constructor
      · exact fun hv => ⟨a, by simp, rfl, hv⟩
      · rintro ⟨b, hb, hkey, hv⟩
        rcases List.mem_append.mp hb with hb | hb
        · exact absurd hkey (hne b hb)
        · rw [← List.mem_singleton.mp hb]
          exact hv
    · rw [Function.update_of_ne hk, ih hkeys]
      constructor
      · rintro ⟨b, hb, hrest⟩
        exact ⟨b, List.mem_append_left _ hb, hrest⟩
      · rintro ⟨b, hb, hkey, hv⟩
        rcases List.mem_append.mp hb with hb | hb
        · exact ⟨b, hb, hkey, hv⟩
        · rw [List.mem_singleton.mp hb] at hkey
          exact absurd hkey.symm hk

/-- A key that no element has holds nothing. -/
theorem placed_eq_none {as : List α} {k : κ} (hk : ∀ a ∈ as, key a ≠ k) :
    placed key value as k = none := by
  induction as using List.reverseRecOn with
  | nil => rfl
  | append_singleton as a ih =>
    rw [placed_concat, Function.update_of_ne (hk a (by simp)).symm]
    exact ih fun b hb => hk b (List.mem_append_left _ hb)

end Placed

end NioApps.Script
