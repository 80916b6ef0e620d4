import NioApps.Lib.Script

/-!
# Lib — what is taken and given back

Resources that are taken, used and given back, some of which need others for as long as they are
held. `handle` says whether an act is in order, and what is held after it.

* `handle`, `InOrder` — acts in order, from what is held before to what is held after.
* `InOrder.append`, `inOrder_bracket` — acts one after another, and between taking and giving back.
* `Keeps`, `keeps_bracket`, `keeps_bracket_nil` — the same of calls to a system.
* `InOrder.held_of_use`, `InOrder.count` — what it means: a resource is used between its taking and
  its giving back, and it is given back as often as it was taken.
-/

namespace NioApps.Custody

open Script

variable {ρ : Type*} [DecidableEq ρ]

inductive Act (ρ : Type*) where
  | take (r : ρ)
  | use (r : ρ)
  | give (r : ρ)
  deriving DecidableEq

section

variable (needs : ρ → List ρ)

def handle : Act ρ → List ρ → Option (List ρ)
  | .take r, held =>
    if r ∉ held ∧ ∀ s ∈ needs r, s ∈ held then some (r :: held) else none
  | .use r, held => if r ∈ held then some held else none
  | .give r, held =>
    if r ∈ held ∧ ∀ s ∈ held, r ∉ needs s then some (held.erase r) else none

/-- The acts are in order where `held` is held before them, and `held'` is held after them. -/
def InOrder (held : List ρ) (acts : List (Act ρ)) (held' : List ρ) : Prop :=
  completed (handle needs) acts held = some held'

instance (held : List ρ) (acts : List (Act ρ)) (held' : List ρ) :
    Decidable (InOrder needs held acts held') :=
  inferInstanceAs (Decidable (_ = _))

end

variable {needs : ρ → List ρ} {held held' held'' : List ρ} {acts acts' : List (Act ρ)}

theorem inOrder_nil : InOrder needs held [] held := rfl

/-- The second part begins with what the first part holds at its end. -/
theorem InOrder.append (h : InOrder needs held acts held') (h' : InOrder needs held' acts' held'') :
    InOrder needs held (acts ++ acts') held'' := by
  rw [InOrder, completed_append, h]
  exact h'

theorem InOrder.cons {act : Act ρ} (h : handle needs act held = some held')
    (h' : InOrder needs held' acts held'') : InOrder needs held (act :: acts) held'' := by
  rw [InOrder, completed, h]
  exact h'

theorem inOrder_singleton {act : Act ρ} (h : handle needs act held = some held') :
    InOrder needs held [act] held' :=
  InOrder.cons h inOrder_nil

/-- A resource is taken where it is free and what it needs is held. -/
theorem handle_take {r : ρ} (hr : r ∉ held) (hneeds : ∀ s ∈ needs r, s ∈ held) :
    handle needs (.take r) held = some (r :: held) :=
  if_pos ⟨hr, hneeds⟩

/-- The last resource that was taken is given back where no other needs it. -/
theorem handle_give {r : ρ} (hneeds : ∀ s ∈ r :: held, r ∉ needs s) :
    handle needs (.give r) (r :: held) = some held := by
  rw [handle, if_pos ⟨List.mem_cons_self, hneeds⟩, List.erase_cons_head]

/-- **Brackets.** Acts in order while a resource is held stay so between taking it and giving it
back. -/
theorem inOrder_bracket {r : ρ} (hr : r ∉ held) (hneeds : ∀ s ∈ needs r, s ∈ held)
    (hfree : ∀ s ∈ r :: held, r ∉ needs s) (h : InOrder needs (r :: held) acts (r :: held)) :
    InOrder needs held (.take r :: acts ++ [.give r]) held :=
  (InOrder.cons (handle_take hr hneeds) h).append (inOrder_singleton (handle_give hfree))

/-- Acts that are in order can be cut anywhere. -/
theorem InOrder.split (h : InOrder needs held (acts ++ acts') held'') :
    ∃ held', InOrder needs held acts held' ∧ InOrder needs held' acts' held'' := by
  rw [InOrder, completed_append] at h
  obtain ⟨held', hfirst, hrest⟩ := Option.bind_eq_some_iff.mp h
  exact ⟨held', hfirst, hrest⟩

/-- How often a resource is taken, and given back. -/
def takes (r : ρ) (acts : List (Act ρ)) : Nat := acts.count (.take r)

def gives (r : ρ) (acts : List (Act ρ)) : Nat := acts.count (.give r)

/-- One act keeps the balance of what is taken, given back and held. -/
theorem count_handle {act : Act ρ} (h : handle needs act held = some held') (r : ρ) :
    held.count r + takes r [act] = held'.count r + gives r [act] := by
  -- an act is taken only where it is allowed, and then changes one count
  cases act with
  | take s =>
    rw [handle] at h
    split at h
    next =>
      cases h
      by_cases hs : s = r
      · subst hs
        simp [takes, gives]
      · simp [takes, gives, hs]
    next => cases h
  | use s =>
    rw [handle] at h
    split at h
    next =>
      cases h
      simp [takes, gives]
    next => cases h
  | give s =>
    rw [handle] at h
    split at h
    next hand =>
      cases h
      by_cases hs : s = r
      · -- one is given back, and one was held
        subst hs
        have hpos : 0 < held.count s := List.count_pos_iff.mpr hand.1
        simp [takes, gives]
        omega
      · simp [takes, gives, hs, List.count_erase_of_ne (Ne.symm hs)]
    next => cases h

/-- **Balance.** What is held changes by what is taken and given back. -/
theorem InOrder.count (h : InOrder needs held acts held') (r : ρ) :
    held.count r + takes r acts = held'.count r + gives r acts := by
  induction acts generalizing held with
  | nil =>
    cases h
    rfl
  | cons act acts ih =>
    obtain ⟨next, hact, hrest⟩ := Option.bind_eq_some_iff.mp h
    have hone := count_handle hact r
    have hmore := ih hrest
    have htakes : takes r ([act] ++ acts) = takes r [act] + takes r acts := List.count_append
    have hgives : gives r ([act] ++ acts) = gives r [act] + gives r acts := List.count_append
    rw [List.singleton_append] at htakes hgives
    omega

/-- **Use.** A resource that is used has been taken, and not been given back. -/
theorem InOrder.held_of_use {r : ρ} (h : InOrder needs [] (acts ++ .use r :: acts') held') :
    gives r acts < takes r acts := by
  obtain ⟨before, hfirst, hrest⟩ := h.split
  have hcount := hfirst.count r
  have hmem : r ∈ before := by
    by_contra hnot
    rw [InOrder, completed, handle, if_neg hnot] at hrest
    cases hrest
  have hpos : 0 < before.count r := List.count_pos_iff.mpr hmem
  rw [List.count_nil] at hcount
  omega

/-! ## Calls that are such acts -/

section

variable {κ : Type*} (needs : ρ → List ρ) (act : κ → Option (Act ρ))

/-- The calls start and end with the same in hand. -/
def Keeps (held : List ρ) (calls : List κ) : Prop :=
  InOrder needs held (calls.filterMap act) held

end

variable {κ : Type*} {act : κ → Option (Act ρ)} {calls calls' : List κ}

theorem keeps_nil (held : List ρ) : Keeps needs act held [] := inOrder_nil

theorem Keeps.append (h : Keeps needs act held calls) (h' : Keeps needs act held calls') :
    Keeps needs act held (calls ++ calls') := by
  rw [Keeps, List.filterMap_append]
  exact InOrder.append h h'

/-- Calls between one that takes a resource and one that gives it back. -/
theorem keeps_bracket {first last : κ} {r : ρ} (hfirst : act first = some (.take r))
    (hlast : act last = some (.give r)) (hr : r ∉ held) (hneeds : ∀ s ∈ needs r, s ∈ held)
    (hfree : ∀ s ∈ r :: held, r ∉ needs s) (h : Keeps needs act (r :: held) calls) :
    Keeps needs act held (first :: calls ++ [last]) := by
  have hacts : (first :: calls ++ [last]).filterMap act =
      .take r :: calls.filterMap act ++ [.give r] := by
    rw [List.filterMap_append, List.filterMap_cons_some hfirst, List.filterMap_cons_some hlast,
      List.filterMap_nil]
  rw [Keeps, hacts]
  exact inOrder_bracket hr hneeds hfree h

/-- The outermost bracket, of a resource that needs no other. -/
theorem keeps_bracket_nil {first last : κ} {r : ρ} (hfirst : act first = some (.take r))
    (hlast : act last = some (.give r)) (hneeds : needs r = []) (h : Keeps needs act [r] calls) :
    Keeps needs act [] (first :: calls ++ [last]) := by
  refine keeps_bracket hfirst hlast List.not_mem_nil ?_ ?_ h
  · intro s hs
    rw [hneeds] at hs
    exact absurd hs List.not_mem_nil
  · intro s hs
    rw [List.mem_singleton.mp hs, hneeds]
    exact List.not_mem_nil

end NioApps.Custody
