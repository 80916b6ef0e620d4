import Mathlib.Tactic.Common

/-!
# Lib — searching candidates by asking

A loop over candidates that asks about each in turn and leaves with the first one accepted. Asking
changes the state, so what the next candidate answers may depend on it.

* `Searched`, `firstAccepted_searched` — the answers a search leaves in a log: all refusals, but
  for the last where a candidate is found.
* `firstAccepted_preserves`, `firstAccepted_stationary` — what every question keeps, the search
  keeps; where the answers do not depend on the state, it finds what `List.find?` finds.
-/

namespace NioApps.Search

variable {α ε σ : Type*}

def firstAccepted (ask : α → σ → Bool × σ) : List α → σ → Option α × σ
  | [], s => (none, s)
  | a :: as, s => if (ask a s).1 then (some a, (ask a s).2) else firstAccepted ask as (ask a s).2

/-- The answers `es` to a search through the candidates, and what it found. `Asks a e` says that
`e` is an answer to a question about `a`. -/
inductive Searched (Asks : α → ε → Prop) (Accepts : ε → Prop) :
    List α → List ε → Option α → Prop where
  | exhausted : Searched Asks Accepts [] [] none
  | found {a : α} {as : List α} {e : ε} (hasks : Asks a e) (haccepts : Accepts e) :
      Searched Asks Accepts (a :: as) [e] (some a)
  | refused {a : α} {as : List α} {e : ε} {es : List ε} {out : Option α} (hasks : Asks a e)
      (hrefuses : ¬ Accepts e) (hrest : Searched Asks Accepts as es out) :
      Searched Asks Accepts (a :: as) (e :: es) out

/-- What is found is a candidate, and an accepted answer about it is there. -/
theorem Searched.found_mem {Asks : α → ε → Prop} {Accepts : ε → Prop} {as : List α} {es : List ε}
    {a : α} (h : Searched Asks Accepts as es (some a)) :
    a ∈ as ∧ ∃ e ∈ es, Asks a e ∧ Accepts e := by
  generalize hout : some a = out at h
  induction h with
  | exhausted => cases hout
  | found hasks haccepts =>
    cases hout
    exact ⟨List.mem_cons_self, _, List.mem_cons_self, hasks, haccepts⟩
  | refused hasks hrefuses hrest ih =>
    obtain ⟨hmem, e, he, hanswer⟩ := ih hout
    exact ⟨List.mem_cons_of_mem _ hmem, e, List.mem_cons_of_mem _ he, hanswer⟩

/-- Where an answer tells what it is about, the answers are about the first candidates, and about
all of them where none is found; an answer that is accepted is the last. -/
theorem Searched.answers {key : ε → α} {Accepts : ε → Prop} {as : List α} {es : List ε}
    {out : Option α} (h : Searched (fun a e => key e = a) Accepts as es out) :
    ∃ rest, as = es.map key ++ rest ∧
      ((out = none ∧ rest = [] ∧ ∀ e ∈ es, ¬ Accepts e) ∨
        ∃ a init e, out = some a ∧ es = init ++ [e] ∧ Accepts e ∧ ∀ e' ∈ init, ¬ Accepts e') := by
  induction h with
  | exhausted => exact ⟨[], rfl, .inl ⟨rfl, rfl, fun e he => absurd he List.not_mem_nil⟩⟩
  | @found a as e hasks haccepts =>
    refine ⟨as, by rw [← hasks]; rfl, .inr ⟨a, [], e, rfl, rfl, haccepts, ?_⟩⟩
    exact fun e' he' => absurd he' List.not_mem_nil
  | @refused a as e es out hasks hrefuses hrest ih =>
    obtain ⟨rest, has, hout⟩ := ih
    refine ⟨rest, by rw [← hasks, has]; rfl, ?_⟩
    rcases hout with ⟨hnone, hrest, hall⟩ | ⟨b, init, last, hsome, hes, hlast, hall⟩
    · exact .inl ⟨hnone, hrest, List.forall_mem_cons.mpr ⟨hrefuses, hall⟩⟩
    · exact .inr ⟨b, e :: init, last, hsome, by rw [hes]; rfl, hlast,
        List.forall_mem_cons.mpr ⟨hrefuses, hall⟩⟩

/-- Every answer is about a candidate. -/
theorem Searched.asks {Asks : α → ε → Prop} {Accepts : ε → Prop} {as : List α} {es : List ε}
    {out : Option α} (h : Searched Asks Accepts as es out) : ∀ e ∈ es, ∃ a ∈ as, Asks a e := by
  induction h with
  | exhausted => exact fun e he => absurd he List.not_mem_nil
  | found hasks haccepts =>
    intro e he
    rw [List.mem_singleton] at he
    exact ⟨_, List.mem_cons_self, he ▸ hasks⟩
  | refused hasks hrefuses hrest ih =>
    intro e he
    rcases List.mem_cons.mp he with rfl | he
    · exact ⟨_, List.mem_cons_self, hasks⟩
    · obtain ⟨a, ha, hae⟩ := ih e he
      exact ⟨a, List.mem_cons_of_mem _ ha, hae⟩

theorem Searched.key_mem {key : ε → α} {Accepts : ε → Prop} {as : List α} {es : List ε}
    {out : Option α} (h : Searched (fun a e => key e = a) Accepts as es out) {e : ε} (he : e ∈ es) :
    key e ∈ as := by
  obtain ⟨a, ha, hkey⟩ := h.asks e he
  rw [hkey]
  exact ha

/-- **The log of a search.** Where every question adds its answer to a log, the search adds the
answers up to the first that is accepted. -/
theorem firstAccepted_searched {ask : α → σ → Bool × σ} (log : σ → List ε) (Asks : α → ε → Prop)
    (Accepts : ε → Prop)
    (hask : ∀ a s, ∃ e, log (ask a s).2 = log s ++ [e] ∧ Asks a e ∧
      ((ask a s).1 = true ↔ Accepts e)) (as : List α) (s : σ) :
    ∃ es, log (firstAccepted ask as s).2 = log s ++ es ∧
      Searched Asks Accepts as es (firstAccepted ask as s).1 := by
  induction as generalizing s with
  | nil => exact ⟨[], (List.append_nil _).symm, .exhausted⟩
  | cons a as ih =>
    obtain ⟨e, hlog, hasks, haccepts⟩ := hask a s
    unfold firstAccepted
    -- the first is accepted and ends the search, or the search goes on
    by_cases h : (ask a s).1 = true
    · rw [if_pos h]
      exact ⟨[e], hlog, .found hasks (haccepts.mp h)⟩
    · rw [if_neg h]
      obtain ⟨es, hrest, hsearched⟩ := ih (ask a s).2
      refine ⟨e :: es, ?_, .refused hasks (fun he => h (haccepts.mpr he)) hsearched⟩
      rw [hrest, hlog, List.append_assoc, List.singleton_append]

/-- A search that finds nothing was refused by every candidate. -/
theorem firstAccepted_cons_eq_none_iff {ask : α → σ → Bool × σ} {a : α} {as : List α} {s : σ} :
    (firstAccepted ask (a :: as) s).1 = none ↔
      (ask a s).1 = false ∧ (firstAccepted ask as (ask a s).2).1 = none := by
  rw [firstAccepted]
  split
  next h => exact ⟨nofun, fun hnone => absurd (h.symm.trans hnone.1) Bool.noConfusion⟩
  next h => exact ⟨fun hnone => ⟨eq_false_of_ne_true h, hnone⟩, And.right⟩

/-- What every question keeps, the search keeps. -/
theorem firstAccepted_preserves {ask : α → σ → Bool × σ} (I : σ → Prop) {as : List α}
    (hask : ∀ a ∈ as, ∀ s, I s → I (ask a s).2) {s : σ} (hs : I s) :
    I (firstAccepted ask as s).2 := by
  induction as generalizing s with
  | nil => exact hs
  | cons a as ih =>
    have hfirst := hask a List.mem_cons_self s hs
    unfold firstAccepted
    split
    · exact hfirst
    · exact ih (fun b hb => hask b (List.mem_cons_of_mem a hb)) hfirst

/-- **A search among settled answers.** Where every answer is the one that `p` gives, whatever the
state, the first candidate that meets `p` is found. -/
theorem firstAccepted_stationary {ask : α → σ → Bool × σ} (p : α → Bool) {as : List α}
    (hask : ∀ a ∈ as, ∀ s, (ask a s).1 = p a) (s : σ) :
    (firstAccepted ask as s).1 = as.find? p := by
  induction as generalizing s with
  | nil => rfl
  | cons a as ih =>
    rw [firstAccepted, List.find?_cons, hask a List.mem_cons_self s]
    cases p a with
    | true => rfl
    | false => exact ih (fun b hb => hask b (List.mem_cons_of_mem a hb)) _

end NioApps.Search
