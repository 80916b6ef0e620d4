import Mathlib.Tactic.Common

/-!
# Lib — machines answering a sequence of calls

A machine answers a call `i` in state `s` with an output and a new state, `step i s`. A run
is the list of calls it is given. `outputs` and `final` are what a run answers and the state
it ends in.

* `final_invariant`, `final_invariant_of_mem` — what one call preserves, a run preserves.
* `final_eq_lastPick` — a register that calls write holds what was written to it last.
* `simulation` — machines whose single calls look the same and preserve a relation look the
  same over whole runs.
* `simulation_iff` — when "the single call looks the same and preserves the relation" is
  equivalent to a condition `P` on the call and the state it is made in, every prefix of a
  run looks the same exactly when every call of the run meets `P`.
-/

namespace NioApps.Machine

variable {ι ο ο' ω σ τ : Type*}

def outputs (step : ι → σ → ο × σ) : List ι → σ → List ο
  | [], _ => []
  | i :: is, s => (step i s).1 :: outputs step is (step i s).2

def final (step : ι → σ → ο × σ) : List ι → σ → σ
  | [], s => s
  | i :: is, s => final step is (step i s).2

/-- Every call of the run meets `P` in the state it is made in. -/
def AllSteps (step : ι → σ → ο × σ) (P : ι → σ → Prop) : List ι → σ → Prop
  | [], _ => True
  | i :: is, s => P i s ∧ AllSteps step P is (step i s).2

/-- **The invariant rule.** What every single call preserves, every run preserves. -/
theorem final_invariant {step : ι → σ → ο × σ} (I : σ → Prop)
    (hstep : ∀ i s, I s → I (step i s).2) {s : σ} (hs : I s) (is : List ι) :
    I (final step is s) := by
  induction is generalizing s with
  | nil => exact hs
  | cons i is ih => exact ih (hstep i s hs)

/-- The same for a run of calls that are known. -/
theorem final_invariant_of_mem {step : ι → σ → ο × σ} (I : σ → Prop) {is : List ι}
    (hstep : ∀ i ∈ is, ∀ s, I s → I (step i s).2) {s : σ} (hs : I s) : I (final step is s) := by
  induction is generalizing s with
  | nil => exact hs
  | cons i is ih =>
    exact ih (fun j hj => hstep j (List.mem_cons_of_mem i hj)) (hstep i List.mem_cons_self s hs)

/-- An invariant of the steps that meet a condition holds after a run all of whose steps meet it. -/
theorem AllSteps.final_invariant {step : ι → σ → ο × σ} {P : ι → σ → Prop} (I : σ → Prop)
    (hstep : ∀ i s, P i s → I s → I (step i s).2) {s : σ} (hs : I s) {is : List ι}
    (h : AllSteps step P is s) : I (final step is s) := by
  induction is generalizing s with
  | nil => exact hs
  | cons i is ih => exact ih (hstep i s h.1 hs) h.2

/-- What the last call of the run from which `pick` picks something gave. -/
def lastPick (step : ι → σ → ο × σ) (pick : ι → σ → Option ω) : List ι → σ → Option ω
  | [], _ => none
  | i :: is, s => (lastPick step pick is (step i s).2).or (pick i s)

/-- **The register rule.** A value that each call replaces by what is picked from it, and keeps
where nothing is, is after a run the last one picked. -/
theorem final_eq_lastPick {step : ι → σ → ο × σ} {pick : ι → σ → Option ω} {f : σ → ω}
    (hstep : ∀ i s, f (step i s).2 = (pick i s).getD (f s)) (is : List ι) (s : σ) :
    f (final step is s) = (lastPick step pick is s).getD (f s) := by
  induction is generalizing s with
  | nil => rfl
  | cons i is ih =>
    rw [final, ih, hstep, lastPick]
    cases lastPick step pick is (step i s).2 with
    | none => rfl
    | some v => rfl

/-- Picking last and then mapping is mapping and then picking last. -/
theorem lastPick_map {ω' : Type*} {step : ι → σ → ο × σ} (pick : ι → σ → Option ω) (g : ω → ω')
    (is : List ι) (s : σ) :
    lastPick step (fun i s => (pick i s).map g) is s = (lastPick step pick is s).map g := by
  induction is generalizing s with
  | nil => rfl
  | cons i is ih =>
    rw [lastPick, lastPick, ih]
    cases lastPick step pick is (step i s).2 with
    | none => rfl
    | some v => rfl

/-- A condition on the calls of a run, seen through a map `f` that takes the machine to another
one. -/
theorem allSteps_map {step : ι → σ → ο × σ} {step' : ι → τ → ο' × τ} (f : σ → τ)
    (hstep : ∀ i s, f (step i s).2 = (step' i (f s)).2) (P : ι → τ → Prop) (is : List ι) (s : σ) :
    AllSteps step (fun i s => P i (f s)) is s ↔ AllSteps step' P is (f s) := by
  induction is generalizing s with
  | nil => exact Iff.rfl
  | cons i is ih => rw [AllSteps, AllSteps, ih, hstep]

/-- **The simulation rule.** Two machines whose single calls look the same and preserve `R`
look the same over every run. -/
theorem simulation {step : ι → σ → ο × σ} {step' : ι → τ → ο' × τ} (R : σ → τ → Prop)
    (view : ο → ω) (view' : ο' → ω)
    (hstep : ∀ i s t, R s t →
      view (step i s).1 = view' (step' i t).1 ∧ R (step i s).2 (step' i t).2)
    {s : σ} {t : τ} (h : R s t) (is : List ι) :
    (outputs step is s).map view = (outputs step' is t).map view' ∧
      R (final step is s) (final step' is t) := by
  induction is generalizing s t with
  | nil => exact ⟨rfl, h⟩
  | cons i is ih =>
    obtain ⟨hview, hR⟩ := hstep i s t h
    obtain ⟨houts, hfinal⟩ := ih hR
    refine ⟨?_, hfinal⟩
    simp only [outputs, List.map_cons, hview, houts]

/-- **The exact simulation rule.** If a single call from related states looks the same and
preserves `R` exactly when it meets `P`, then every prefix of a run looks the same and ends
in related states exactly when every call of the run meets `P`. -/
theorem simulation_iff {step : ι → σ → ο × σ} {step' : ι → τ → ο' × τ} (R : σ → τ → Prop)
    (P : ι → σ → Prop) (view : ο → ω) (view' : ο' → ω)
    (hstep : ∀ i s t, R s t →
      ((view (step i s).1 = view' (step' i t).1 ∧ R (step i s).2 (step' i t).2) ↔ P i s))
    {s : σ} {t : τ} (h : R s t) (is : List ι) :
    (∀ pre, pre <+: is → (outputs step pre s).map view = (outputs step' pre t).map view' ∧
        R (final step pre s) (final step' pre t)) ↔
      AllSteps step P is s := by
  induction is generalizing s t with
  | nil =>
    refine ⟨fun _ => trivial, fun _ pre hpre => ?_⟩
    rw [List.prefix_nil.mp hpre]
    exact ⟨rfl, h⟩
  | cons i is ih =>
    constructor
    · intro hall
      -- the one-call prefix gives the condition and the relation the tail starts from
      obtain ⟨hview, hR⟩ := hall [i] (by simp)
      have hview' : view (step i s).1 = view' (step' i t).1 := by simpa [outputs] using hview
      refine ⟨(hstep i s t h).mp ⟨hview', hR⟩, (ih hR).mp fun pre hpre => ?_⟩
      obtain ⟨houts, hfinal⟩ := hall (i :: pre) (by simpa using hpre)
      simp only [outputs, List.map_cons, List.cons.injEq] at houts
      exact ⟨houts.2, hfinal⟩
    · rintro ⟨hP, hrest⟩ pre hpre
      obtain ⟨hview, hR⟩ := (hstep i s t h).mpr hP
      -- a prefix is empty, or makes the first call and a prefix of the rest
      cases pre with
      | nil => exact ⟨rfl, h⟩
      | cons j pre =>
        obtain ⟨rfl, hpre'⟩ := List.cons_prefix_cons.mp hpre
        obtain ⟨houts, hfinal⟩ := (ih hR).mpr hrest pre hpre'
        refine ⟨?_, hfinal⟩
        simp only [outputs, List.map_cons, hview, houts]

end NioApps.Machine
