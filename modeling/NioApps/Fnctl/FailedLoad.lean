import NioApps.Fnctl.FailedSet

/-!
# Fnctl — a load of the Amiga copy during which reads fail

`ensure_state` throws the results of its two `read_key` away and sets `state_initialized` all the
same, so a key that cannot be read while the copy is loaded is remembered as empty. The other
backends read the keys again on every call. The store here is any `AppStore`: any read and any
write may fail.

* `LoadSound` — nothing is lost in a load made in a given state of the store.
* `amiga_run_pair` — what a run without `set_state` leaves in the copy and in the store.
* `amiga_reportsStored_iff` — when the stored pair is reported in spite of earlier failures.
-/

namespace NioApps.Fnctl

/-- A call whose arguments are not rejected. On Amiga these are the calls that load the copy. -/
def FnctlCall.Accepted : FnctlCall → Prop
  | .getState state => state = true
  | .setState uri path => (acceptedState uri path).isSome
  | .getUnitSlot unit slot => ¬ (slot = false ∨ unit.toNat ≥ fnctlMaxUnits)
  | .setUnitSlot unit slot => ¬ (unit.toNat ≥ fnctlMaxUnits ∨ slot.toNat ≥ fnctlMaxUnits)

section

variable {h : FujinetNio} {σ : Type} (A : AppStore h σ)

/-- Reads of the two keys succeed in the state `s`. -/
def ReadsSucceed (s : σ) : Prop :=
  (A.read fnctlKeyUri 0 fnctlMaxUri s).1.result = h.fnOk ∧
    (A.read fnctlKeyPath 0 fnctlMaxPath (A.read fnctlKeyUri 0 fnctlMaxUri s).2).1.result = h.fnOk

/-- In the state `s` each of the two reads succeeds, or there is no text for it to lose. -/
def LoadSound (s : σ) : Prop :=
  ((A.read fnctlKeyUri 0 fnctlMaxUri s).1.result = h.fnOk ∨
      storedText uriCap (A.contents s fnctlKeyUri) = []) ∧
    ((A.read fnctlKeyPath 0 fnctlMaxPath (A.read fnctlKeyUri 0 fnctlMaxUri s).2).1.result =
        h.fnOk ∨
      storedText pathCap (A.contents s fnctlKeyPath) = [])

theorem ReadsSucceed.loadSound {A : AppStore h σ} {s : σ} (hs : ReadsSucceed A s) :
    LoadSound A s := ⟨.inl hs.1, .inl hs.2⟩

/-- What one read finds is what is stored, unless the read fails and there is something. -/
theorem storedText_seen_iff (k : StoreKey) (len cap : Nat) (s : σ) :
    storedText cap (A.seen k len s) = storedText cap (A.contents s k) ↔
      (A.read k 0 len s).1.result = h.fnOk ∨ storedText cap (A.contents s k) = [] := by
  rcases eq_or_ne (A.read k 0 len s).1.result h.fnOk with hok | hfailed
  · rw [AppStore.seen_of_ok hok]
    exact iff_of_true rfl (.inl hok)
  · rw [AppStore.seen_of_failed hfailed, show storedText cap none = [] from rfl]
    exact ⟨fun hsame => .inr hsame.symm, fun hnone => (hnone.resolve_left hfailed).symm⟩

/-- **What a load finds** is the stored pair exactly when nothing is lost in it. -/
theorem storedPair_loaded_iff (s : σ) :
    storedPair (A.loaded s) = storedPair (A.contents s) ↔ LoadSound A s := by
  have huri := storedText_seen_iff A fnctlKeyUri fnctlMaxUri uriCap s
  have hpath := storedText_seen_iff A fnctlKeyPath fnctlMaxPath pathCap
    (A.read fnctlKeyUri 0 fnctlMaxUri s).2
  rw [A.read_contents] at hpath
  rw [LoadSound, ← huri, ← hpath, ← A.loaded_keyUri, ← A.loaded_keyPath]
  exact Prod.ext_iff

/-- The backend that reads the keys on every call reports what is stored whenever the reads
succeed. -/
theorem linux_reportsStored {s : σ} (hs : ReadsSucceed A s) :
    reportedPair (Linux.backend A) s = some (storedPair (A.contents s)) := by
  rw [linux_reportedPair_loaded, (storedPair_loaded_iff A s).mpr hs.loadSound]

/-! ## Runs without `set_state` -/

/-- A rejected call touches nothing. -/
theorem amiga_step_rejected {call : FnctlCall} (hcall : ¬ call.Accepted) (m : Amiga.Statics σ) :
    ((Amiga.backend A).step call m).2 = m := by
  cases call with
  | getState state =>
    rw [Bool.not_eq_true state |>.mp hcall]
    rfl
  | setState uri path =>
    have hargs : acceptedState uri path = none := by simpa [FnctlCall.Accepted] using hcall
    simp only [Backend.step, Amiga.backend, Amiga.fnctlSetState, hargs, Prod.map_snd, id_eq]
  | getUnitSlot unit slot =>
    simp only [Backend.step, Amiga.backend, Amiga.fnctlGetUnitSlot, dif_pos (not_not.mp hcall),
      Prod.map_snd, id_eq]
  | setUnitSlot unit slot =>
    simp only [Backend.step, Amiga.backend, Amiga.fnctlSetUnitSlot, dif_pos (not_not.mp hcall),
      Prod.map_snd, id_eq]

/-- A call that sets no pair keeps the one in the store. -/
theorem amiga_step_storedPair {call : FnctlCall} (hcall : call.acceptedPair = none)
    (m : Amiga.Statics σ) :
    storedPair (A.contents ((Amiga.backend A).step call m).2.store) =
      storedPair (A.contents m.store) := by
  -- a load writes nothing
  have hensured := Amiga.ensureState_contents A m
  cases call with
  | getState state =>
    cases state with
    | false => rfl
    | true => exact congrArg storedPair hensured
  | setState uri path =>
    have hargs : acceptedState uri path = none := hcall
    simp only [Backend.step, Amiga.backend, Amiga.fnctlSetState, hargs, Prod.map_snd, id_eq]
  | getUnitSlot unit slot =>
    simp only [Backend.step, Amiga.backend, Amiga.fnctlGetUnitSlot, Prod.map_snd, id_eq]
    split
    · rfl
    · exact congrArg storedPair ((readSlot_eq A _ _ _).2.trans hensured)
  | setUnitSlot unit slot =>
    simp only [Backend.step, Amiga.backend, Amiga.fnctlSetUnitSlot, Prod.map_snd, id_eq]
    split
    next => rfl
    next hargs =>
      rw [← hensured]
      exact storedPair_writeSlot A (unit_lt_of_setArgs hargs) slot _

/-- Up to the first call that is not rejected nothing happens. -/
theorem amiga_run_rejected {calls : List FnctlCall} (hcalls : ∀ call ∈ calls, ¬ call.Accepted)
    (m : Amiga.Statics σ) : Machine.final (Amiga.backend A).step calls m = m :=
  Machine.final_invariant_of_mem (· = m)
    (fun call hcall _ hm => (amiga_step_rejected A (hcalls call hcall) _).trans hm) rfl

/-- **A run that sets no pair.** The store keeps its pair, and the copy is the one its load
found, which is made in the state the store was in at first. -/
theorem amiga_run_pair {calls : List FnctlCall} (hcalls : ∀ call ∈ calls, call.acceptedPair = none)
    (s₀ : σ) :
    storedPair (A.contents (Machine.final (Amiga.backend A).step calls (Amiga.initial s₀)).store) =
        storedPair (A.contents s₀) ∧
      reportedPair (Amiga.backend A)
          (Machine.final (Amiga.backend A).step calls (Amiga.initial s₀)) =
        some (storedPair (A.loaded s₀)) := by
  -- a call that gives no pair changes neither the stored nor the cached one
  have hstep : ∀ call ∈ calls, ∀ m,
      storedPair (A.contents m.store) = storedPair (A.contents s₀) ∧
        cachedPair A m = storedPair (A.loaded s₀) →
      storedPair (A.contents ((Amiga.backend A).step call m).2.store) =
          storedPair (A.contents s₀) ∧
        cachedPair A ((Amiga.backend A).step call m).2 = storedPair (A.loaded s₀) := by
    rintro call hcall m ⟨hstored, hcached⟩
    have hkept := hcalls call hcall
    refine ⟨(amiga_step_storedPair A hkept m).trans hstored, ?_⟩
    rw [amiga_step_pair, FnctlCall.pairGiven, hkept]
    exact hcached
  obtain ⟨hstored, hcached⟩ := Machine.final_invariant_of_mem _ hstep
    (show storedPair (A.contents (Amiga.initial s₀).store) = storedPair (A.contents s₀) ∧
      cachedPair A (Amiga.initial s₀) = storedPair (A.loaded s₀) from
        ⟨rfl, cachedPair_initial A s₀⟩)
  exact ⟨hstored, congrArg some hcached⟩

/-! ## When the stored pair is reported -/

/-- Every `get_state` made after some of the `calls` while reads succeed reports the stored
pair. -/
def AmigaReportsStored (calls : List FnctlCall) (s₀ : σ) : Prop :=
  ∀ pre, pre <+: calls →
    ReadsSucceed A (Machine.final (Amiga.backend A).step pre (Amiga.initial s₀)).store →
    reportedPair (Amiga.backend A) (Machine.final (Amiga.backend A).step pre (Amiga.initial s₀)) =
      some (storedPair
        (A.contents (Machine.final (Amiga.backend A).step pre (Amiga.initial s₀)).store))

/-- **Failures during the load are remembered.** In a run that sets no pair, the stored pair is
reported whenever reads succeed exactly when the copy was loaded without loss, or reads never
succeed once it is loaded. -/
theorem amiga_reportsStored_iff {calls : List FnctlCall}
    (hcalls : ∀ call ∈ calls, call.acceptedPair = none) (s₀ : σ) :
    AmigaReportsStored A calls s₀ ↔
      ∀ pre, pre <+: calls → (∃ call ∈ pre, call.Accepted) →
        ReadsSucceed A (Machine.final (Amiga.backend A).step pre (Amiga.initial s₀)).store →
        LoadSound A s₀ := by
  refine forall₂_congr fun pre hpre => ?_
  obtain ⟨hstored, hreported⟩ := amiga_run_pair A
    (fun call hcall => hcalls call (hpre.subset hcall)) s₀
  rw [hreported, hstored, Option.some_inj, storedPair_loaded_iff]
  refine ⟨fun hsound _ => hsound, fun hsound hreads => ?_⟩
  rcases Classical.em (∃ call ∈ pre, call.Accepted) with haccepted | hrejected
  · exact hsound haccepted hreads
  · -- nothing has happened yet: the load is still to come, and its reads succeed
    rw [amiga_run_rejected A (by simpa using hrejected)] at hreads
    exact hreads.loadSound

end

/-- The store in memory whose first call fails. -/
def firstReadFails : AppStore sampleHeader CountedStore :=
  faultyStore sampleHeader sampleHeader_exists fun n => n != 0

/-- A store that holds the URI `n` and no display path. -/
def storedUri : CountedStore :=
  ⟨fun k => if k = fnctlKeyUri then some [0x6E] else none, 0⟩

/-- **A failed read is remembered.** The first `get_state` is made when the URI cannot be read.
Later both keys can be, and the URI is still reported as empty. -/
theorem amiga_forgets_storedUri :
    ¬ AmigaReportsStored firstReadFails [.getState true] storedUri := by
  intro hreports
  have hlater := hreports [.getState true] (List.prefix_refl _)
    (show ReadsSucceed firstReadFails _ from ⟨by decide +kernel, by decide +kernel⟩)
  exact absurd hlater (by decide +kernel)

/-- The store in memory whose second call fails. -/
def secondReadFails : AppStore sampleHeader CountedStore :=
  faultyStore sampleHeader sampleHeader_exists fun n => n != 1

/-- Where the display path cannot be read, and there is none, nothing is lost. -/
theorem amiga_reportsStored_noPath :
    AmigaReportsStored secondReadFails [.getState true, .setUnitSlot 3 5] storedUri :=
  (amiga_reportsStored_iff secondReadFails (by simp [FnctlCall.acceptedPair]) storedUri).mpr
    fun _ _ _ _ => ⟨.inl (by decide), .inr (by decide)⟩

end NioApps.Fnctl
