import NioApps.Fnctl.FailedLoad

/-!
# Fnctl — the slot `fnctl_get_unit_slot` reports when the store fails

In every backend one branch of `fnctl_get_unit_slot` serves a missing key, an empty value and a
read that fails alike: it reports a default and returns 1. The default is the unit itself, on
Amiga the slot in memory, which `fnctl_set_unit_slot` changes before it writes. The store is any
`AppStore`: any read and any write may fail.

* `FnctlCall.slotGiven`, `slotSet` — the slot a call asks for, and the one it sets.
* `ReadsSlots.step`, `amiga_step_contents`, `amiga_step_cachedSlot` — what one call does to the
  slots.
* `slotLaws` — what the four backends report after a run.
-/

namespace NioApps.Fnctl

/-- The slot a call gives to a `set_unit_slot` of `unit` that goes on with it. -/
def FnctlCall.slotGiven (unit : UInt8) : FnctlCall → Option UInt8
  | .setUnitSlot unit' slot =>
    if unit' = unit ∧ slot.toNat < fnctlMaxUnits then some slot else none
  | _ => none

/-- The slot a call sets: that of a `set_unit_slot` of `unit` that returns 1. -/
def slotSet {τ : Type} (b : Backend τ) (unit : UInt8) (call : FnctlCall) (m : τ) :
    Option UInt8 :=
  if (b.step call m).1.ret then call.slotGiven unit else none

theorem slotSet_of_slotGiven {τ : Type} {b : Backend τ} {unit : UInt8} {call : FnctlCall}
    (hcall : call.slotGiven unit = none) (m : τ) : slotSet b unit call m = none := by
  rw [slotSet, hcall, ite_self]

theorem slotGiven_setUnitSlot_self {unit slot : UInt8} (hslot : slot.toNat < fnctlMaxUnits) :
    (FnctlCall.setUnitSlot unit slot).slotGiven unit = some slot := if_pos ⟨rfl, hslot⟩

theorem slotGiven_setUnitSlot_of_ne {unit unit' : UInt8} (hunit : unit' ≠ unit) (slot : UInt8) :
    (FnctlCall.setUnitSlot unit' slot).slotGiven unit = none := if_neg fun h => hunit h.1

theorem slotGiven_setUnitSlot_rejected {unit unit' slot : UInt8} (hu : unit.toNat < fnctlMaxUnits)
    (hargs : unit'.toNat ≥ fnctlMaxUnits ∨ slot.toNat ≥ fnctlMaxUnits) :
    (FnctlCall.setUnitSlot unit' slot).slotGiven unit = none := by
  refine if_neg fun hgiven => ?_
  rw [hgiven.1] at hargs
  exact hargs.elim (Nat.not_le_of_gt hu) (Nat.not_le_of_gt hgiven.2)

section

variable {h : FujinetNio} {σ : Type} (A : AppStore h σ)

/-- **One write of a slot**, seen under the key of `unit`. -/
theorem contents_writeSlot {unit unit' slot : UInt8} (hunit : unit.toNat < fnctlMaxUnits)
    (hargs : ¬ (unit'.toNat ≥ fnctlMaxUnits ∨ slot.toNat ≥ fnctlMaxUnits)) (s : σ) :
    A.contents (writeSlot A unit' slot s).2 (unitKey unit) =
      ((if (writeSlot A unit' slot s).1 then (FnctlCall.setUnitSlot unit' slot).slotGiven unit
        else none).map fun slot => some [slot]).getD (A.contents s (unitKey unit)) := by
  rw [writeSlot_eq]
  rcases eq_or_ne unit' unit with rfl | hne
  · rw [slotGiven_setUnitSlot_self (show slot.toNat < fnctlMaxUnits by omega)]
    cases (writeSlot A unit' slot s).1 with
    | true => exact Function.update_self _ _ _
    | false => rfl
  · have hkey : unitKey unit ≠ unitKey unit' := fun hkey =>
      hne (unitKey_inj hunit (unit_lt_of_setArgs hargs) hkey).symm
    rw [slotGiven_setUnitSlot_of_ne hne, ite_self]
    cases (writeSlot A unit' slot s).1 with
    | true => exact Function.update_of_ne hkey _ _
    | false => rfl

/-- The pair is written under keys of its own. -/
theorem contents_writePair {u p : CStr} (hu : u.len ≤ fnctlMaxUri) (hp : p.len ≤ fnctlMaxPath)
    (unit : UInt8) (s : σ) :
    A.contents (writePair A u p s).2 (unitKey unit) = A.contents s (unitKey unit) := by
  rw [writePair_eq A hu hp]
  split
  · exact storePair_unitKey u p _ unit
  · split
    · exact Function.update_of_ne (unitKey_ne_keyUri unit) _ _
    · rfl

/-- Writing the URI touches no slot. -/
theorem contents_writeUri {u : CStr} (hu : u.len ≤ fnctlMaxUri) (unit : UInt8) (s : σ) :
    A.contents (writeKey A fnctlKeyUri u s).2 (unitKey unit) = A.contents s (unitKey unit) := by
  rw [writeKey_eq A fnctlKeyUri hu]
  split
  · exact Function.update_of_ne (unitKey_ne_keyUri unit) _ _
  · rfl

/-- A read of the slot of `unit` succeeds in the state `s`. -/
def SlotRead (unit : UInt8) (s : σ) : Prop :=
  (A.read (unitKey unit) 0 1 s).1.result = h.fnOk

instance (unit : UInt8) (s : σ) : Decidable (SlotRead A unit s) :=
  inferInstanceAs (Decidable (_ = _))

/-- What is reported for a slot that was set by the calls, if by any. -/
theorem storedSlot_seen {unit fallback : UInt8} {s : σ} {slot : Option UInt8}
    (hcontents : A.contents s (unitKey unit) = (slot.map fun slot => some [slot]).getD none) :
    storedSlot fallback (A.seen (unitKey unit) 1 s) =
      if SlotRead A unit s then slot.getD fallback else fallback := by
  rcases Classical.em (SlotRead A unit s) with hok | hfailed
  · rw [if_pos hok, AppStore.seen_of_ok hok, hcontents]
    cases slot with
    | none => rfl
    | some slot => rfl
  · rw [if_neg hfailed, AppStore.seen_of_failed hfailed]
    rfl

/-! ## The backends without a copy -/

/-- What the three backends without a copy have in common. -/
structure ReadsSlots (b : Backend σ) : Prop where
  getUnitSlot : b.getUnitSlot = getUnitSlotFrom A
  setUnitSlot : b.setUnitSlot = setUnitSlotIn A
  getState : ∀ state s, A.contents (b.getState state s).2 = A.contents s
  setState : ∀ uri path s unit,
    A.contents (b.setState uri path s).2 (unitKey unit) = A.contents s (unitKey unit)

/-- Linux reads each slot from the store. -/
theorem linux_readsSlots : ReadsSlots A (Linux.backend A) where
  getUnitSlot := rfl
  setUnitSlot := rfl
  getState state s := (getStateFrom_eq A state s).2
  setState uri path s unit := by
    show A.contents (Linux.fnctlSetState A uri path s).2 (unitKey unit) = _
    unfold Linux.fnctlSetState
    cases hargs : acceptedState uri path with
    | none => rfl
    | some up =>
      have hlens := (acceptedState_eq_some hargs).2.2
      exact contents_writePair A hlens.1 hlens.2 unit s

/-- Setting the URI alone touches no slot. -/
theorem contents_setUriOnly (uri path : Option CStr) (s : σ) (unit : UInt8) :
    A.contents (setUriOnly A uri path s).2 (unitKey unit) = A.contents s (unitKey unit) := by
  unfold setUriOnly
  cases hargs : acceptedState uri path with
  | none => rfl
  | some up => exact contents_writeUri A (acceptedState_eq_some hargs).2.2.1 unit s

theorem atari_readsSlots : ReadsSlots A (Atari.backend A) where
  getUnitSlot := rfl
  setUnitSlot := rfl
  getState state s := (getStateFrom_eq A state s).2
  setState := contents_setUriOnly A

/-- BBC reads each slot from the store. -/
theorem bbc_readsSlots : ReadsSlots A (Bbc.backend A) where
  getUnitSlot := rfl
  setUnitSlot := rfl
  getState state s := by
    show A.contents (getStateFrom A Bbc.clearedState state s).2 = A.contents s
    rw [Bbc.clearedState_eq]
    exact (getStateFrom_eq A state s).2
  setState := contents_setUriOnly A

section Uncached

variable {A} {b : Backend σ} {unit : UInt8}

/-- **One call.** The value under the key of a unit is replaced by a `set_unit_slot` of that unit
that returns 1, and kept otherwise. -/
theorem ReadsSlots.step (hb : ReadsSlots A b) (hunit : unit.toNat < fnctlMaxUnits)
    (call : FnctlCall) (s : σ) :
    A.contents (b.step call s).2 (unitKey unit) =
      ((slotSet b unit call s).map fun slot => some [slot]).getD
        (A.contents s (unitKey unit)) := by
  cases call with
  -- a call that gives no slot writes none
  | getState state =>
    rw [slotSet_of_slotGiven rfl]
    exact congrFun (hb.getState state s) _
  | setState uri path =>
    rw [slotSet_of_slotGiven rfl]
    exact hb.setState uri path s unit
  | getUnitSlot unit' slot =>
    rw [slotSet_of_slotGiven rfl]
    simp only [Backend.step, hb.getUnitSlot, Prod.map_snd, id_eq]
    exact congrFun (getUnitSlotFrom_eq A unit' slot s).2 _
  | setUnitSlot unit' slot =>
    rcases Classical.em (unit'.toNat ≥ fnctlMaxUnits ∨ slot.toNat ≥ fnctlMaxUnits) with
      hrejected | hargs
    · -- rejected arguments are given to no unit
      rw [slotSet_of_slotGiven (slotGiven_setUnitSlot_rejected hunit hrejected)]
      simp only [Backend.step, hb.setUnitSlot, setUnitSlotIn, if_pos hrejected, Prod.map_snd, id_eq]
      rfl
    · -- the slot is stored exactly where the write returned true
      simp only [slotSet, Backend.step, hb.setUnitSlot, setUnitSlotIn, if_neg hargs, Prod.map_fst,
        Prod.map_snd, id_eq, FnctlOut.ret]
      exact contents_writeSlot A hunit hargs s

/-- What a backend that reads the slots reports, in terms of what the read showed. -/
theorem ReadsSlots.getUnitSlot_eq (hb : ReadsSlots A b) (hunit : unit.toNat < fnctlMaxUnits)
    (s : σ) :
    (b.getUnitSlot unit true s).1 = some (storedSlot unit (A.seen (unitKey unit) 1 s)) := by
  rw [hb.getUnitSlot, (getUnitSlotFrom_eq A unit true s).1, if_neg]
  simpa using hunit

end Uncached

/-! ## Amiga -/

/-- The slot in memory once the copy is loaded. -/
def cachedSlot (k : UnitId) (m : Amiga.Statics σ) : UInt8 := (Amiga.ensureState A m).slotOf k

/-- As loaded, the cached slot of a unit is its own number. -/
theorem cachedSlot_initial (k : UnitId) (s : σ) :
    cachedSlot A k (Amiga.initial s) = k.val := by
  show (Vector.ofFn fun i : Fin fnctlMaxUnits => UInt8.ofNat i.val)[k.val.toNat] = k.val
  rw [Vector.getElem_ofFn, UInt8.ofNat_toNat]

/-- After a load the cached slot is the one in the statics. -/
theorem cachedSlot_of_initialized (k : UnitId) {m : Amiga.Statics σ}
    (hinit : m.stateInitialized = true) : cachedSlot A k m = m.slotOf k := by
  rw [cachedSlot, Amiga.ensureState_of_initialized A hinit]

/-- The slots stay whatever becomes of the store and the pair. -/
theorem cachedSlot_ensured {m m' : Amiga.Statics σ} (k : UnitId)
    (hslots : m'.unitSlots = (Amiga.ensureState A m).unitSlots)
    (hinit : m'.stateInitialized = true) : cachedSlot A k m' = cachedSlot A k m := by
  rw [cachedSlot_of_initialized A k hinit]
  simp only [Amiga.Statics.slotOf, hslots, cachedSlot]

/-- **One call of Amiga.** The slot in memory is replaced by every `set_unit_slot` that goes on
with its arguments, whatever it returns. -/
theorem amiga_step_cachedSlot (k : UnitId) (call : FnctlCall) (m : Amiga.Statics σ) :
    cachedSlot A k ((Amiga.backend A).step call m).2 =
      (call.slotGiven k.val).getD (cachedSlot A k m) := by
  -- every accepted call fills the cache first
  have hinit := Amiga.ensureState_stateInitialized A m
  cases call with
  | getState state =>
    cases state with
    | false => rfl
    | true => exact cachedSlot_ensured A k rfl hinit
  | setState uri path =>
    cases hargs : acceptedState uri path with
    | none =>
      simp only [Backend.step, Amiga.backend, Amiga.fnctlSetState, hargs]
      rfl
    | some up =>
      simp only [Backend.step, Amiga.backend, Amiga.fnctlSetState, hargs, Prod.map_snd, id_eq]
      exact cachedSlot_ensured A k rfl hinit
  | getUnitSlot unit slot =>
    simp only [Backend.step, Amiga.backend, Amiga.fnctlGetUnitSlot, Prod.map_snd, id_eq]
    split
    · rfl
    · exact cachedSlot_ensured A k rfl hinit
  | setUnitSlot unit slot =>
    simp only [Backend.step, Amiga.backend, Amiga.fnctlSetUnitSlot, Prod.map_snd, id_eq]
    split
    next hrejected =>
      rw [slotGiven_setUnitSlot_rejected k.property hrejected]
      rfl
    next hargs =>
      rw [cachedSlot_of_initialized A k]
      swap
      · exact hinit
      rcases eq_or_ne unit k.val with rfl | hne
      · rw [slotGiven_setUnitSlot_self (show slot.toNat < fnctlMaxUnits by omega)]
        exact Vector.getElem_set_self _
      · -- another unit has another place in the array
        have hindex : unit.toNat ≠ k.val.toNat := fun hindex => hne (UInt8.toNat_inj.mp hindex)
        rw [slotGiven_setUnitSlot_of_ne hne]
        simp only [Amiga.Statics.slotOf, Vector.getElem_set_ne _ _ hindex]
        rfl

/-- The value under the key of a unit changes as it does in the other backends. -/
theorem amiga_step_contents (k : UnitId) (call : FnctlCall) (m : Amiga.Statics σ) :
    A.contents ((Amiga.backend A).step call m).2.store (unitKey k.val) =
      ((slotSet (Amiga.backend A) k.val call m).map fun slot => some [slot]).getD
        (A.contents m.store (unitKey k.val)) := by
  -- filling the cache writes nothing
  have hensured := congrFun (Amiga.ensureState_contents A m) (unitKey k.val)
  cases call with
  | getState state =>
    cases state with
    | false => rfl
    | true => exact hensured
  | setState uri path =>
    rw [slotSet_of_slotGiven rfl]
    simp only [Backend.step, Amiga.backend, Amiga.fnctlSetState, Prod.map_snd, id_eq]
    cases hargs : acceptedState uri path with
    | none => rfl
    | some up =>
      -- the pair has keys of its own
      have hlens := (acceptedState_eq_some hargs).2.2
      exact (contents_writePair A hlens.1 hlens.2 _ _).trans hensured
  | getUnitSlot unit slot =>
    rw [slotSet_of_slotGiven rfl]
    simp only [Backend.step, Amiga.backend, Amiga.fnctlGetUnitSlot, Prod.map_snd, id_eq]
    split
    · rfl
    · exact (congrFun (readSlot_eq A _ _ _).2 _).trans hensured
  | setUnitSlot unit slot =>
    rcases Classical.em (unit.toNat ≥ fnctlMaxUnits ∨ slot.toNat ≥ fnctlMaxUnits) with
      hrejected | hargs
    · rw [slotSet_of_slotGiven (slotGiven_setUnitSlot_rejected k.property hrejected)]
      simp only [Backend.step, Amiga.backend, Amiga.fnctlSetUnitSlot, dif_pos hrejected,
        Prod.map_snd, id_eq]
      rfl
    · simp only [slotSet, Backend.step, Amiga.backend, Amiga.fnctlSetUnitSlot, dif_neg hargs,
        Prod.map_fst, Prod.map_snd, id_eq, FnctlOut.ret]
      -- the slot is written to the store as the load left it
      rw [contents_writeSlot A k.property hargs, hensured]

/-- What Amiga reports: what the read showed, else the cached slot. -/
theorem amiga_getUnitSlot_eq (k : UnitId) (m : Amiga.Statics σ) :
    ((Amiga.backend A).getUnitSlot k.val true m).1 =
      some (storedSlot (cachedSlot A k m)
        (A.seen (unitKey k.val) 1 (Amiga.ensureState A m).store)) := by
  have hargs : ¬ (true = false ∨ k.val.toNat ≥ fnctlMaxUnits) := by simpa using k.property
  simp only [Amiga.backend, Amiga.fnctlGetUnitSlot, dif_neg hargs]
  rw [(readSlot_eq A k.val _ _).1]
  rfl

/-! ## The four backends -/

/-- After the `calls` a backend without a copy reports the slot set last for the unit, or the unit
itself where no call set one or its slot cannot be read. -/
def ReportsSetOrUnit (b : Backend σ) (k : UnitId) (calls : List FnctlCall) (s₀ : σ) : Prop :=
  (b.getUnitSlot k.val true (Machine.final b.step calls s₀)).1 =
    some (if SlotRead A k.val (Machine.final b.step calls s₀) then
      (Machine.lastPick b.step (slotSet b k.val) calls s₀).getD k.val else k.val)

/-- After the `calls` Amiga reports the slot set last for the unit; where no call set one, or its
slot cannot be read, the slot a call went on with last, or else the unit itself. -/
def ReportsSetOrGiven (k : UnitId) (calls : List FnctlCall) (s₀ : σ) : Prop :=
  let m := Machine.final (Amiga.backend A).step calls (Amiga.initial s₀)
  let given := (Machine.lastPick (Amiga.backend A).step (fun call _ => call.slotGiven k.val) calls
    (Amiga.initial s₀)).getD k.val
  ((Amiga.backend A).getUnitSlot k.val true m).1 =
    some (if SlotRead A k.val (Amiga.ensureState A m).store then
      (Machine.lastPick (Amiga.backend A).step (slotSet (Amiga.backend A) k.val) calls
        (Amiga.initial s₀)).getD given else given)

/-- By induction over the calls: the last slot that was set, or the number of the unit. -/
theorem ReadsSlots.run {A : AppStore h σ} {b : Backend σ} (hb : ReadsSlots A b) (k : UnitId)
    {s₀ : σ} (hnone : A.contents s₀ (unitKey k.val) = none) (calls : List FnctlCall) :
    ReportsSetOrUnit A b k calls s₀ := by
  have hcontents := Machine.final_eq_lastPick (f := fun s => A.contents s (unitKey k.val))
    (fun call s => hb.step k.property call s) calls s₀
  rw [Machine.lastPick_map, hnone] at hcontents
  rw [ReportsSetOrUnit, hb.getUnitSlot_eq k.property, storedSlot_seen A hcontents]

/-- The same on Amiga, where the cache stands in for a failed read: it holds the slot last given. -/
theorem amiga_run_slot (k : UnitId) {s₀ : σ} (hnone : A.contents s₀ (unitKey k.val) = none)
    (calls : List FnctlCall) : ReportsSetOrGiven A k calls s₀ := by
  unfold ReportsSetOrGiven
  intro m given
  have hcontents : A.contents (Amiga.ensureState A m).store (unitKey k.val) = _ :=
    (congrFun (Amiga.ensureState_contents A m) _).trans
      (Machine.final_eq_lastPick (f := fun m => A.contents m.store (unitKey k.val))
        (amiga_step_contents A k) calls (Amiga.initial s₀))
  rw [Machine.lastPick_map, show A.contents (Amiga.initial s₀).store _ = none from hnone]
    at hcontents
  have hcached := Machine.final_eq_lastPick (amiga_step_cachedSlot A k) calls (Amiga.initial s₀)
  rw [cachedSlot_initial] at hcached
  rw [amiga_getUnitSlot_eq, storedSlot_seen A hcontents, hcached]

/-- What the four backends report for a unit after a run. -/
structure SlotLaws (k : UnitId) (calls : List FnctlCall) (s₀ : σ) : Prop where
  linux : ReportsSetOrUnit A (Linux.backend A) k calls s₀
  atari : ReportsSetOrUnit A (Atari.backend A) k calls s₀
  bbc : ReportsSetOrUnit A (Bbc.backend A) k calls s₀
  amiga : ReportsSetOrGiven A k calls s₀

/-- **The reported slot.** From a store without a slot for the unit, for every run and every
placement of failures, `get_unit_slot` returns 1 and reports what the laws say. -/
theorem slotLaws (k : UnitId) {s₀ : σ} (hnone : A.contents s₀ (unitKey k.val) = none)
    (calls : List FnctlCall) : SlotLaws A k calls s₀ where
  linux := (linux_readsSlots A).run k hnone calls
  atari := (atari_readsSlots A).run k hnone calls
  bbc := (bbc_readsSlots A).run k hnone calls
  amiga := amiga_run_slot A k hnone calls

end

/-! ## A slot that is not in force -/

def CountedStore.empty : CountedStore := ⟨fun _ => none, 0⟩

theorem three_lt_maxUnits : (3 : UInt8).toNat < fnctlMaxUnits := by decide

def unitThree : UnitId := ⟨3, three_lt_maxUnits⟩

theorem slotLaws_secondReadFails :
    SlotLaws secondReadFails unitThree [.setUnitSlot 3 5] CountedStore.empty :=
  slotLaws secondReadFails unitThree rfl [.setUnitSlot 3 5]

/-- What would have to hold for only slots in force to be reported. -/
def ReportsInForce {τ : Type} (b : Backend τ) (k : UnitId) (calls : List FnctlCall) (m : τ) :
    Prop :=
  ∀ slot, (b.getUnitSlot k.val true (Machine.final b.step calls m)).1 = some slot →
    slot = (Machine.lastPick b.step (slotSet b k.val) calls m).getD k.val

/-- The store in memory whose third call fails. -/
def thirdCallFails : AppStore sampleHeader CountedStore :=
  faultyStore sampleHeader sampleHeader_exists fun n => n != 2

/-- **Slots that are not in force.** Unit 3 is set to slot 5. Where the write succeeds and the
read fails, the backends without a copy report 3; where the write fails, Amiga reports 5. -/
theorem slot_not_in_force :
    ¬ ReportsInForce (Linux.backend secondReadFails) unitThree [.setUnitSlot 3 5]
        CountedStore.empty ∧
      ¬ ReportsInForce (Atari.backend secondReadFails) unitThree [.setUnitSlot 3 5]
        CountedStore.empty ∧
      ¬ ReportsInForce (Bbc.backend secondReadFails) unitThree [.setUnitSlot 3 5]
        CountedStore.empty ∧
      ¬ ReportsInForce (Amiga.backend thirdCallFails) unitThree [.setUnitSlot 3 5]
        (Amiga.initial CountedStore.empty) := by
  -- the read that follows the set fails, and a slot that nobody asked for is reported
  refine ⟨?_, ?_, ?_, ?_⟩
  · intro hforce
    exact absurd (hforce 3 (by decide +kernel)) (by decide +kernel)
  · intro hforce
    exact absurd (hforce 3 (by decide +kernel)) (by decide +kernel)
  · intro hforce
    exact absurd (hforce 3 (by decide +kernel)) (by decide +kernel)
  · intro hforce
    exact absurd (hforce 5 (by decide +kernel)) (by decide +kernel)

end NioApps.Fnctl
