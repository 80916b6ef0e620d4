import NioApps.Fnctl.Registers

/-!
# Fnctl — the backend that keeps a copy in memory

`platform/amiga/fnctl.c` keeps the state block and the slots in static variables, fills them at
whichever call comes first (`ensure_state`), and from then on writes every change both to them
and to the store. `Coherent` is what makes the copy good for an answer; every call preserves it,
and `amiga_refines_linux` follows: nobody can tell the backend from the one that reads the store
on every call.

* `Statics` — the static variables over a store, `initial` when the program is loaded.
* `ensureState_spec`, `step_contents` — the first call fills the copy, every call keeps it good.
-/

namespace NioApps.Fnctl

namespace Amiga

/-- The static variables, over the states `σ` of the store. -/
structure Statics (σ : Type) where
  store : σ
  state : FnctlState
  unitSlots : Vector UInt8 fnctlMaxUnits
  stateInitialized : Bool

section Code

variable {h : FujinetNio} {σ : Type} (A : AppStore h σ)

/-- The static variables when the program is loaded. -/
def initial (store : σ) : Statics σ where
  store := store
  state := FnctlState.zero
  unitSlots := Vector.replicate fnctlMaxUnits 0
  stateInitialized := false

def ensureState (m : Statics σ) : Statics σ :=
  if m.stateInitialized then m
  else
    let (state, store) := fillState A FnctlState.zero m.store
    { store := store
      state := state
      unitSlots := Vector.ofFn fun i => UInt8.ofNat i.val
      stateInitialized := true }

def fnctlGetState (out : Bool) (m : Statics σ) : Option FnctlState × Statics σ :=
  if out = false then (none, m)
  else
    let m := ensureState A m
    (some m.state, m)

/-- The state block after the two strings were copied into it, terminators included. -/
def setStrings (state : FnctlState) (uri path : CStr) : FnctlState :=
  { state with
    currentUri := memcpy state.currentUri (uri.bytes ++ [0])
    displayPath := memcpy state.displayPath (path.bytes ++ [0])
    currentUriLen := u16 uri.len
    displayPathLen := u16 path.len }

def fnctlSetState (uri displayPath : Option CStr) (m : Statics σ) : Bool × Statics σ :=
  match acceptedState uri displayPath with
  | none => (false, m)
  | some (uri, path) =>
    let m := ensureState A m
    -- the copy is changed before anything is written, and stays changed if a write fails
    let m := { m with state := setStrings m.state uri path }
    let (stored, store) := writePair A uri path m.store
    (stored, { m with store := store })

def fnctlGetUnitSlot (unit : UInt8) (slot : Bool) (m : Statics σ) : Option UInt8 × Statics σ :=
  if hargs : slot = false ∨ unit.toNat ≥ fnctlMaxUnits then (none, m)
  else
    have hunit : unit.toNat < fnctlMaxUnits := unit_lt_of_getArgs hargs
    let m := ensureState A m
    let (out, store) := readSlot A unit m.unitSlots[unit.toNat] m.store
    (some out, { m with store := store })

def fnctlSetUnitSlot (unit slot : UInt8) (m : Statics σ) : Bool × Statics σ :=
  if hargs : unit.toNat ≥ fnctlMaxUnits ∨ slot.toNat ≥ fnctlMaxUnits then (false, m)
  else
    have hunit : unit.toNat < fnctlMaxUnits := unit_lt_of_setArgs hargs
    let m := ensureState A m
    let m := { m with unitSlots := m.unitSlots.set unit.toNat slot }
    let (stored, store) := writeSlot A unit slot m.store
    (stored, { m with store := store })

def backend : Backend (Statics σ) where
  getState := fnctlGetState A
  setState := fnctlSetState A
  getUnitSlot := fnctlGetUnitSlot A
  setUnitSlot := fnctlSetUnitSlot A

end Code

/-! ## Coherence -/

def Statics.slotOf {σ : Type} (m : Statics σ) : UnitId → UInt8
  | ⟨unit, _⟩ => m.unitSlots[unit.toNat]

section Spec

variable {h : FujinetNio} {σ : Type}

/-- The copy in memory gives the answers the store would give. A cached slot is only a fallback,
so it may differ from what the store holds as long as the store answers for it. -/
structure Coherent (A : AppStore h σ) (m : Statics σ) : Prop where
  state : m.state.view = pairView (registersOf (A.contents m.store)).uri
    (registersOf (A.contents m.store)).path
  slots : ∀ k : UnitId, storedSlot (m.slotOf k) (A.contents m.store (unitKey k.val)) =
    (registersOf (A.contents m.store)).slot k

/-- What holds between calls: the copy is coherent once it is filled. -/
def Inv (A : AppStore h σ) (m : Statics σ) : Prop := m.stateInitialized = true → Coherent A m

theorem inv_initial (A : AppStore h σ) (s : σ) : Inv A (initial s) := fun hinit => by cases hinit

/-- **The first call fills the copy.** After `ensure_state` it is coherent, and the store holds
what it held. -/
theorem ensureState_spec (A : ReadableStore h σ) {m : Statics σ} (hm : Inv A.toAppStore m) :
    Coherent A.toAppStore (ensureState A.toAppStore m) ∧
      A.contents (ensureState A.toAppStore m).store = A.contents m.store := by
  unfold ensureState
  cases hinit : m.stateInitialized with
  -- a cache that is filled is coherent by the invariant
  | true => exact ⟨hm hinit, rfl⟩
  | false =>
    -- the first load: what is cached is what was read
    have hfill := fillState_eq A.toAppStore FnctlState.zero rfl rfl m.store
    rw [A.loaded_eq] at hfill
    simp only [Bool.false_eq_true, if_false]
    generalize fillState A.toAppStore FnctlState.zero m.store = out at hfill
    obtain ⟨state, store⟩ := out
    obtain ⟨rfl, hcontents⟩ := hfill
    dsimp only at hcontents ⊢
    refine ⟨⟨?_, fun k => ?_⟩, hcontents⟩
    · dsimp only
      rw [hcontents]
      exact view_filledState rfl _
    · -- the slots are filled with the units themselves, the fallback of the other backends
      obtain ⟨unit, hunit⟩ := k
      simp only [Statics.slotOf, Vector.getElem_ofFn, UInt8.ofNat_toNat]
      rfl

/-- Filling the copy leaves the store as it was, whatever the reads return. -/
theorem ensureState_contents (A : AppStore h σ) (m : Statics σ) :
    A.contents (ensureState A m).store = A.contents m.store := by
  unfold ensureState
  cases hinit : m.stateInitialized with
  | true => rfl
  | false => exact (fillState_eq A FnctlState.zero rfl rfl m.store).2

/-- After `ensure_state` the cache is filled, whatever the store answered. -/
theorem ensureState_stateInitialized (A : AppStore h σ) (m : Statics σ) :
    (ensureState A m).stateInitialized = true := by
  unfold ensureState
  cases hinit : m.stateInitialized with
  | true => exact hinit
  | false => rfl

theorem ensureState_of_initialized (A : AppStore h σ) {m : Statics σ}
    (hinit : m.stateInitialized = true) : ensureState A m = m := if_pos hinit

/-- The copied strings are what the block reports, however long the ones before them were. -/
theorem view_setStrings {state : FnctlState} {uri path : List UInt8} {u p : CStr}
    (hview : state.view = pairView uri path) (hu : u.len ≤ fnctlMaxUri)
    (hp : p.len ≤ fnctlMaxPath) :
    (setStrings state u p).view = pairView u.bytes p.bytes := by
  have huLen : u16 u.len = u.bytes.length := u16_of_lt (Nat.lt_of_le_of_lt hu (by decide))
  have hpLen : u16 p.len = p.bytes.length := u16_of_lt (Nat.lt_of_le_of_lt hp (by decide))
  have hsignature : state.signature = fnctlSignature := congrArg StateView.signature hview
  have hversion : state.version = fnctlVersion := congrArg StateView.version hview
  have hmaxUnits : state.maxUnits = UInt8.ofNat fnctlMaxUnits :=
    congrArg StateView.maxUnits hview
  simp only [setStrings, FnctlState.view, pairView, cstr_memcpy_terminated, huLen, hpLen,
    hsignature, hversion, hmaxUnits]

/-- Both strings set in the cache and in the store: they still agree. -/
theorem Coherent.setStrings {A : AppStore h σ} {m : Statics σ} (hm : Coherent A m) {u p : CStr}
    (hu : u.len ≤ fnctlMaxUri) (hp : p.len ≤ fnctlMaxPath) {store : σ}
    (hcontents : A.contents store = storePair u p (A.contents m.store)) :
    Coherent A { m with state := Amiga.setStrings m.state u p, store := store } where
  state := by
    dsimp only
    rw [hcontents, registersOf_storePair hu hp]
    exact view_setStrings hm.state hu hp
  slots k := by
    dsimp only
    rw [hcontents, registersOf_storePair hu hp, storePair_unitKey]
    exact hm.slots k

/-- One slot set in the cache and in the store: they still agree. -/
theorem Coherent.setSlot {A : AppStore h σ} {m : Statics σ} (hm : Coherent A m) (unit : UnitId)
    (slot : UInt8) {store : σ}
    (hcontents : A.contents store =
      Function.update (A.contents m.store) (unitKey unit.val) (some [slot])) :
    Coherent A { m with
      unitSlots := m.unitSlots.set unit.val.toNat slot unit.property, store := store } where
  state := by
    dsimp only
    rw [hcontents, registersOf_storeSlot]
    exact hm.state
  slots k := by
    dsimp only
    rw [hcontents, registersOf_storeSlot]
    dsimp only
    by_cases hk : k = unit
    · subst hk
      rw [Function.update_self, Function.update_self]
      rfl
    · -- another unit has another key and another place in the array
      have hkey : unitKey k.val ≠ unitKey unit.val := fun hkey =>
        hk (Subtype.ext (unitKey_inj k.property unit.property hkey))
      have hindex : unit.val.toNat ≠ k.val.toNat := fun hindex =>
        hk (Subtype.ext (UInt8.toNat_inj.mp hindex.symm))
      rw [Function.update_of_ne hkey, Function.update_of_ne hk, ← hm.slots k]
      simp only [Statics.slotOf, Vector.getElem_set_ne _ _ hindex]

end Spec

/-! ## The four operations -/

section Step

variable {h : FujinetNio} {σ : Type}

/-- A call that answers as the contents machine does, leaves the same contents and keeps the
invariant. -/
def StepContents (A : ReliableStore h σ) (call : FnctlCall) (m : Statics σ) : Prop :=
  let out := (backend A.toAppStore).step call m
  let spec := contentsStep storePair call (A.contents m.store)
  out.1.report = spec.1.report ∧ A.contents out.2.store = spec.2 ∧ Inv A.toAppStore out.2

/-- `fnctl_get_state` refines the step over the contents. -/
theorem getState_contents (A : ReliableStore h σ) {m : Statics σ} (hm : Inv A.toAppStore m)
    (state : Bool) : StepContents A (.getState state) m := by
  cases state with
  | false => exact ⟨rfl, rfl, hm⟩
  | true =>
    obtain ⟨hcoherent, hcontents⟩ := ensureState_spec A.toReadableStore hm
    refine ⟨?_, hcontents, fun _ => hcoherent⟩
    -- the filled copy reports what a block read from the store would
    have hview := hcoherent.state
    rw [hcontents, ← view_reportedState] at hview
    exact congrArg (fun v => Report.state (some v)) hview

/-- `fnctl_set_state` refines the step over the contents. -/
theorem setState_contents (A : ReliableStore h σ) {m : Statics σ} (hm : Inv A.toAppStore m)
    (uri path : Option CStr) : StepContents A (.setState uri path) m := by
  unfold StepContents
  cases hargs : acceptedState uri path with
  | none =>
    simp only [contentsStep_rejected hargs, Backend.step, backend, fnctlSetState, hargs]
    exact ⟨rfl, rfl, hm⟩
  | some up =>
    obtain ⟨u, p⟩ := up
    obtain ⟨-, -, hu, hp⟩ := acceptedState_eq_some hargs
    obtain ⟨hcoherent, hcontents⟩ := ensureState_spec A.toReadableStore hm
    have hret := writePair_reliable A hu hp (ensureState A.toAppStore m).store
    have hpair := writePair_eq A.toAppStore hu hp (ensureState A.toAppStore m).store
    rw [hret, if_pos rfl] at hpair
    -- copy and store take the same pair
    simp only [contentsStep_accepted hargs, Backend.step, backend, fnctlSetState, hargs,
      Prod.map_fst, Prod.map_snd, id_eq, hret]
    rw [← hcontents]
    exact ⟨trivial, hpair, fun _ => hcoherent.setStrings hu hp hpair⟩

/-- `fnctl_get_unit_slot` refines the step over the contents: the answer of the store goes before
the cached one, and the two are the same. -/
theorem getUnitSlot_contents (A : ReliableStore h σ) {m : Statics σ} (hm : Inv A.toAppStore m)
    (unit : UInt8) (slot : Bool) : StepContents A (.getUnitSlot unit slot) m := by
  unfold StepContents
  by_cases hargs : slot = false ∨ unit.toNat ≥ fnctlMaxUnits
  · simp only [Backend.step, backend, fnctlGetUnitSlot, contentsStep, dif_pos hargs,
      if_pos hargs]
    exact ⟨rfl, rfl, hm⟩
  · have hunit := unit_lt_of_getArgs hargs
    obtain ⟨hcoherent, hcontents⟩ := ensureState_spec A.toReadableStore hm
    obtain ⟨hread, hkept⟩ := readSlot_eq A.toAppStore unit
      (ensureState A.toAppStore m).unitSlots[unit.toNat] (ensureState A.toAppStore m).store
    have hslot := hcoherent.slots ⟨unit, hunit⟩
    -- reading the slot leaves the store, and so the cache agrees with it as before
    have hcoherent' : Coherent A.toAppStore { ensureState A.toAppStore m with
        store := (readSlot A.toAppStore unit (ensureState A.toAppStore m).unitSlots[unit.toNat]
          (ensureState A.toAppStore m).store).2 } :=
      ⟨by rw [hkept]; exact hcoherent.state, fun k => by rw [hkept]; exact hcoherent.slots k⟩
    simp only [Backend.step, backend, fnctlGetUnitSlot, contentsStep, dif_neg hargs,
      if_neg hargs, Prod.map_fst, Prod.map_snd, id_eq]
    refine ⟨?_, hkept.trans hcontents, fun _ => hcoherent'⟩
    -- the answer of the store is the cached one
    rw [hread, A.seen_eq _ (by decide), ← hcontents]
    exact congrArg (fun out => Report.slot (some out)) hslot

/-- `fnctl_set_unit_slot` refines the step over the contents. -/
theorem setUnitSlot_contents (A : ReliableStore h σ) {m : Statics σ} (hm : Inv A.toAppStore m)
    (unit slot : UInt8) : StepContents A (.setUnitSlot unit slot) m := by
  unfold StepContents
  by_cases hargs : unit.toNat ≥ fnctlMaxUnits ∨ slot.toNat ≥ fnctlMaxUnits
  · simp only [Backend.step, backend, fnctlSetUnitSlot, contentsStep, dif_pos hargs,
      if_pos hargs]
    exact ⟨rfl, rfl, hm⟩
  · have hunit := unit_lt_of_setArgs hargs
    obtain ⟨hcoherent, hcontents⟩ := ensureState_spec A.toReadableStore hm
    have hret := writeSlot_reliable A unit slot (ensureState A.toAppStore m).store
    have hwrite := writeSlot_eq A.toAppStore unit slot (ensureState A.toAppStore m).store
    rw [hret, if_pos rfl] at hwrite
    simp only [Backend.step, backend, fnctlSetUnitSlot, contentsStep, dif_neg hargs,
      if_neg hargs, Prod.map_fst, Prod.map_snd, id_eq, hret]
    rw [← hcontents]
    exact ⟨trivial, hwrite, fun _ => hcoherent.setSlot ⟨unit, hunit⟩ slot hwrite⟩

/-- **One call.** From coherent statics every call answers as the contents machine does, and
leaves coherent statics. -/
theorem step_contents (A : ReliableStore h σ) (call : FnctlCall) {m : Statics σ}
    (hm : Inv A.toAppStore m) : StepContents A call m := by
  cases call with
  | getState state => exact getState_contents A hm state
  | setState uri path => exact setState_contents A hm uri path
  | getUnitSlot unit slot => exact getUnitSlot_contents A hm unit slot
  | setUnitSlot unit slot => exact setUnitSlot_contents A hm unit slot

end Step

end Amiga

section

variable {h : FujinetNio} {σ : Type}

abbrev amiga (A : ReliableStore h σ) : Backend (Amiga.Statics σ) := Amiga.backend A.toAppStore

/-- **Refinement.** A run of the Amiga backend from the moment it is loaded is a run of the
contents machine of Linux. -/
theorem amiga_contents_run (A : ReliableStore h σ) (calls : List FnctlCall) (s : σ) :
    (Machine.outputs (amiga A).step calls (Amiga.initial s)).map FnctlOut.report =
        (Machine.outputs (contentsStep storePair) calls (A.contents s)).map FnctlOut.report ∧
      A.contents (Machine.final (amiga A).step calls (Amiga.initial s)).store =
        Machine.final (contentsStep storePair) calls (A.contents s) := by
  -- one step of the statics is one step of the contents
  have hstep : ∀ call m c, A.contents m.store = c ∧ Amiga.Inv A.toAppStore m →
      ((amiga A).step call m).1.report = (contentsStep storePair call c).1.report ∧
        A.contents ((amiga A).step call m).2.store = (contentsStep storePair call c).2 ∧
        Amiga.Inv A.toAppStore ((amiga A).step call m).2 := by
    rintro call m _ ⟨rfl, hinv⟩
    exact Amiga.step_contents A call hinv
  obtain ⟨houts, hcontents, -⟩ := Machine.simulation
    (fun m c => A.contents m.store = c ∧ Amiga.Inv A.toAppStore m)
    FnctlOut.report FnctlOut.report hstep
    (show A.contents (Amiga.initial s).store = A.contents s ∧
      Amiga.Inv A.toAppStore (Amiga.initial s) from
        ⟨rfl, Amiga.inv_initial A.toAppStore s⟩) calls
  exact ⟨houts, hcontents⟩

/-- **The cached backend refines the uncached one.** On every store that does not fail, from any
contents and over any run of calls, the Amiga backend returns what the Linux backend returns,
reports the same states and slots, and leaves the same contents. -/
theorem amiga_refines_linux (A : ReliableStore h σ) (calls : List FnctlCall) (s : σ) :
    (Machine.outputs (amiga A).step calls (Amiga.initial s)).map FnctlOut.report =
        (Machine.outputs (linux A).step calls s).map FnctlOut.report ∧
      A.contents (Machine.final (amiga A).step calls (Amiga.initial s)).store =
        A.contents (Machine.final (linux A).step calls s) := by
  obtain ⟨hreports, hcontents⟩ := amiga_contents_run A calls s
  obtain ⟨houts, hfinal⟩ := (linux_contents A).run calls s
  rw [houts, hfinal]
  exact ⟨hreports, hcontents⟩

end

/-- A URI is set over a longer one and the state is read back. -/
def shorterUri : List FnctlCall :=
  [.setState (some ⟨[0x61, 0x62], by decide⟩) (some CStr.empty),
    .setState (some ⟨[0x63], by decide⟩) (some CStr.empty), .getState true]

/-- The refinement for a store in memory. -/
theorem amiga_refines_linux_sampleStore :
    (Machine.outputs (amiga sampleStore).step shorterUri
        (Amiga.initial MemStore.empty)).map FnctlOut.report =
        (Machine.outputs (linux sampleStore).step shorterUri MemStore.empty).map
          FnctlOut.report ∧
      sampleStore.contents (Machine.final (amiga sampleStore).step shorterUri
        (Amiga.initial MemStore.empty)).store =
        sampleStore.contents (Machine.final (linux sampleStore).step shorterUri
          MemStore.empty) :=
  amiga_refines_linux sampleStore _ _

end NioApps.Fnctl
