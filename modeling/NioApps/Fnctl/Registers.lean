import NioApps.Fnctl.Uncached

/-!
# Fnctl — the Linux backend is a set of registers

What the operations are for: a register pair for the state (the current URI and display path)
and one register for each unit (its slot), each holding what was last written to it. `Registers`
says just that, with no store and no keys. `linux_registers_run` shows that a run of the Linux
backend on a store that does not fail is a run of the registers, and `linux_registerLaws` draws
from it what a caller relies on.

* `registersOf` — the registers that contents of the store stand for.
* `contentsStep_registers` — one call.
-/

namespace NioApps.Fnctl

/-! ## What a caller compares -/

/-- A state block up to its terminators, without the command byte. -/
structure StateView where
  signature : List UInt8
  version : UInt8
  maxUnits : UInt8
  uri : List UInt8
  path : List UInt8
  uriLen : Nat
  pathLen : Nat
  deriving DecidableEq

/-- The strings of a state block as C strings, with its other fields. -/
def FnctlState.view (st : FnctlState) : StateView where
  signature := st.signature
  version := st.version
  maxUnits := st.maxUnits
  uri := cstr st.currentUri
  path := cstr st.displayPath
  uriLen := st.currentUriLen
  pathLen := st.displayPathLen

/-- What a call gives its caller, with the state block as a view. -/
inductive Report where
  | state (out : Option StateView)
  | slot (out : Option UInt8)
  | done (ret : Bool)
  deriving DecidableEq

def FnctlOut.report : FnctlOut → Report
  | .state out => .state (out.map FnctlState.view)
  | .slot out => .slot out
  | .done ret => .done ret

/-- The view of a state block that reports a URI and a display path. -/
def pairView (uri path : List UInt8) : StateView where
  signature := fnctlSignature
  version := fnctlVersion
  maxUnits := UInt8.ofNat fnctlMaxUnits
  uri := uri
  path := path
  uriLen := uri.length
  pathLen := path.length

/-! ## Registers -/

/-- A unit number the code accepts. -/
abbrev UnitId := { unit : UInt8 // unit.toNat < fnctlMaxUnits }

structure Registers where
  uri : List UInt8
  path : List UInt8
  slot : UnitId → UInt8

/-- One call on the registers. -/
def Registers.step : FnctlCall → Registers → Report × Registers
  | .getState state, r => (.state (if state = false then none else some (pairView r.uri r.path)), r)
  | .setState uri path, r =>
    match acceptedState uri path with
    | none => (.done false, r)
    | some (u, p) => (.done true, { r with uri := u.bytes, path := p.bytes })
  | .getUnitSlot unit slot, r =>
    if hargs : slot = false ∨ unit.toNat ≥ fnctlMaxUnits then (.slot none, r)
    else (.slot (some (r.slot ⟨unit, unit_lt_of_getArgs hargs⟩)), r)
  | .setUnitSlot unit slot, r =>
    if hargs : unit.toNat ≥ fnctlMaxUnits ∨ slot.toNat ≥ fnctlMaxUnits then (.done false, r)
    else
      (.done true,
        { r with slot := Function.update r.slot ⟨unit, unit_lt_of_setArgs hargs⟩ slot })

theorem Registers.step_rejected {uri path : Option CStr} (hargs : acceptedState uri path = none)
    (r : Registers) : Registers.step (.setState uri path) r = (.done false, r) := by
  simp only [Registers.step, hargs]

theorem Registers.step_accepted {uri path : Option CStr} {u p : CStr}
    (hargs : acceptedState uri path = some (u, p)) (r : Registers) :
    Registers.step (.setState uri path) r =
      (.done true, { r with uri := u.bytes, path := p.bytes }) := by
  simp only [Registers.step, hargs]

/-- The registers the contents stand for. -/
def registersOf (c : Contents) : Registers where
  uri := storedText uriCap (c fnctlKeyUri)
  path := storedText pathCap (c fnctlKeyPath)
  slot unit := storedSlot unit.val (c (unitKey unit.val))

/-- A state block filled from the contents reports the registers, whatever else was in it. -/
theorem view_filledState {cleared : FnctlState}
    (hsignature : cleared.signature.length = fnctlSignature.length) (c : Contents) :
    (filledState cleared c).view = pairView (registersOf c).uri (registersOf c).path := by
  have hcopy : memcpy cleared.signature fnctlSignature = fnctlSignature := by
    rw [memcpy, List.drop_of_length_le (Nat.le_of_eq hsignature), List.append_nil]
  simp only [filledState, FnctlState.view, pairView, registersOf, hcopy]
  rw [cstr_storedArray (by decide), cstr_storedArray (by decide)]

theorem view_reportedState (c : Contents) :
    (reportedState c).view = pairView (registersOf c).uri (registersOf c).path :=
  view_filledState rfl c

theorem storePair_unitKey (u p : CStr) (c : Contents) (unit : UInt8) :
    storePair u p c (unitKey unit) = c (unitKey unit) := by
  rw [storePair, Function.update_of_ne (unitKey_ne_keyPath unit),
    Function.update_of_ne (unitKey_ne_keyUri unit)]

/-- Storing a pair writes the register pair and no other. -/
theorem registersOf_storePair {u p : CStr} (hu : u.len ≤ fnctlMaxUri) (hp : p.len ≤ fnctlMaxPath)
    (c : Contents) :
    registersOf (storePair u p c) = { registersOf c with uri := u.bytes, path := p.bytes } := by
  have huri : storePair u p c fnctlKeyUri = some u.bytes := by
    rw [storePair, Function.update_of_ne keyUri_ne_keyPath, Function.update_self]
  have hpath : storePair u p c fnctlKeyPath = some p.bytes := Function.update_self _ _ _
  simp only [registersOf, huri, hpath, storePair_unitKey]
  rw [storedText_cstr (show u.len < uriCap from Nat.lt_succ_of_le hu),
    storedText_cstr (show p.len < pathCap from Nat.lt_succ_of_le hp)]

/-- Storing a slot writes the register of its unit and no other. -/
theorem registersOf_storeSlot (unit : UnitId) (slot : UInt8) (c : Contents) :
    registersOf (Function.update c (unitKey unit.val) (some [slot])) =
      { registersOf c with slot := Function.update (registersOf c).slot unit slot } := by
  simp only [registersOf, Registers.mk.injEq]
  refine ⟨?_, ?_, ?_⟩
  · rw [Function.update_of_ne (unitKey_ne_keyUri unit.val).symm]
  · rw [Function.update_of_ne (unitKey_ne_keyPath unit.val).symm]
  · funext unit'
    by_cases hunit : unit' = unit
    · subst hunit
      rw [Function.update_self, Function.update_self]
      rfl
    · -- another unit has another key
      have hkey : unitKey unit'.val ≠ unitKey unit.val := fun hkey =>
        hunit (Subtype.ext (unitKey_inj unit'.property unit.property hkey))
      rw [Function.update_of_ne hkey, Function.update_of_ne hunit]

/-- **One call.** The contents machine of Linux answers as the registers do, and its contents
go on standing for them. -/
theorem contentsStep_registers (call : FnctlCall) (c : Contents) :
    (contentsStep storePair call c).1.report = (Registers.step call (registersOf c)).1 ∧
      registersOf (contentsStep storePair call c).2 =
        (Registers.step call (registersOf c)).2 := by
  cases call with
  | getState state =>
    refine ⟨?_, rfl⟩
    -- a null pointer is rejected, and any other shows the registers
    cases state with
    | false => rfl
    | true => exact congrArg (fun v => Report.state (some v)) (view_reportedState c)
  | setState uri path =>
    cases hargs : acceptedState uri path with
    | none =>
      -- rejected: neither the contents nor the registers change
      rw [contentsStep_rejected hargs, Registers.step_rejected hargs]
      exact ⟨rfl, rfl⟩
    | some up =>
      obtain ⟨u, p⟩ := up
      obtain ⟨-, -, hu, hp⟩ := acceptedState_eq_some hargs
      rw [contentsStep_accepted hargs, Registers.step_accepted hargs]
      exact ⟨rfl, registersOf_storePair hu hp c⟩
  | getUnitSlot unit slot =>
    by_cases hargs : slot = false ∨ unit.toNat ≥ fnctlMaxUnits
    · simp only [contentsStep, Registers.step, if_pos hargs, dif_pos hargs]
      exact ⟨rfl, trivial⟩
    · simp only [contentsStep, Registers.step, if_neg hargs, dif_neg hargs]
      exact ⟨rfl, trivial⟩
  | setUnitSlot unit slot =>
    by_cases hargs : unit.toNat ≥ fnctlMaxUnits ∨ slot.toNat ≥ fnctlMaxUnits
    · simp only [contentsStep, Registers.step, if_pos hargs, dif_pos hargs]
      exact ⟨rfl, trivial⟩
    · simp only [contentsStep, Registers.step, if_neg hargs, dif_neg hargs]
      exact ⟨rfl, registersOf_storeSlot ⟨unit, unit_lt_of_setArgs hargs⟩ slot c⟩

section

variable {h : FujinetNio} {σ : Type} (A : ReliableStore h σ)

def registers (s : σ) : Registers := registersOf (A.contents s)

/-- One step of Linux is one step of the registers, with the same report. -/
theorem linux_step_registers (call : FnctlCall) (s : σ) :
    ((linux A).step call s).1.report = (Registers.step call (registers A s)).1 ∧
      registers A ((linux A).step call s).2 = (Registers.step call (registers A s)).2 := by
  obtain ⟨hout, hcontents⟩ := linux_contents A call s
  have hcall := contentsStep_registers call (A.contents s)
  unfold registers
  rw [hout, hcontents]
  exact hcall

/-- **Refinement.** A run of the Linux backend is a run of the registers. -/
theorem linux_registers_run (calls : List FnctlCall) (s : σ) :
    (Machine.outputs (linux A).step calls s).map FnctlOut.report =
        (Machine.outputs Registers.step calls (registers A s)).map id ∧
      registers A (Machine.final (linux A).step calls s) =
        Machine.final Registers.step calls (registers A s) :=
  Machine.simulation (fun s r => registers A s = r) FnctlOut.report id
    (fun call s r hr => by rw [← hr]; exact linux_step_registers A call s) rfl calls

end

/-! ## What a caller relies on -/

/-- The arguments a call rejects: null pointers, strings too long, units and slots too high. -/
def FnctlCall.Rejected : FnctlCall → Prop
  | .getState state => state = false
  | .setState uri path =>
    ∀ u p, uri = some u → path = some p → u.len > fnctlMaxUri ∨ p.len > fnctlMaxPath
  | .getUnitSlot unit slot => slot = false ∨ unit.toNat ≥ fnctlMaxUnits
  | .setUnitSlot unit slot => unit.toNat ≥ fnctlMaxUnits ∨ slot.toNat ≥ fnctlMaxUnits

/-- The unit a call is about; the state operations are about none. -/
def FnctlCall.unit? : FnctlCall → Option UInt8
  | .getState _ | .setState _ _ => none
  | .getUnitSlot unit _ | .setUnitSlot unit _ => some unit

def FnctlCall.SetsState : FnctlCall → Prop
  | .setState _ _ => True
  | _ => False

def FnctlCall.SetsSlot (k : UInt8) : FnctlCall → Prop
  | .setUnitSlot unit _ => unit = k
  | _ => False

def Report.ret : Report → Bool
  | .state out => out.isSome
  | .slot out => out.isSome
  | .done ret => ret

/-- The report of a call keeps what it returned. -/
@[simp] theorem ret_report (out : FnctlOut) : out.report.ret = out.ret := by
  cases out with
  | state out => cases out <;> rfl
  | slot out => rfl
  | done ret => rfl

/-- A pair is not accepted exactly where the call is rejected. -/
theorem acceptedState_eq_none_iff {uri path : Option CStr} :
    acceptedState uri path = none ↔ (FnctlCall.setState uri path).Rejected := by
  cases uri with
  | none => simp [acceptedState, FnctlCall.Rejected]
  | some u =>
    cases path with
    | none => simp [acceptedState, FnctlCall.Rejected]
    | some p =>
      simp only [acceptedState, FnctlCall.Rejected, Option.some.injEq, ite_eq_left_iff,
        reduceCtorEq, imp_false, not_not]
      exact ⟨fun hlen _ _ hu hp => hu ▸ hp ▸ hlen, fun hlen => hlen u p rfl rfl⟩

/-- Only a `set_state` that succeeds changes the pair. -/
theorem Registers.step_keeps_pair {call : FnctlCall} {r : Registers}
    (h : ¬ (call.SetsState ∧ (Registers.step call r).1.ret = true)) :
    (Registers.step call r).2.uri = r.uri ∧ (Registers.step call r).2.path = r.path := by
  cases call with
  | getState state => exact ⟨rfl, rfl⟩
  | setState uri path =>
    cases hargs : acceptedState uri path with
    | none =>
      rw [Registers.step_rejected hargs]
      exact ⟨rfl, rfl⟩
    | some up =>
      -- a pair that is accepted is one that the hypothesis excludes
      rw [Registers.step_accepted hargs] at h
      exact absurd ⟨trivial, rfl⟩ h
  | getUnitSlot unit slot =>
    unfold Registers.step
    dsimp only
    split <;> exact ⟨rfl, rfl⟩
  | setUnitSlot unit slot =>
    unfold Registers.step
    dsimp only
    split <;> exact ⟨rfl, rfl⟩

/-- Only a `set_unit_slot` of the unit that succeeds changes its slot. -/
theorem Registers.step_keeps_slot {call : FnctlCall} {r : Registers} {k : UnitId}
    (h : ¬ (call.SetsSlot k.val ∧ (Registers.step call r).1.ret = true)) :
    (Registers.step call r).2.slot k = r.slot k := by
  cases call with
  | getState state => rfl
  | setState uri path =>
    cases hargs : acceptedState uri path with
    | none => rw [Registers.step_rejected hargs]
    | some up => rw [Registers.step_accepted hargs]
  | getUnitSlot unit slot =>
    unfold Registers.step
    dsimp only
    split <;> rfl
  | setUnitSlot unit slot =>
    by_cases hargs : unit.toNat ≥ fnctlMaxUnits ∨ slot.toNat ≥ fnctlMaxUnits
    · -- rejected arguments change no slot
      simp only [Registers.step, dif_pos hargs]
    · simp only [Registers.step, dif_neg hargs] at h ⊢
      -- the slot of another unit
      refine Function.update_of_ne (fun hk => h ⟨?_, rfl⟩) _ _
      exact (congrArg Subtype.val hk).symm

section Laws

variable {σ : Type} (b : Backend σ)

/-- What a `get_state` made now reports. -/
def stateReport (s : σ) : Report :=
  (b.step (.getState true) s).1.report

/-- What a `get_unit_slot` made now reports. -/
def slotReport (k : UInt8) (s : σ) : Report :=
  (b.step (.getUnitSlot k true) s).1.report

/-- No call of the run is a successful one of the kind `P`. -/
def NoSuccess (P : FnctlCall → Prop) : List FnctlCall → σ → Prop :=
  Machine.AllSteps b.step fun call s => ¬ (P call ∧ (b.step call s).1.ret = true)

/-- **What a caller of a backend relies on**, in the state `s`. -/
structure RegisterLaws (s : σ) : Prop where
  /-- A rejected call returns 0 and changes nothing; any other call returns 1. -/
  rejected : ∀ call : FnctlCall, call.Rejected →
    (b.step call s).1.ret = false ∧ (b.step call s).2 = s
  accepted : ∀ call : FnctlCall, ¬ call.Rejected → (b.step call s).1.ret = true
  /-- The pair that was set is reported until the next successful `set_state`. -/
  state_kept : ∀ u p s' calls, b.step (.setState (some u) (some p)) s = (.done true, s') →
    NoSuccess b FnctlCall.SetsState calls s' →
    stateReport b (Machine.final b.step calls s') = .state (some (pairView u.bytes p.bytes))
  /-- The slot that was set is reported until the next successful set for the unit. -/
  slot_kept : ∀ k v s' calls, b.step (.setUnitSlot k v) s = (.done true, s') →
    NoSuccess b (FnctlCall.SetsSlot k) calls s' →
    slotReport b k (Machine.final b.step calls s') = .slot (some v) ∧ v.toNat < fnctlMaxUnits
  /-- The state operations change no slot. -/
  state_frame : ∀ call : FnctlCall, call.unit? = none → ∀ k,
    slotReport b k (b.step call s).2 = slotReport b k s
  /-- The operations on a unit change neither the state nor the slot of another unit. -/
  unit_frame : ∀ (call : FnctlCall) (k : UInt8), call.unit? = some k →
    stateReport b (b.step call s).2 = stateReport b s ∧
      ∀ k', k' ≠ k → slotReport b k' (b.step call s).2 = slotReport b k' s

end Laws

section

variable {h : FujinetNio} {σ : Type} (A : ReliableStore h σ)

/-- What `fnctl_get_state` would report now. -/
theorem stateReport_eq (s : σ) :
    stateReport (linux A) s = .state (some (pairView (registers A s).uri (registers A s).path)) :=
  (linux_step_registers A (.getState true) s).1

/-- What `fnctl_get_unit_slot` would report now. -/
theorem slotReport_eq (k : UInt8) (s : σ) :
    slotReport (linux A) k s = (Registers.step (.getUnitSlot k true) (registers A s)).1 :=
  (linux_step_registers A (.getUnitSlot k true) s).1

/-- A call that does not set the slot of a unit leaves what is reported of it. -/
theorem linux_slotReport_kept {call : FnctlCall} {s : σ} {k : UInt8}
    (hcall : ¬ (call.SetsSlot k ∧ (Registers.step call (registers A s)).1.ret = true)) :
    slotReport (linux A) k ((linux A).step call s).2 = slotReport (linux A) k s := by
  have hslot : ∀ hk : k.toNat < fnctlMaxUnits,
      (registers A ((linux A).step call s).2).slot ⟨k, hk⟩ = (registers A s).slot ⟨k, hk⟩ := by
    intro hk
    rw [(linux_step_registers A call s).2]
    exact Registers.step_keeps_slot hcall
  rw [slotReport_eq, slotReport_eq]
  by_cases hargs : true = false ∨ k.toNat ≥ fnctlMaxUnits
  · simp only [Registers.step, dif_pos hargs]
  · simp only [Registers.step, dif_neg hargs]
    rw [hslot (by omega)]

/-- A rejected call returns false and leaves the store. -/
theorem linux_rejected {call : FnctlCall} (hcall : call.Rejected) (s : σ) :
    ((linux A).step call s).1.ret = false ∧ ((linux A).step call s).2 = s := by
  cases call with
  | getState state =>
    obtain rfl : state = false := hcall
    exact ⟨rfl, rfl⟩
  | setState uri path =>
    have hargs := acceptedState_eq_none_iff.mpr hcall
    simp only [Backend.step, Linux.backend, Linux.fnctlSetState, hargs]
    exact ⟨rfl, rfl⟩
  | getUnitSlot unit slot =>
    simp only [Backend.step, Linux.backend, Linux.fnctlGetUnitSlot, getUnitSlotFrom,
      if_pos (show slot = false ∨ unit.toNat ≥ fnctlMaxUnits from hcall)]
    exact ⟨rfl, rfl⟩
  | setUnitSlot unit slot =>
    simp only [Backend.step, Linux.backend, Linux.fnctlSetUnitSlot, setUnitSlotIn,
      if_pos (show unit.toNat ≥ fnctlMaxUnits ∨ slot.toNat ≥ fnctlMaxUnits from hcall)]
    exact ⟨rfl, rfl⟩

/-- A call that is not rejected returns true. -/
theorem registers_accepted {call : FnctlCall} (hcall : ¬ call.Rejected) (r : Registers) :
    (Registers.step call r).1.ret = true := by
  cases call with
  | getState state =>
    obtain rfl : state = true := by simpa [FnctlCall.Rejected] using hcall
    rfl
  | setState uri path =>
    cases hargs : acceptedState uri path with
    | none => exact absurd (acceptedState_eq_none_iff.mp hargs) hcall
    | some up => rw [Registers.step_accepted hargs]; rfl
  | getUnitSlot unit slot =>
    have hargs : ¬ (slot = false ∨ unit.toNat ≥ fnctlMaxUnits) := hcall
    simp only [Registers.step, dif_neg hargs]
    rfl
  | setUnitSlot unit slot =>
    have hargs : ¬ (unit.toNat ≥ fnctlMaxUnits ∨ slot.toNat ≥ fnctlMaxUnits) := hcall
    simp only [Registers.step, dif_neg hargs]
    rfl

theorem linux_ret (call : FnctlCall) (s : σ) :
    ((linux A).step call s).1.ret = (Registers.step call (registers A s)).1.ret := by
  rw [← ret_report, (linux_step_registers A call s).1]

theorem not_rejected_of_ret {call : FnctlCall} {s : σ}
    (hret : ((linux A).step call s).1.ret = true) : ¬ call.Rejected := by
  intro hcall
  rw [(linux_rejected A hcall s).1] at hret
  cases hret

/-- A pair that was set is reported until the next is set. -/
theorem linux_state_kept {u p : CStr} {s s' : σ} {calls : List FnctlCall}
    (hset : (linux A).step (.setState (some u) (some p)) s = (.done true, s'))
    (hkeep : NoSuccess (linux A) FnctlCall.SetsState calls s') :
    stateReport (linux A) (Machine.final (linux A).step calls s') =
      .state (some (pairView u.bytes p.bytes)) := by
  have hret : ((linux A).step (.setState (some u) (some p)) s).1.ret = true := by
    rw [hset]
    rfl
  have hargs : acceptedState (some u) (some p) = some (u, p) := by
    have hnot := not_rejected_of_ret A hret
    rw [← acceptedState_eq_none_iff] at hnot
    simpa [acceptedState] using hnot
  -- the pair is in its register when the run begins
  have hstart : (registers A s').uri = u.bytes ∧ (registers A s').path = p.bytes := by
    have hregisters := (linux_step_registers A (.setState (some u) (some p)) s).2
    rw [hset, Registers.step_accepted hargs] at hregisters
    exact ⟨congrArg Registers.uri hregisters, congrArg Registers.path hregisters⟩
  -- and no call of the run writes it
  have hfinal := hkeep.final_invariant
    (fun s => (registers A s).uri = u.bytes ∧ (registers A s).path = p.bytes)
    (fun call s hcall hs => by
      rw [linux_ret] at hcall
      have hkept := Registers.step_keeps_pair hcall
      rw [← (linux_step_registers A call s).2] at hkept
      exact ⟨hkept.1.trans hs.1, hkept.2.trans hs.2⟩) hstart
  rw [stateReport_eq, hfinal.1, hfinal.2]

/-- A slot that was set is reported until the next is set, and is one of the eight. -/
theorem linux_slot_kept {k v : UInt8} {s s' : σ} {calls : List FnctlCall}
    (hset : (linux A).step (.setUnitSlot k v) s = (.done true, s'))
    (hkeep : NoSuccess (linux A) (FnctlCall.SetsSlot k) calls s') :
    slotReport (linux A) k (Machine.final (linux A).step calls s') = .slot (some v) ∧
      v.toNat < fnctlMaxUnits := by
  have hret : ((linux A).step (.setUnitSlot k v) s).1.ret = true := by
    rw [hset]
    rfl
  -- a call that returned true was accepted
  have hargs : ¬ (k.toNat ≥ fnctlMaxUnits ∨ v.toNat ≥ fnctlMaxUnits) :=
    not_rejected_of_ret A hret
  have hk : k.toNat < fnctlMaxUnits := by omega
  have hstart : (registers A s').slot ⟨k, hk⟩ = v := by
    have hregisters := (linux_step_registers A (.setUnitSlot k v) s).2
    simp only [hset, Registers.step, dif_neg hargs] at hregisters
    rw [hregisters]
    exact Function.update_self _ _ _
  -- no later call that succeeds sets this slot
  have hfinal := hkeep.final_invariant (fun s => (registers A s).slot ⟨k, hk⟩ = v)
    (fun call s hcall hs => by
      rw [linux_ret] at hcall
      have hkept := Registers.step_keeps_slot (k := ⟨k, hk⟩) hcall
      rw [← (linux_step_registers A call s).2] at hkept
      exact hkept.trans hs) hstart
  refine ⟨?_, by omega⟩
  have hread : ¬ (true = false ∨ k.toNat ≥ fnctlMaxUnits) := by simpa using hk
  rw [slotReport_eq]
  simp only [Registers.step, dif_neg hread]
  rw [hfinal]

/-- **The Linux backend is a faithful set of registers.** On every store that does not fail, after
every run of calls from any contents, the laws hold. -/
theorem linux_registerLaws (calls : List FnctlCall) (s₀ : σ) :
    RegisterLaws (linux A) (Machine.final (linux A).step calls s₀) where
  rejected _ hcall := linux_rejected A hcall _
  accepted call hcall := (linux_ret A call _).trans (registers_accepted hcall _)
  state_kept _ _ _ _ hset hkeep := linux_state_kept A hset hkeep
  slot_kept _ _ _ _ hset hkeep := linux_slot_kept A hset hkeep
  state_frame call hcall k := by
    -- a call that sets the pair touches no slot
    refine linux_slotReport_kept A fun hset => ?_
    cases call with
    | getState state => exact hset.1
    | setState uri path => exact hset.1
    | getUnitSlot unit slot => cases hcall
    | setUnitSlot unit slot => cases hcall
  unit_frame call k hcall := by
    constructor
    · -- a call about a unit does not set the pair
      have hkept : ¬ (call.SetsState ∧ (Registers.step call (registers A
          (Machine.final (linux A).step calls s₀))).1.ret = true) := by
        intro hset
        cases call with
        | getState state => exact hset.1
        | setState uri path => cases hcall
        | getUnitSlot unit slot => exact hset.1
        | setUnitSlot unit slot => exact hset.1
      rw [stateReport_eq, stateReport_eq, (linux_step_registers A call _).2,
        (Registers.step_keeps_pair hkept).1, (Registers.step_keeps_pair hkept).2]
    · -- nor the slot of another unit
      intro k' hne
      refine linux_slotReport_kept A fun hset => ?_
      cases call with
      | getState state => exact hset.1
      | setState uri path => exact hset.1
      | getUnitSlot unit slot => exact hset.1
      | setUnitSlot unit slot =>
        have hunit : unit = k := Option.some.inj hcall
        exact hne (hset.1.symm.trans hunit)

end

/-- The laws for a store in memory. -/
theorem linux_registerLaws_sampleStore :
    RegisterLaws (linux sampleStore) (Machine.final (linux sampleStore).step
      [.setUnitSlot 3 5, .getState true] MemStore.empty) :=
  linux_registerLaws sampleStore _ _

end NioApps.Fnctl
