import NioApps.Fnctl.State

/-!
# Fnctl — the backends that read the store on every call

`platform/linux/fnctl.c`, `platform/atari/fnctl.c` and `platform/bbc/fnctl.c`. They share all
but `fnctl_set_state`: Linux writes the URI and the display path, Atari and BBC write the URI
only. None of them keeps state of its own between calls, so each is described on a reliable
store by a machine on the contents alone, `contentsStep`, with what its `set_state` stores as
the parameter. `linux_contents`, `atari_contents` and `bbc_contents` say so; whatever holds of
the machine over whole runs then holds of the code.
-/

namespace NioApps.Fnctl

/-! ## The code -/

section Code

variable {h : FujinetNio} {σ : Type} (A : AppStore h σ)

/-- `fnctl_get_state` over a cleared state block. -/
def getStateFrom (cleared : FnctlState) (state : Bool) (s : σ) : Option FnctlState × σ :=
  if state = false then (none, s)
  else
    let (st, s) := fillState A { cleared with command := fnctlGetStateCommand } s
    (some st, s)

/-- `fnctl_get_unit_slot`: the unit itself where nothing is stored. -/
def getUnitSlotFrom (unit : UInt8) (slot : Bool) (s : σ) : Option UInt8 × σ :=
  if slot = false ∨ unit.toNat ≥ fnctlMaxUnits then (none, s)
  else
    let (out, s) := readSlot A unit unit s
    (some out, s)

def setUnitSlotIn (unit slot : UInt8) (s : σ) : Bool × σ :=
  if unit.toNat ≥ fnctlMaxUnits ∨ slot.toNat ≥ fnctlMaxUnits then (false, s)
  else writeSlot A unit slot s

/-- `fnctl_set_state` of the backends that store the URI only. -/
def setUriOnly (uri displayPath : Option CStr) (s : σ) : Bool × σ :=
  match acceptedState uri displayPath with
  | none => (false, s)
  | some (uri, _) => writeKey A fnctlKeyUri uri s

namespace Linux

def fnctlGetState : Bool → σ → Option FnctlState × σ := getStateFrom A FnctlState.zero

def fnctlSetState (uri displayPath : Option CStr) (s : σ) : Bool × σ :=
  match acceptedState uri displayPath with
  | none => (false, s)
  | some (uri, path) => writePair A uri path s

def fnctlGetUnitSlot : UInt8 → Bool → σ → Option UInt8 × σ := getUnitSlotFrom A

def fnctlSetUnitSlot : UInt8 → UInt8 → σ → Bool × σ := setUnitSlotIn A

def backend : Backend σ where
  getState := fnctlGetState A
  setState := fnctlSetState A
  getUnitSlot := fnctlGetUnitSlot A
  setUnitSlot := fnctlSetUnitSlot A

end Linux

namespace Atari

def fnctlGetState : Bool → σ → Option FnctlState × σ := getStateFrom A FnctlState.zero

def fnctlSetState : Option CStr → Option CStr → σ → Bool × σ := setUriOnly A

def fnctlGetUnitSlot : UInt8 → Bool → σ → Option UInt8 × σ := getUnitSlotFrom A

def fnctlSetUnitSlot : UInt8 → UInt8 → σ → Bool × σ := setUnitSlotIn A

def backend : Backend σ where
  getState := fnctlGetState A
  setState := fnctlSetState A
  getUnitSlot := fnctlGetUnitSlot A
  setUnitSlot := fnctlSetUnitSlot A

end Atari

namespace Bbc

/-- What the loop of `zero_bytes` stores. -/
def zeroBytes : (len : Nat) → List UInt8
  | 0 => []
  | len + 1 => 0 :: zeroBytes len

def clearedState : FnctlState where
  command := 0
  signature := zeroBytes 4
  unit := 0
  version := 0
  maxUnits := 0
  currentUriLen := 0
  displayPathLen := 0
  currentUri := zeroBytes uriCap
  displayPath := zeroBytes pathCap

def fnctlGetState : Bool → σ → Option FnctlState × σ := getStateFrom A clearedState

def fnctlSetState : Option CStr → Option CStr → σ → Bool × σ := setUriOnly A

def fnctlGetUnitSlot : UInt8 → Bool → σ → Option UInt8 × σ := getUnitSlotFrom A

def fnctlSetUnitSlot : UInt8 → UInt8 → σ → Bool × σ := setUnitSlotIn A

def backend : Backend σ where
  getState := fnctlGetState A
  setState := fnctlSetState A
  getUnitSlot := fnctlGetUnitSlot A
  setUnitSlot := fnctlSetUnitSlot A

theorem zeroBytes_eq (len : Nat) : zeroBytes len = List.replicate len 0 := by
  induction len with
  | zero => rfl
  | succ len ih => rw [zeroBytes, ih, List.replicate_succ]

theorem clearedState_eq : clearedState = FnctlState.zero := by
  simp only [clearedState, FnctlState.zero, zeroBytes_eq]

end Bbc

end Code

/-! ## The contents machine -/

/-- The state block `fnctl_get_state` reports for the contents. -/
def reportedState (c : Contents) : FnctlState :=
  filledState { FnctlState.zero with command := fnctlGetStateCommand } c

/-- What a `set_state` of Linux stores. -/
def storePair (u p : CStr) (c : Contents) : Contents :=
  Function.update (Function.update c fnctlKeyUri (some u.bytes)) fnctlKeyPath (some p.bytes)

/-- What a `set_state` of Atari and BBC stores. -/
def storeUri (u _p : CStr) (c : Contents) : Contents :=
  Function.update c fnctlKeyUri (some u.bytes)

/-- The four operations on the contents of a store that does not fail. -/
def contentsStep (store : CStr → CStr → Contents → Contents) :
    FnctlCall → Contents → FnctlOut × Contents
  | .getState state, c => (.state (if state = false then none else some (reportedState c)), c)
  | .setState uri path, c =>
    match acceptedState uri path with
    | none => (.done false, c)
    | some (u, p) => (.done true, store u p c)
  | .getUnitSlot unit slot, c =>
    (.slot (if slot = false ∨ unit.toNat ≥ fnctlMaxUnits then none
      else some (storedSlot unit (c (unitKey unit)))), c)
  | .setUnitSlot unit slot, c =>
    if unit.toNat ≥ fnctlMaxUnits ∨ slot.toNat ≥ fnctlMaxUnits then (.done false, c)
    else (.done true, Function.update c (unitKey unit) (some [slot]))

/-- How a pair is stored plays no part in the other calls. -/
theorem contentsStep_other (store store' : CStr → CStr → Contents → Contents)
    {call : FnctlCall} (hcall : ∀ uri path, call ≠ .setState uri path) (c : Contents) :
    contentsStep store call c = contentsStep store' call c := by
  cases call with
  | getState state => rfl
  | setState uri path => exact absurd rfl (hcall uri path)
  | getUnitSlot unit slot => rfl
  | setUnitSlot unit slot => rfl

section SetState

variable {store : CStr → CStr → Contents → Contents} {uri path : Option CStr}

theorem contentsStep_rejected (hargs : acceptedState uri path = none) (c : Contents) :
    contentsStep store (.setState uri path) c = (.done false, c) := by
  simp only [contentsStep, hargs]

theorem contentsStep_accepted {u p : CStr} (hargs : acceptedState uri path = some (u, p))
    (c : Contents) : contentsStep store (.setState uri path) c = (.done true, store u p c) := by
  simp only [contentsStep, hargs]

end SetState

section Spec

variable {h : FujinetNio} {σ : Type}

/-- Outside `set_state` the operations are those of the contents machine on what their reads
find, and reads leave the contents alone, on any store. -/
theorem getStateFrom_eq (A : AppStore h σ) (state : Bool) (s : σ) :
    (getStateFrom A FnctlState.zero state s).1 =
        (if state = false then none else some (reportedState (A.loaded s))) ∧
      A.contents (getStateFrom A FnctlState.zero state s).2 = A.contents s := by
  unfold getStateFrom
  cases state with
  | false => exact ⟨rfl, rfl⟩
  | true =>
    have hfill := fillState_eq A { FnctlState.zero with command := fnctlGetStateCommand }
      rfl rfl s
    exact ⟨congrArg some hfill.1, hfill.2⟩

/-- The slot read from the store, and a store left as it was. -/
theorem getUnitSlotFrom_eq (A : AppStore h σ) (unit : UInt8) (slot : Bool) (s : σ) :
    (getUnitSlotFrom A unit slot s).1 =
        (if slot = false ∨ unit.toNat ≥ fnctlMaxUnits then none
          else some (storedSlot unit (A.seen (unitKey unit) 1 s))) ∧
      A.contents (getUnitSlotFrom A unit slot s).2 = A.contents s := by
  unfold getUnitSlotFrom
  by_cases hargs : slot = false ∨ unit.toNat ≥ fnctlMaxUnits
  · rw [if_pos hargs, if_pos hargs]
    exact ⟨rfl, rfl⟩
  · rw [if_neg hargs, if_neg hargs]
    have hread := readSlot_eq A unit unit s
    exact ⟨congrArg some hread.1, hread.2⟩

/-- **The two writes of a pair.** Either both are stored and 1 is returned, or 0 is returned and
the URI is stored exactly when its own write is accepted, the display path never. -/
theorem writePair_eq (A : AppStore h σ) {u p : CStr} (hu : u.len ≤ fnctlMaxUri)
    (hp : p.len ≤ fnctlMaxPath) (s : σ) :
    A.contents (writePair A u p s).2 =
      if (writePair A u p s).1 then storePair u p (A.contents s)
      else if (writeKey A fnctlKeyUri u s).1 then storeUri u p (A.contents s)
      else A.contents s := by
  have hpMax : p.len ≤ fnctlMaxUri := Nat.le_trans hp (by decide)
  have huri := writeKey_eq A fnctlKeyUri hu s
  unfold writePair
  generalize writeKey A fnctlKeyUri u s = out at huri
  obtain ⟨stored, s₁⟩ := out
  dsimp only at huri ⊢
  cases stored with
  | false => exact huri
  | true =>
    -- the second write decides between the pair and the URI alone
    have hpath := writeKey_eq A fnctlKeyPath hpMax s₁
    simp only [if_true] at huri ⊢
    rw [hpath, huri]
    rfl

theorem writePair_reliable (A : ReliableStore h σ) {u p : CStr} (hu : u.len ≤ fnctlMaxUri)
    (hp : p.len ≤ fnctlMaxPath) (s : σ) : (writePair A.toAppStore u p s).1 = true := by
  have hpMax : p.len ≤ fnctlMaxUri := Nat.le_trans hp (by decide)
  unfold writePair
  dsimp only
  rw [writeKey_reliable A fnctlKeyUri hu, if_pos rfl, writeKey_reliable A fnctlKeyPath hpMax]

/-- A backend on a reliable store is the contents machine with its own `set_state`. -/
def RefinesContents (A : ReliableStore h σ) (store : CStr → CStr → Contents → Contents)
    (b : Backend σ) : Prop :=
  ∀ call s, (b.step call s).1 = (contentsStep store call (A.contents s)).1 ∧
    A.contents (b.step call s).2 = (contentsStep store call (A.contents s)).2

/-- What the uncached backends have in common: they are the contents machine as soon as their
`set_state` is. -/
theorem refinesContents_of_setState {A : ReliableStore h σ}
    {store : CStr → CStr → Contents → Contents} {b : Backend σ}
    (hget : b.getState = getStateFrom A.toAppStore FnctlState.zero)
    (hgetSlot : b.getUnitSlot = getUnitSlotFrom A.toAppStore)
    (hsetSlot : b.setUnitSlot = setUnitSlotIn A.toAppStore)
    (hset : ∀ uri path s,
      (FnctlOut.done (b.setState uri path s).1, A.contents (b.setState uri path s).2) =
        contentsStep store (.setState uri path) (A.contents s)) :
    RefinesContents A store b := by
  intro call s
  cases call with
  | getState state =>
    -- the record is read from the store as it is
    have hspec := getStateFrom_eq A.toAppStore state s
    rw [A.loaded_eq] at hspec
    simp only [Backend.step, hget, contentsStep, Prod.map_fst, Prod.map_snd, id_eq]
    exact ⟨congrArg _ hspec.1, hspec.2⟩
  | setState uri path =>
    rw [← hset uri path s]
    exact ⟨rfl, rfl⟩
  | getUnitSlot unit slot =>
    have hspec := getUnitSlotFrom_eq A.toAppStore unit slot s
    rw [A.seen_eq _ (by decide)] at hspec
    simp only [Backend.step, hgetSlot, contentsStep, Prod.map_fst, Prod.map_snd, id_eq]
    exact ⟨congrArg _ hspec.1, hspec.2⟩
  | setUnitSlot unit slot =>
    simp only [Backend.step, hsetSlot, setUnitSlotIn, contentsStep, Prod.map_fst, Prod.map_snd,
      id_eq]
    by_cases hargs : unit.toNat ≥ fnctlMaxUnits ∨ slot.toNat ≥ fnctlMaxUnits
    · -- rejected: nothing is written
      rw [if_pos hargs, if_pos hargs]
      exact ⟨rfl, rfl⟩
    · -- accepted: the write of a store that does not fail returns true
      rw [if_neg hargs, if_neg hargs, writeSlot_eq, writeSlot_reliable, if_pos rfl]
      exact ⟨rfl, rfl⟩

abbrev linux (A : ReliableStore h σ) : Backend σ := Linux.backend A.toAppStore

/-- **Linux** is the contents machine that stores the pair. -/
theorem linux_contents (A : ReliableStore h σ) :
    RefinesContents A storePair (linux A) := by
  refine refinesContents_of_setState rfl rfl rfl fun uri path s => ?_
  show (FnctlOut.done (Linux.fnctlSetState A.toAppStore uri path s).1,
    A.contents (Linux.fnctlSetState A.toAppStore uri path s).2) = _
  unfold Linux.fnctlSetState
  cases hargs : acceptedState uri path with
  | none => rw [contentsStep_rejected hargs]
  | some up =>
    obtain ⟨u, p⟩ := up
    obtain ⟨-, -, hu, hp⟩ := acceptedState_eq_some hargs
    dsimp only
    rw [writePair_eq A.toAppStore hu hp, writePair_reliable A hu hp, if_pos rfl,
      contentsStep_accepted hargs]

/-- `fnctl_set_state` of Atari and BBC refines the step that writes the URI only. -/
theorem setUriOnly_contents (A : ReliableStore h σ) (uri path : Option CStr) (s : σ) :
    (FnctlOut.done (setUriOnly A.toAppStore uri path s).1,
        A.contents (setUriOnly A.toAppStore uri path s).2) =
      contentsStep storeUri (.setState uri path) (A.contents s) := by
  unfold setUriOnly
  cases hargs : acceptedState uri path with
  | none => rw [contentsStep_rejected hargs]
  | some up =>
    obtain ⟨u, p⟩ := up
    obtain ⟨-, -, hu, -⟩ := acceptedState_eq_some hargs
    dsimp only
    rw [writeKey_eq A.toAppStore fnctlKeyUri hu, writeKey_reliable A fnctlKeyUri hu, if_pos rfl,
      contentsStep_accepted hargs]
    rfl

/-- **Atari** is the contents machine that stores the URI only. -/
theorem atari_contents (A : ReliableStore h σ) :
    RefinesContents A storeUri (Atari.backend A.toAppStore) :=
  refinesContents_of_setState rfl rfl rfl (setUriOnly_contents A)

/-- **BBC** is the same machine. -/
theorem bbc_contents (A : ReliableStore h σ) :
    RefinesContents A storeUri (Bbc.backend A.toAppStore) :=
  refinesContents_of_setState
    (congrArg (getStateFrom A.toAppStore) Bbc.clearedState_eq) rfl rfl (setUriOnly_contents A)

/-- Over a run, a backend that is the contents machine answers as it does and ends with its
contents. -/
theorem RefinesContents.run {A : ReliableStore h σ}
    {store : CStr → CStr → Contents → Contents} {b : Backend σ} (hb : RefinesContents A store b)
    (calls : List FnctlCall) (s : σ) :
    Machine.outputs b.step calls s = Machine.outputs (contentsStep store) calls (A.contents s) ∧
      A.contents (Machine.final b.step calls s) =
        Machine.final (contentsStep store) calls (A.contents s) := by
  have hstep : ∀ call s c, A.contents s = c →
      id (b.step call s).1 = id (contentsStep store call c).1 ∧
        A.contents (b.step call s).2 = (contentsStep store call c).2 := by
    rintro call s _ rfl
    exact hb call s
  have hsim : (Machine.outputs b.step calls s).map id =
        (Machine.outputs (contentsStep store) calls (A.contents s)).map id ∧
      A.contents (Machine.final b.step calls s) =
        Machine.final (contentsStep store) calls (A.contents s) :=
    Machine.simulation (fun s c => A.contents s = c) id id hstep rfl calls
  rwa [List.map_id, List.map_id] at hsim

end Spec

end NioApps.Fnctl
