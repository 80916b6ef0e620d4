import NioApps.Fnctl.Amiga

/-!
# Fnctl — several Amiga programs on one store

Every Amiga program that links `fnctl.c` has its own copy of the state. The programs make their
calls one after another, in any order, on one store. What a program sees of the others is then not
what one backend would answer: it goes on with the pair it found at its first call, or set itself.

* `Programs` — the store, and the static variables of each program.
* `Shared` — the abstract side: one set of registers, and for each program the pair it has seen.
* `programs_run` — the programs are the shared registers, whatever the order of their calls.
* `sole_writer_run` — a program is never behind when no other one sets a state.
-/

namespace NioApps.Fnctl

variable {h : FujinetNio} {σ ι : Type}

/-! ## The programs -/

/-- The static variables of a program, over the store as it is now. -/
def Amiga.Statics.over {τ : Type} (m : Amiga.Statics τ) (store : σ) : Amiga.Statics σ where
  store := store
  state := m.state
  unitSlots := m.unitSlots
  stateInitialized := m.stateInitialized

/-- The store, and what each program has in memory. -/
structure Programs (ι σ : Type) where
  store : σ
  memory : ι → Amiga.Statics Unit

def Programs.loaded (ι : Type) (store : σ) : Programs ι σ := ⟨store, fun _ => Amiga.initial ()⟩

/-- A call of one of the programs. -/
def Programs.step [DecidableEq ι] (A : ReliableStore h σ) :
    ι × FnctlCall → Programs ι σ → FnctlOut × Programs ι σ
  | (i, call), w =>
    let (out, m) := (amiga A).step call ((w.memory i).over w.store)
    (out, ⟨m.store, Function.update w.memory i (m.over ())⟩)

/-! ## Shared registers -/

/-- The URI and the display path of an accepted `set_state`. -/
def FnctlCall.setPair : FnctlCall → Option (List UInt8 × List UInt8)
  | .setState (some uri) (some path) => some (uri.bytes, path.bytes)
  | _ => none

/-- The registers, and the pair that each program goes on with once it has made a call. -/
structure Shared (ι : Type) where
  registers : Registers
  seen : ι → Option (List UInt8 × List UInt8)

/-- The pair a program goes on with: the one it has seen, or else what the registers hold. -/
def Registers.pairFor (r : Registers) (seen : Option (List UInt8 × List UInt8)) :
    List UInt8 × List UInt8 := seen.getD (r.uri, r.path)

/-- What an accepted call answers when the program goes on with `pair`. -/
def FnctlCall.answer (call : FnctlCall) (pair : List UInt8 × List UInt8) (report : Report) :
    Report :=
  match call with
  | .getState _ => .state (some (pairView pair.1 pair.2))
  | _ => report

/-- A call of one of the programs: a rejected one changes nothing; any other one is a call on the
registers, but for the pair that the program goes on with. -/
def Shared.step [DecidableEq ι] : ι × FnctlCall → Shared ι → Report × Shared ι
  | (i, call), v =>
    let (report, registers) := Registers.step call v.registers
    if report.ret = false then (report, v)
    else
      let pair := call.setPair.getD (v.registers.pairFor (v.seen i))
      (call.answer pair report, ⟨registers, Function.update v.seen i (some pair)⟩)

section Shared

variable [DecidableEq ι] {v : Shared ι} {call : FnctlCall}

/-- A call that is rejected changes nothing, not even what the program has seen. -/
theorem Shared.step_rejected (hret : (Registers.step call v.registers).1.ret = false) (i : ι) :
    Shared.step (i, call) v = ((Registers.step call v.registers).1, v) := by
  simp only [Shared.step, hret, if_true]

/-- A call that is accepted is answered from what the program has seen, or from the registers if it
has seen nothing yet. -/
theorem Shared.step_accepted (hret : (Registers.step call v.registers).1.ret = true) (i : ι) :
    Shared.step (i, call) v =
      (call.answer (call.setPair.getD (v.registers.pairFor (v.seen i)))
        (Registers.step call v.registers).1,
        ⟨(Registers.step call v.registers).2, Function.update v.seen i
          (some (call.setPair.getD (v.registers.pairFor (v.seen i))))⟩) := by
  simp only [Shared.step, hret, Bool.true_eq_false, if_false]

/-- A call that returns false leaves the registers. -/
theorem Registers.step_of_rejected {r : Registers} (hret : (Registers.step call r).1.ret = false) :
    (Registers.step call r).2 = r := by
  have hnot : ∀ P : Prop, ¬ (P ∧ (Registers.step call r).1.ret = true) := by
    rintro P ⟨-, htrue⟩
    rw [hret] at htrue
    cases htrue
  obtain ⟨huri, hpath⟩ := Registers.step_keeps_pair (hnot _)
  have hslot : (Registers.step call r).2.slot = r.slot :=
    funext fun k => Registers.step_keeps_slot (hnot _)
  generalize (Registers.step call r).2 = r' at huri hpath hslot
  cases r
  cases r'
  exact Registers.mk.injEq .. ▸ ⟨huri, hpath, hslot⟩

end Shared

/-! ## One program -/

namespace Amiga

/-- The static variables of a program that goes on with the pair `seen`, over a store that other
programs may have written since. A cached slot is only used where the store has none. -/
structure Follows (A : AppStore h σ) (m : Statics σ)
    (seen : Option (List UInt8 × List UInt8)) : Prop where
  filled : m.stateInitialized = seen.isSome
  view : ∀ pair, seen = some pair → m.state.view = pairView pair.1 pair.2
  slots : seen.isSome = true → ∀ k : UnitId,
    storedSlot (m.slotOf k) (A.contents m.store (unitKey k.val)) =
      (registersOf (A.contents m.store)).slot k

/-- With the state block read again a program would be coherent. -/
theorem Follows.coherent {A : AppStore h σ} {m : Statics σ}
    {seen : Option (List UInt8 × List UInt8)} (hm : Follows A m seen) (hseen : seen.isSome = true) :
    Coherent A { m with state := reportedState (A.contents m.store) } where
  state := view_reportedState _
  slots := hm.slots hseen

theorem follows_initial (A : AppStore h σ) (s : σ) : Follows A (initial s) none := by
  refine ⟨rfl, nofun, nofun⟩

/-- **The first call** sees what the registers hold; later calls see nothing new. -/
theorem ensureState_follows (A : ReadableStore h σ) {m : Statics σ}
    {seen : Option (List UInt8 × List UInt8)} (hm : Follows A.toAppStore m seen) :
    Follows A.toAppStore (ensureState A.toAppStore m)
        (some ((registersOf (A.contents m.store)).pairFor seen)) ∧
      A.contents (ensureState A.toAppStore m).store = A.contents m.store := by
  have hcontents := ensureState_contents A.toAppStore m
  refine ⟨?_, hcontents⟩
  cases seen with
  | some pair =>
    -- the cache is filled and is not loaded again
    rw [ensureState_of_initialized A.toAppStore hm.filled]
    exact hm
  | none =>
    -- the first call: the program caches what the registers hold now
    have hinv : Inv A.toAppStore m := fun hinit => by
      rw [hm.filled] at hinit
      cases hinit
    obtain ⟨hcoherent, -⟩ := ensureState_spec A hinv
    refine ⟨ensureState_stateInitialized A.toAppStore m, ?_, fun _ => hcoherent.slots⟩
    rintro _ ⟨⟩
    have hview := hcoherent.state
    rwa [hcontents] at hview

/-- What a call of a program that has seen `seen` does. -/
structure StepFollows (A : ReliableStore h σ) (call : FnctlCall) (m : Statics σ)
    (seen : Option (List UInt8 × List UInt8)) : Prop where
  contents : A.contents ((backend A.toAppStore).step call m).2.store =
    (contentsStep storePair call (A.contents m.store)).2
  rejected : (Registers.step call (registersOf (A.contents m.store))).1.ret = false →
    ((backend A.toAppStore).step call m).1.report =
      (Registers.step call (registersOf (A.contents m.store))).1 ∧
    Follows A.toAppStore ((backend A.toAppStore).step call m).2 seen
  accepted : (Registers.step call (registersOf (A.contents m.store))).1.ret = true →
    ((backend A.toAppStore).step call m).1.report =
      call.answer (call.setPair.getD ((registersOf (A.contents m.store)).pairFor seen))
        (Registers.step call (registersOf (A.contents m.store))).1 ∧
    Follows A.toAppStore ((backend A.toAppStore).step call m).2
      (some (call.setPair.getD ((registersOf (A.contents m.store)).pairFor seen)))

section Step

variable (A : ReliableStore h σ) {m : Statics σ} {seen : Option (List UInt8 × List UInt8)}
  (hm : Follows A.toAppStore m seen)

include hm

/-- `fnctl_get_state` answers with what the program has seen, and has then seen the state. -/
theorem getState_follows (state : Bool) : StepFollows A (.getState state) m seen := by
  cases state with
  | false => exact ⟨rfl, fun _ => ⟨rfl, hm⟩, nofun⟩
  | true =>
    obtain ⟨hfollows, hcontents⟩ := ensureState_follows A.toReadableStore hm
    refine ⟨hcontents, nofun, fun _ => ⟨?_, hfollows⟩⟩
    exact congrArg (fun v => Report.state (some v)) (hfollows.view _ rfl)

/-- `fnctl_set_state` shows the program the pair that it sets. -/
theorem setState_follows (uri path : Option CStr) : StepFollows A (.setState uri path) m seen := by
  cases hargs : acceptedState uri path with
  | none =>
    -- rejected: nothing is loaded, and nothing seen
    have hstep : (backend A.toAppStore).step (.setState uri path) m = (.done false, m) := by
      simp only [Backend.step, backend, fnctlSetState, hargs]
      rfl
    have hspec := Registers.step_rejected hargs (registersOf (A.contents m.store))
    refine ⟨by rw [hstep, contentsStep_rejected hargs], fun _ => ?_, fun hret => ?_⟩
    · rw [hstep, hspec]
      exact ⟨rfl, hm⟩
    · rw [hspec] at hret
      cases hret
  | some up =>
    obtain ⟨u, p⟩ := up
    obtain ⟨rfl, rfl, hu, hp⟩ := acceptedState_eq_some hargs
    obtain ⟨hfollows, hcontents⟩ := ensureState_follows A.toReadableStore hm
    have hret := writePair_reliable A hu hp (ensureState A.toAppStore m).store
    have hpair := writePair_eq A.toAppStore hu hp (ensureState A.toAppStore m).store
    rw [hret, if_pos rfl] at hpair
    have hspec := Registers.step_accepted hargs (registersOf (A.contents m.store))
    -- accepted: the load comes first, and then the pair goes to both
    have hstep : (backend A.toAppStore).step (.setState (some u) (some p)) m =
        (.done true, { ensureState A.toAppStore m with
          state := setStrings (ensureState A.toAppStore m).state u p
          store := (writePair A.toAppStore u p (ensureState A.toAppStore m).store).2 }) := by
      simp only [Backend.step, backend, fnctlSetState, hargs, Prod.map, id_eq, hret]
    refine ⟨?_, fun hfalse => ?_, fun _ => ?_⟩
    · rw [hstep, contentsStep_accepted hargs, ← hcontents]
      exact hpair
    · -- the accepted call returned true
      rw [hspec] at hfalse
      cases hfalse
    · rw [hstep, hspec]
      refine ⟨rfl, hfollows.filled, ?_, fun _ => ?_⟩
      · rintro _ ⟨⟩
        exact view_setStrings (hfollows.view _ rfl) hu hp
      · exact ((hfollows.coherent rfl).setStrings hu hp hpair).slots

/-- `fnctl_get_unit_slot` answers with the slot of the store: only the pair is the program's own. -/
theorem getUnitSlot_follows (unit : UInt8) (slot : Bool) :
    StepFollows A (.getUnitSlot unit slot) m seen := by
  by_cases hargs : slot = false ∨ unit.toNat ≥ fnctlMaxUnits
  · -- rejected: nothing is loaded, and nothing seen
    have hstep : (backend A.toAppStore).step (.getUnitSlot unit slot) m = (.slot none, m) := by
      simp only [Backend.step, backend, fnctlGetUnitSlot, dif_pos hargs]
      rfl
    have hspec : Registers.step (.getUnitSlot unit slot) (registersOf (A.contents m.store)) =
        (.slot none, _) := dif_pos hargs
    refine ⟨by rw [hstep]; rfl, fun _ => ?_, fun hret => ?_⟩
    · rw [hstep, hspec]
      exact ⟨rfl, hm⟩
    · rw [hspec] at hret
      cases hret
  · have hunit := unit_lt_of_getArgs hargs
    obtain ⟨hfollows, hcontents⟩ := ensureState_follows A.toReadableStore hm
    obtain ⟨hread, hkept⟩ := readSlot_eq A.toAppStore unit
      (ensureState A.toAppStore m).unitSlots[unit.toNat] (ensureState A.toAppStore m).store
    have hspec : Registers.step (.getUnitSlot unit slot) (registersOf (A.contents m.store)) =
        (.slot (some ((registersOf (A.contents m.store)).slot ⟨unit, hunit⟩)), _) := dif_neg hargs
    -- accepted: the load comes first, and then the slot is read from the store
    have hstep : (backend A.toAppStore).step (.getUnitSlot unit slot) m =
        (.slot (some (readSlot A.toAppStore unit
          (ensureState A.toAppStore m).unitSlots[unit.toNat]
          (ensureState A.toAppStore m).store).1), { ensureState A.toAppStore m with
          store := (readSlot A.toAppStore unit (ensureState A.toAppStore m).unitSlots[unit.toNat]
            (ensureState A.toAppStore m).store).2 }) := by
      simp only [Backend.step, backend, fnctlGetUnitSlot, dif_neg hargs, Prod.map, id_eq]
    refine ⟨?_, fun hfalse => ?_, fun _ => ?_⟩
    · rw [hstep]
      exact hkept.trans hcontents
    · rw [hspec] at hfalse
      cases hfalse
    · rw [hstep, hspec, hread, A.seen_eq _ (by decide), hcontents]
      have hslot := hfollows.slots rfl ⟨unit, hunit⟩
      rw [hcontents] at hslot
      refine ⟨congrArg (fun out => Report.slot (some out)) hslot, hfollows.filled, hfollows.view,
        fun _ k => ?_⟩
      dsimp only
      rw [hkept]
      exact hfollows.slots rfl k

/-- `fnctl_set_unit_slot` changes the register of all programs. -/
theorem setUnitSlot_follows (unit slot : UInt8) :
    StepFollows A (.setUnitSlot unit slot) m seen := by
  by_cases hargs : unit.toNat ≥ fnctlMaxUnits ∨ slot.toNat ≥ fnctlMaxUnits
  · -- rejected: nothing is loaded, and nothing seen
    have hstep : (backend A.toAppStore).step (.setUnitSlot unit slot) m = (.done false, m) := by
      simp only [Backend.step, backend, fnctlSetUnitSlot, dif_pos hargs]
      rfl
    have hspec : Registers.step (.setUnitSlot unit slot) (registersOf (A.contents m.store)) =
        (.done false, _) := dif_pos hargs
    refine ⟨by rw [hstep, contentsStep, if_pos hargs], fun _ => ?_, fun hret => ?_⟩
    · rw [hstep, hspec]
      exact ⟨rfl, hm⟩
    · rw [hspec] at hret
      cases hret
  · have hunit := unit_lt_of_setArgs hargs
    obtain ⟨hfollows, hcontents⟩ := ensureState_follows A.toReadableStore hm
    have hret := writeSlot_reliable A unit slot (ensureState A.toAppStore m).store
    have hwrite := writeSlot_eq A.toAppStore unit slot (ensureState A.toAppStore m).store
    rw [hret, if_pos rfl] at hwrite
    have hspec : Registers.step (.setUnitSlot unit slot) (registersOf (A.contents m.store)) =
        (.done true, _) := dif_neg hargs
    -- accepted: the load comes first, and then the slot goes to both
    have hstep : (backend A.toAppStore).step (.setUnitSlot unit slot) m =
        (.done true, { ensureState A.toAppStore m with
          unitSlots := (ensureState A.toAppStore m).unitSlots.set unit.toNat slot
          store := (writeSlot A.toAppStore unit slot (ensureState A.toAppStore m).store).2 }) := by
      simp only [Backend.step, backend, fnctlSetUnitSlot, dif_neg hargs, Prod.map, id_eq, hret]
    refine ⟨?_, fun hfalse => ?_, fun _ => ?_⟩
    · rw [hstep, contentsStep, if_neg hargs, ← hcontents]
      exact hwrite
    · rw [hspec] at hfalse
      cases hfalse
    · rw [hstep, hspec]
      refine ⟨rfl, hfollows.filled, hfollows.view, fun _ => ?_⟩
      exact ((hfollows.coherent rfl).setSlot ⟨unit, hunit⟩ slot hwrite).slots

/-- **One call** of a program, however far behind the store it is. -/
theorem step_follows (call : FnctlCall) : StepFollows A call m seen := by
  cases call with
  | getState state => exact getState_follows A hm state
  | setState uri path => exact setState_follows A hm uri path
  | getUnitSlot unit slot => exact getUnitSlot_follows A hm unit slot
  | setUnitSlot unit slot => exact setUnitSlot_follows A hm unit slot

end Step

/-- What a call can do to the value of a unit. -/
theorem contentsStep_unitKey (call : FnctlCall) (c : Contents) (k : UInt8) :
    (contentsStep storePair call c).2 (unitKey k) = c (unitKey k) ∨
      ∃ slot, (contentsStep storePair call c).2 (unitKey k) = some [slot] := by
  cases call with
  | getState state => exact .inl rfl
  | setState uri path =>
    refine .inl ?_
    cases hargs : acceptedState uri path with
    | none => rw [contentsStep_rejected hargs]
    | some up =>
      rw [contentsStep_accepted hargs]
      exact storePair_unitKey up.1 up.2 c k
  | getUnitSlot unit slot => exact .inl rfl
  | setUnitSlot unit slot =>
    rw [contentsStep]
    split
    next => exact .inl rfl
    next =>
      -- the slot is that of this unit or of another
      by_cases hkey : unitKey k = unitKey unit
      · refine .inr ⟨slot, ?_⟩
        dsimp only
        rw [hkey, Function.update_self]
      · exact .inl (Function.update_of_ne hkey _ _)

/-- **Another program's call** leaves a program with the pair it has seen. -/
theorem Follows.other {A : AppStore h σ} {m : Statics σ} {s : σ}
    {seen : Option (List UInt8 × List UInt8)} (hm : Follows A m seen) (call : FnctlCall)
    (hcontents : A.contents s = (contentsStep storePair call (A.contents m.store)).2) :
    Follows A (m.over s) seen := by
  refine ⟨hm.filled, hm.view, fun hseen k => ?_⟩
  have hslot := hm.slots hseen k
  show storedSlot (m.slotOf k) (A.contents s (unitKey k.val)) =
    storedSlot k.val (A.contents s (unitKey k.val))
  rw [hcontents]
  rcases contentsStep_unitKey call (A.contents m.store) k.val with hkept | ⟨slot, hset⟩
  · rw [hkept]
    exact hslot
  · rw [hset]
    rfl

end Amiga

/-! ## All programs -/

section Run

variable [DecidableEq ι] (A : ReliableStore h σ)

/-- The programs over their store, and the shared registers. -/
structure Simulates (w : Programs ι σ) (v : Shared ι) : Prop where
  registers : registersOf (A.contents w.store) = v.registers
  follows : ∀ i, Amiga.Follows A.toAppStore ((w.memory i).over w.store) (v.seen i)

variable {A}

/-- **One call of one program.** -/
theorem Simulates.step {w : Programs ι σ} {v : Shared ι} (hw : Simulates A w v) (i : ι)
    (call : FnctlCall) :
    (Programs.step A (i, call) w).1.report = (Shared.step (i, call) v).1 ∧
      Simulates A (Programs.step A (i, call) w).2 (Shared.step (i, call) v).2 := by
  obtain ⟨hregisters, hfollows⟩ := hw
  have hstep := Amiga.step_follows A (hfollows i) call
  have hcall := (contentsStep_registers call (A.contents w.store)).2
  have hcontents : A.contents (Programs.step A (i, call) w).2.store =
    (contentsStep storePair call (A.contents w.store)).2 := hstep.contents
  -- the programs that did not make the call
  have hothers : ∀ j, j ≠ i → Amiga.Follows A.toAppStore
      (((Programs.step A (i, call) w).2.memory j).over (Programs.step A (i, call) w).2.store)
      (v.seen j) := by
    intro j hne
    have hmemory : (Programs.step A (i, call) w).2.memory j = w.memory j :=
      Function.update_of_ne hne _ _
    rw [hmemory]
    exact (hfollows j).other call hcontents
  -- the one that did
  have hself : ((Programs.step A (i, call) w).2.memory i).over
      (Programs.step A (i, call) w).2.store =
        ((amiga A).step call ((w.memory i).over w.store)).2 := by
    show (Function.update w.memory i _ i).over _ = _
    rw [Function.update_self]
    rfl
  cases hret : (Registers.step call v.registers).1.ret with
  | false =>
    rw [← hregisters] at hret
    obtain ⟨hreport, hnow⟩ := hstep.rejected hret
    rw [Registers.step_of_rejected hret] at hcall
    rw [hregisters] at hret hcall
    rw [Shared.step_rejected hret]
    refine ⟨by rw [← hregisters]; exact hreport, hcontents ▸ hcall, fun j => ?_⟩
    by_cases hj : j = i
    · subst hj
      rw [hself]
      exact hnow
    · exact hothers j hj
  | true =>
    rw [← hregisters] at hret
    obtain ⟨hreport, hnow⟩ := hstep.accepted hret
    rw [hregisters] at hret hcall
    rw [Shared.step_accepted hret, ← hregisters]
    refine ⟨hreport, ?_, fun j => ?_⟩
    · rw [hregisters]
      exact hcontents ▸ hcall
    · by_cases hj : j = i
      · subst hj
        rw [hself]
        dsimp only
        rw [Function.update_self]
        exact hnow
      · dsimp only
        rw [Function.update_of_ne hj]
        exact hothers j hj

/-- **All calls** leave what they would leave of the contents alone. -/
theorem Simulates.contents_run {w : Programs ι σ} {v : Shared ι} (hw : Simulates A w v)
    (calls : List (ι × FnctlCall)) :
    A.contents (Machine.final (Programs.step A) calls w).store =
      Machine.final (contentsStep storePair) (calls.map Prod.snd) (A.contents w.store) := by
  induction calls generalizing w v with
  | nil => rfl
  | cons c calls ih =>
    obtain ⟨i, call⟩ := c
    have hcontents : A.contents (Programs.step A (i, call) w).2.store =
        (contentsStep storePair call (A.contents w.store)).2 :=
      (Amiga.step_follows A (hw.follows i) call).contents
    rw [Machine.final, ih (hw.step i call).2, hcontents, List.map_cons, Machine.final]

/-- **All calls** are answered as the shared registers answer them. -/
theorem Simulates.run {w : Programs ι σ} {v : Shared ι} (hw : Simulates A w v)
    (calls : List (ι × FnctlCall)) :
    (Machine.outputs (Programs.step A) calls w).map FnctlOut.report =
        Machine.outputs Shared.step calls v ∧
      Simulates A (Machine.final (Programs.step A) calls w)
        (Machine.final Shared.step calls v) := by
  obtain ⟨hreports, hfinal⟩ := Machine.simulation (Simulates A) FnctlOut.report id
    (fun c w v hw => hw.step c.1 c.2) hw calls
  rw [List.map_id] at hreports
  exact ⟨hreports, hfinal⟩

omit [DecidableEq ι] in
theorem simulates_loaded (s : σ) :
    Simulates A (Programs.loaded ι s) ⟨registers A s, fun _ => none⟩ :=
  ⟨rfl, fun _ => Amiga.follows_initial A.toAppStore s⟩

end Run

/-- **Several programs are shared registers.** On a store that does not fail, for any programs and
any order of their calls: every call is answered as the shared registers answer it, where a program
goes on with the pair of its first call or of its own last `set_state`; and the store is left as one
backend without a copy would leave it. -/
theorem programs_run [DecidableEq ι] (A : ReliableStore h σ) (calls : List (ι × FnctlCall))
    (s : σ) :
    let w := Machine.final (Programs.step A) calls (Programs.loaded ι s)
    let v := Machine.final Shared.step calls (⟨registers A s, fun _ => none⟩ : Shared ι)
    (Machine.outputs (Programs.step A) calls (Programs.loaded ι s)).map FnctlOut.report =
        Machine.outputs Shared.step calls (⟨registers A s, fun _ => none⟩ : Shared ι) ∧
      registers A w.store = v.registers ∧
      A.contents w.store = A.contents (Machine.final (linux A).step (calls.map Prod.snd) s) := by
  obtain ⟨hreports, hfinal⟩ := (simulates_loaded s).run calls
  refine ⟨hreports, hfinal.registers, ?_⟩
  rw [((linux_contents A).run (calls.map Prod.snd) s).2]
  exact (simulates_loaded s).contents_run calls

/-! ## A sole writer -/

/-- The reports that one program gets. -/
def heard [DecidableEq ι] (i : ι) (calls : List (ι × FnctlCall)) (reports : List Report) :
    List Report :=
  (calls.zip reports).filterMap fun x => if x.1.1 = i then some x.2 else none

/-- What a program hears of one more call: its answer if the program made it, else nothing. -/
theorem heard_cons [DecidableEq ι] (i : ι) (c : ι × FnctlCall) (calls : List (ι × FnctlCall))
    (report : Report) (reports : List Report) :
    heard i (c :: calls) (report :: reports) =
      (if c.1 = i then [report] else []) ++ heard i calls reports := by
  rw [heard, List.zip_cons_cons, List.filterMap_cons]
  by_cases hi : c.1 = i
  · simp only [if_pos hi]
    rfl
  · simp only [if_neg hi]
    rfl

section SoleWriter

variable [DecidableEq ι] {v : Shared ι} {i : ι}

/-- A program that has seen what the registers hold. -/
def Shared.UpToDate (v : Shared ι) (i : ι) : Prop :=
  v.registers.pairFor (v.seen i) = (v.registers.uri, v.registers.path)

/-- A call of a program that is up to date is answered by the registers, and leaves it so. -/
theorem Shared.step_own (hv : v.UpToDate i) (call : FnctlCall) :
    (Shared.step (i, call) v).1 = (Registers.step call v.registers).1 ∧
      (Shared.step (i, call) v).2.UpToDate i := by
  cases hret : (Registers.step call v.registers).1.ret with
  | false =>
    -- a call that is rejected has no part in what the program has seen
    rw [Shared.step_rejected hret]
    exact ⟨rfl, hv⟩
  | true =>
    rw [Shared.step_accepted hret, hv]
    unfold Shared.UpToDate Registers.pairFor
    dsimp only
    -- what the program has seen last is what the registers hold, and stays so
    rw [Function.update_self, Option.getD_some]
    cases call with
    | getState state =>
      cases state with
      | false => cases hret
      | true => exact ⟨rfl, rfl⟩
    | setState uri path =>
      cases hargs : acceptedState uri path with
      | none =>
        rw [Registers.step_rejected hargs] at hret
        cases hret
      | some up =>
        obtain ⟨rfl, rfl, -⟩ := acceptedState_eq_some hargs
        rw [Registers.step_accepted hargs]
        exact ⟨rfl, rfl⟩
    | getUnitSlot unit slot =>
      have hkept := Registers.step_keeps_pair (r := v.registers)
        (fun hset : (FnctlCall.getUnitSlot unit slot).SetsState ∧ _ => hset.1)
      rw [hkept.1, hkept.2]
      exact ⟨rfl, rfl⟩
    | setUnitSlot unit slot =>
      have hkept := Registers.step_keeps_pair (r := v.registers)
        (fun hset : (FnctlCall.setUnitSlot unit slot).SetsState ∧ _ => hset.1)
      rw [hkept.1, hkept.2]
      exact ⟨rfl, rfl⟩

/-- A call of another program that sets no state leaves a program up to date. -/
theorem Shared.step_other (hv : v.UpToDate i) {j : ι} (hne : i ≠ j) {call : FnctlCall}
    (hcall : ¬ call.SetsState) : (Shared.step (j, call) v).2.UpToDate i := by
  cases hret : (Registers.step call v.registers).1.ret with
  | false =>
    rw [Shared.step_rejected hret]
    exact hv
  | true =>
    obtain ⟨huri, hpath⟩ := Registers.step_keeps_pair (r := v.registers)
      (fun hset : call.SetsState ∧ _ => hcall hset.1)
    rw [Shared.step_accepted hret]
    unfold Shared.UpToDate Registers.pairFor at hv ⊢
    dsimp only
    rwa [Function.update_of_ne hne, huri, hpath]

/-- The registers go on as if there were one program. -/
theorem Shared.step_registers (c : ι × FnctlCall) (v : Shared ι) :
    (Shared.step c v).2.registers = (Registers.step c.2 v.registers).2 := by
  cases hret : (Registers.step c.2 v.registers).1.ret with
  | false => rw [Shared.step_rejected hret, Registers.step_of_rejected hret]
  | true => rw [Shared.step_accepted hret]

/-- **A run with one writer**, on the registers. -/
theorem heard_sole_writer {calls : List (ι × FnctlCall)} (hv : v.UpToDate i)
    (honly : ∀ c ∈ calls, c.2.SetsState → c.1 = i) :
    heard i calls (Machine.outputs Shared.step calls v) =
      heard i calls (Machine.outputs Registers.step (calls.map Prod.snd) v.registers) := by
  induction calls generalizing v with
  | nil => rfl
  | cons c calls ih =>
    obtain ⟨j, call⟩ := c
    obtain ⟨hfirst, hrest⟩ := List.forall_mem_cons.mp honly
    rw [List.map_cons, Machine.outputs, Machine.outputs, heard_cons, heard_cons]
    by_cases hj : j = i
    · subst hj
      obtain ⟨hreport, hnext⟩ := Shared.step_own hv call
      rw [ih hnext hrest, Shared.step_registers, hreport]
    · rw [if_neg hj, if_neg hj,
        ih (Shared.step_other hv (Ne.symm hj) fun hset => hj (hfirst hset)) hrest,
        Shared.step_registers]

end SoleWriter

/-- **A program is never behind** when no other program calls `set_state`: then all it hears, but for
the command byte of a state record, is what one backend without a copy would answer to the same
calls, whatever the other programs do. -/
theorem sole_writer_run [DecidableEq ι] (A : ReliableStore h σ) {i : ι}
    {calls : List (ι × FnctlCall)} (honly : ∀ c ∈ calls, c.2.SetsState → c.1 = i) (s : σ) :
    heard i calls ((Machine.outputs (Programs.step A) calls (Programs.loaded ι s)).map
        FnctlOut.report) =
      heard i calls ((Machine.outputs (linux A).step (calls.map Prod.snd) s).map
        FnctlOut.report) := by
  rw [((simulates_loaded s).run calls).1, (linux_registers_run A (calls.map Prod.snd) s).1,
    List.map_id]
  exact heard_sole_writer rfl honly

theorem notMem_a : (0 : UInt8) ∉ [0x61] := by decide

/-- One program sets a state and reads it, between two reads of another one. -/
def twoPrograms : List (Bool × FnctlCall) :=
  [(true, .getState true), (false, .setState (some ⟨[0x61], notMem_a⟩) (some CStr.empty)),
    (true, .getState true), (false, .getState true)]

theorem sole_writer_run_twoPrograms :
    heard false twoPrograms ((Machine.outputs (Programs.step sampleStore) twoPrograms
        (Programs.loaded Bool MemStore.empty)).map FnctlOut.report) =
      heard false twoPrograms ((Machine.outputs (linux sampleStore).step
        (twoPrograms.map Prod.snd) MemStore.empty).map FnctlOut.report) :=
  sole_writer_run sampleStore (by simp [twoPrograms, FnctlCall.SetsState]) MemStore.empty

end NioApps.Fnctl
