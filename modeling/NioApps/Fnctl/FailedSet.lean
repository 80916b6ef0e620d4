import NioApps.Fnctl.Amiga

/-!
# Fnctl — what a failed `fnctl_set_state` leaves behind

A `set_state` writes two keys, and neither backend takes anything back when a write fails.
Linux stops at the first write that fails, so a failure of the second leaves the new URI with the
old display path. Amiga changes its copy before it writes, and answers from the copy: there the
new pair is reported whatever happens to the writes. The store here is any `ReadableStore`, so
every placement of failed writes is covered.

* `linux_step_pair`, `amiga_step_pair` — the reported pair after one call.
* `failedSet_laws` — the two backends over whole runs.
* `failedSet_changes_pair` — a failed call that changes what is reported.
-/

namespace NioApps.Fnctl

abbrev StringPair := List UInt8 × List UInt8

/-- The two strings a `get_state` made now reports. -/
def reportedPair {τ : Type} (b : Backend τ) (s : τ) : Option StringPair :=
  (b.getState true s).1.map fun st => (cstr st.currentUri, cstr st.displayPath)

/-- The strings a call gives to `set_state`, where it goes on with them. -/
def FnctlCall.acceptedPair : FnctlCall → Option (CStr × CStr)
  | .setState uri path => acceptedState uri path
  | _ => none

/-- The same strings as bytes. -/
def FnctlCall.pairGiven (call : FnctlCall) : Option StringPair :=
  call.acceptedPair.map fun (u, p) => (u.bytes, p.bytes)

/-- The pair in the store. -/
def storedPair (c : Contents) : StringPair := ((registersOf c).uri, (registersOf c).path)

section

variable {h : FujinetNio} {σ : Type} (A : AppStore h σ)

/-! ## Linux -/

/-- The URI a call stores: that of a `set_state` whose first write is accepted. -/
def uriStored (call : FnctlCall) (s : σ) : Option (List UInt8) :=
  call.acceptedPair.bind fun (u, _) =>
    if (writeKey A fnctlKeyUri u s).1 then some u.bytes else none

/-- The display path a call stores: that of a `set_state` that returns 1. -/
def pathStored (call : FnctlCall) (s : σ) : Option (List UInt8) :=
  call.acceptedPair.bind fun (_, p) =>
    if ((Linux.backend A).step call s).1.ret then some p.bytes else none

/-- Linux reports the pair its two reads find. -/
theorem linux_reportedPair_loaded (s : σ) :
    reportedPair (Linux.backend A) s = some (storedPair (A.loaded s)) := by
  have hget : ((Linux.backend A).getState true s).1 = some (reportedState (A.loaded s)) :=
    (getStateFrom_eq A true s).1
  rw [reportedPair, hget]
  exact congrArg (fun v : StateView => some (v.uri, v.path)) (view_reportedState (A.loaded s))

theorem linux_reportedPair (A : ReadableStore h σ) (s : σ) :
    reportedPair (Linux.backend A.toAppStore) s = some (storedPair (A.contents s)) := by
  rw [linux_reportedPair_loaded, A.loaded_eq]

theorem storedPair_storeUri {u p : CStr} (hu : u.len ≤ fnctlMaxUri) (c : Contents) :
    storedPair (storeUri u p c) = (u.bytes, (storedPair c).2) := by
  simp only [storedPair, registersOf, storeUri, Function.update_self,
    Function.update_of_ne keyUri_ne_keyPath.symm]
  rw [storedText_cstr (show u.len < uriCap from Nat.lt_succ_of_le hu)]

/-- **The two writes**, seen by a reader: both are stored, or the first alone, or none. -/
theorem storedPair_writePair {u p : CStr} (hu : u.len ≤ fnctlMaxUri) (hp : p.len ≤ fnctlMaxPath)
    (s : σ) :
    storedPair (A.contents (writePair A u p s).2) =
      if (writePair A u p s).1 then (u.bytes, p.bytes)
      else if (writeKey A fnctlKeyUri u s).1 then (u.bytes, (storedPair (A.contents s)).2)
      else storedPair (A.contents s) := by
  rw [writePair_eq A hu hp]
  by_cases hpair : (writePair A u p s).1 = true
  · rw [if_pos hpair, if_pos hpair, storedPair, registersOf_storePair hu hp]
  · rw [if_neg hpair, if_neg hpair]
    by_cases huri : (writeKey A fnctlKeyUri u s).1 = true
    · rw [if_pos huri, if_pos huri, storedPair_storeUri hu]
    · rw [if_neg huri, if_neg huri]

theorem writeKey_of_writePair {u p : CStr} {s : σ} (hpair : (writePair A u p s).1 = true) :
    (writeKey A fnctlKeyUri u s).1 = true := by
  by_contra hrefused
  rw [Bool.not_eq_true] at hrefused
  simp [writePair, hrefused] at hpair

/-- A slot is written under a key of its own. -/
theorem storedPair_writeSlot {unit : UInt8} (hunit : unit.toNat < fnctlMaxUnits) (slot : UInt8)
    (s : σ) :
    storedPair (A.contents (writeSlot A unit slot s).2) = storedPair (A.contents s) := by
  rw [writeSlot_eq]
  split
  · rw [storedPair, registersOf_storeSlot ⟨unit, hunit⟩]
    rfl
  · rfl

/-- A call that sets no pair leaves the stored pair. -/
theorem linux_step_other {call : FnctlCall} (hcall : call.acceptedPair = none) (s : σ) :
    storedPair (A.contents ((Linux.backend A).step call s).2) = storedPair (A.contents s) := by
  cases call with
  | getState state => exact congrArg storedPair (getStateFrom_eq A state s).2
  | setState uri path =>
    have hargs : acceptedState uri path = none := hcall
    simp only [Backend.step, Linux.backend, Linux.fnctlSetState, hargs, Prod.map_snd, id_eq]
  | getUnitSlot unit slot => exact congrArg storedPair (getUnitSlotFrom_eq A unit slot s).2
  | setUnitSlot unit slot =>
    simp only [Backend.step, Linux.backend, Linux.fnctlSetUnitSlot, setUnitSlotIn, Prod.map_snd,
      id_eq]
    by_cases hargs : unit.toNat ≥ fnctlMaxUnits ∨ slot.toNat ≥ fnctlMaxUnits
    · rw [if_pos hargs]
    · rw [if_neg hargs, storedPair_writeSlot A (unit_lt_of_setArgs hargs)]

/-- With accepted arguments Linux makes its two writes. -/
theorem linux_setState_accepted {uri path : Option CStr} {u p : CStr}
    (hargs : acceptedState uri path = some (u, p)) (s : σ) :
    (Linux.backend A).setState uri path s = writePair A u p s := by
  simp only [Linux.backend, Linux.fnctlSetState, hargs]

/-- The step of a call that sets a pair. -/
theorem linux_step_accepted {call : FnctlCall} {u p : CStr}
    (hcall : call.acceptedPair = some (u, p)) (s : σ) :
    (Linux.backend A).step call s = (.done (writePair A u p s).1, (writePair A u p s).2) ∧
      u.len ≤ fnctlMaxUri ∧ p.len ≤ fnctlMaxPath := by
  cases call with
  | getState state => cases hcall
  | setState uri path =>
    have hargs : acceptedState uri path = some (u, p) := hcall
    refine ⟨?_, (acceptedState_eq_some hargs).2.2⟩
    rw [Backend.step, linux_setState_accepted A hargs]
    rfl
  | getUnitSlot unit slot => cases hcall
  | setUnitSlot unit slot => cases hcall

/-- **One call of Linux.** Each string of the stored pair is replaced when its own write is
accepted, and kept otherwise. -/
theorem linux_step_pair (call : FnctlCall) (s : σ) :
    storedPair (A.contents ((Linux.backend A).step call s).2) =
      ((uriStored A call s).getD (storedPair (A.contents s)).1,
        (pathStored A call s).getD (storedPair (A.contents s)).2) := by
  cases hcall : call.acceptedPair with
  | none =>
    rw [linux_step_other A hcall, uriStored, pathStored, hcall]
    rfl
  | some up =>
    obtain ⟨u, p⟩ := up
    obtain ⟨hstep, hu, hp⟩ := linux_step_accepted A hcall s
    simp only [uriStored, pathStored, hcall, Option.bind_some, hstep, FnctlOut.ret]
    rw [storedPair_writePair A hu hp]
    -- a call that returns 1 stored both; one that returns 0 at most the URI
    by_cases hpair : (writePair A u p s).1 = true
    · rw [if_pos hpair, if_pos (writeKey_of_writePair A hpair), if_pos hpair]
      rfl
    · rw [if_neg hpair, if_neg hpair]
      split <;> rfl

/-! ## Amiga -/

/-- The strings in the copy once it is filled. -/
def cachedPair (m : Amiga.Statics σ) : StringPair :=
  (cstr (Amiga.ensureState A m).state.currentUri, cstr (Amiga.ensureState A m).state.displayPath)

/-- Amiga reports the cached pair. -/
theorem amiga_reportedPair (m : Amiga.Statics σ) :
    reportedPair (Amiga.backend A) m = some (cachedPair A m) := rfl

theorem cachedPair_of_initialized {m : Amiga.Statics σ} (hinit : m.stateInitialized = true) :
    cachedPair A m = (cstr m.state.currentUri, cstr m.state.displayPath) := by
  rw [cachedPair, Amiga.ensureState_of_initialized A hinit]

/-- The pair stays whatever becomes of the store and the slots. -/
theorem cachedPair_ensured {m m' : Amiga.Statics σ}
    (hstate : m'.state = (Amiga.ensureState A m).state) (hinit : m'.stateInitialized = true) :
    cachedPair A m' = cachedPair A m := by
  rw [cachedPair_of_initialized A hinit, hstate, cachedPair]

/-- The copy is filled with what the two reads of the load find. -/
theorem cachedPair_initial (s : σ) :
    cachedPair A (Amiga.initial s) = storedPair (A.loaded s) := by
  have hstate : (Amiga.ensureState A (Amiga.initial s)).state =
      filledState FnctlState.zero (A.loaded s) :=
    (fillState_eq A FnctlState.zero rfl rfl s).1
  rw [cachedPair, hstate]
  exact congrArg (fun v : StateView => (v.uri, v.path)) (view_filledState rfl _)

/-- **One call of Amiga.** The reported pair is replaced by every `set_state` that goes on with
its arguments, whatever it returns, and kept otherwise. -/
theorem amiga_step_pair (call : FnctlCall) (m : Amiga.Statics σ) :
    cachedPair A ((Amiga.backend A).step call m).2 =
      call.pairGiven.getD (cachedPair A m) := by
  cases call with
  | getState state =>
    cases state with
    | false => rfl
    -- a load that comes first gives the pair that would have been cached
    | true => exact cachedPair_ensured A rfl (Amiga.ensureState_stateInitialized A m)
  | setState uri path =>
    cases hargs : acceptedState uri path with
    | none =>
      simp only [Backend.step, Amiga.backend, Amiga.fnctlSetState, FnctlCall.pairGiven,
        FnctlCall.acceptedPair, hargs]
      rfl
    | some up =>
      obtain ⟨u, p⟩ := up
      simp only [Backend.step, Amiga.backend, Amiga.fnctlSetState, FnctlCall.pairGiven,
        FnctlCall.acceptedPair, hargs,
        Prod.map_snd, id_eq, Option.map_some, Option.getD_some]
      -- the cache takes the pair before the store is asked to
      rw [cachedPair_of_initialized]
      · simp only [Amiga.setStrings, cstr_memcpy_terminated]
      · exact Amiga.ensureState_stateInitialized A m
  | getUnitSlot unit slot =>
    simp only [Backend.step, Amiga.backend, Amiga.fnctlGetUnitSlot, Prod.map_snd, id_eq]
    split
    · rfl
    · exact cachedPair_ensured A rfl (Amiga.ensureState_stateInitialized A m)
  | setUnitSlot unit slot =>
    simp only [Backend.step, Amiga.backend, Amiga.fnctlSetUnitSlot, Prod.map_snd, id_eq]
    split
    · rfl
    · exact cachedPair_ensured A rfl (Amiga.ensureState_stateInitialized A m)

/-! ## A failed call, and a run with failures -/

/-- **A failed `set_state` of Linux**, made in the state `s`. -/
structure LinuxFailedSet (s : σ) : Prop where
  /-- Rejected arguments change nothing. -/
  rejected : ∀ uri path, acceptedState uri path = none →
    (Linux.backend A).setState uri path s = (false, s)
  /-- If the URI is not written, the same pair is reported as before. -/
  uri_refused : ∀ uri path u p, acceptedState uri path = some (u, p) →
    (writeKey A fnctlKeyUri u s).1 = false →
    ((Linux.backend A).setState uri path s).1 = false ∧
      reportedPair (Linux.backend A) ((Linux.backend A).setState uri path s).2 =
        reportedPair (Linux.backend A) s
  /-- If only the display path is not written, the new URI is reported with the old path. -/
  path_refused : ∀ uri path u p, acceptedState uri path = some (u, p) →
    (writeKey A fnctlKeyUri u s).1 = true →
    ((Linux.backend A).setState uri path s).1 = false →
    reportedPair (Linux.backend A) ((Linux.backend A).setState uri path s).2 =
      (reportedPair (Linux.backend A) s).map fun pair => (u.bytes, pair.2)

/-- **A failed `set_state` of Amiga**, made with the statics `m`. -/
structure AmigaFailedSet (m : Amiga.Statics σ) : Prop where
  /-- Rejected arguments change nothing. -/
  rejected : ∀ uri path, acceptedState uri path = none →
    (Amiga.backend A).setState uri path m = (false, m)
  /-- Other arguments are reported from then on, whatever the call returns. -/
  accepted : ∀ uri path u p, acceptedState uri path = some (u, p) →
    reportedPair (Amiga.backend A) ((Amiga.backend A).setState uri path m).2 =
      some (u.bytes, p.bytes)

/-- The part of the law on Linux: a failed set leaves the old pair, or the new URI with the old
path. -/
theorem linux_failedSet (A : ReadableStore h σ) (s : σ) : LinuxFailedSet A.toAppStore s where
  rejected uri path hargs := by
    simp only [Linux.backend, Linux.fnctlSetState, hargs]
  uri_refused uri path u p hargs hrefused := by
    obtain ⟨-, -, hu, hp⟩ := acceptedState_eq_some hargs
    have hret : (writePair A.toAppStore u p s).1 = false := by simp [writePair, hrefused]
    rw [linux_setState_accepted A.toAppStore hargs, linux_reportedPair, linux_reportedPair,
      storedPair_writePair A.toAppStore hu hp, hret, hrefused]
    exact ⟨rfl, rfl⟩
  path_refused uri path u p hargs hstored hret := by
    obtain ⟨-, -, hu, hp⟩ := acceptedState_eq_some hargs
    rw [linux_setState_accepted A.toAppStore hargs] at hret ⊢
    rw [linux_reportedPair, linux_reportedPair, storedPair_writePair A.toAppStore hu hp, hret,
      hstored]
    rfl

/-- The part of the law on Amiga: the accepted pair is in the cache, whatever the store did. -/
theorem amiga_failedSet (m : Amiga.Statics σ) : AmigaFailedSet A m where
  rejected uri path hargs := by
    simp only [Amiga.backend, Amiga.fnctlSetState, hargs]
  accepted uri path u p hargs := by
    have hpair := amiga_step_pair A (.setState uri path) m
    simp only [FnctlCall.pairGiven,
        FnctlCall.acceptedPair, hargs] at hpair
    exact congrArg some hpair

/-- **Runs with failures.** What `calls` leave to be reported when they are made from a store in
state `s₀`, by each backend, whatever writes fail. -/
structure FailedSetLaws (calls : List FnctlCall) (s₀ : σ) : Prop where
  linux_failed : LinuxFailedSet A (Machine.final (Linux.backend A).step calls s₀)
  /-- Linux reports the URI whose write was accepted last, and the display path of the last
  `set_state` that returned 1. -/
  linux_reported :
    reportedPair (Linux.backend A) (Machine.final (Linux.backend A).step calls s₀) =
      some ((Machine.lastPick (Linux.backend A).step (uriStored A) calls s₀).getD
          (storedPair (A.contents s₀)).1,
        (Machine.lastPick (Linux.backend A).step (pathStored A) calls s₀).getD
          (storedPair (A.contents s₀)).2)
  amiga_failed : AmigaFailedSet A
    (Machine.final (Amiga.backend A).step calls (Amiga.initial s₀))
  /-- Amiga reports the pair of the last `set_state` whose arguments were not rejected. -/
  amiga_reported :
    reportedPair (Amiga.backend A)
        (Machine.final (Amiga.backend A).step calls (Amiga.initial s₀)) =
      some ((Machine.lastPick (Amiga.backend A).step (fun call _ => call.pairGiven) calls
        (Amiga.initial s₀)).getD (storedPair (A.contents s₀)))

/-- **What a failed `set_state` leaves.** The laws hold on every store, for every run and every
placement of write failures. -/
theorem failedSet_laws (A : ReadableStore h σ) (calls : List FnctlCall) (s₀ : σ) :
    FailedSetLaws A.toAppStore calls s₀ where
  linux_failed := linux_failedSet A _
  linux_reported := by
    have huri := Machine.final_eq_lastPick (f := fun s => (storedPair (A.contents s)).1)
      (fun call s => congrArg Prod.fst (linux_step_pair A.toAppStore call s)) calls s₀
    have hpath := Machine.final_eq_lastPick (f := fun s => (storedPair (A.contents s)).2)
      (fun call s => congrArg Prod.snd (linux_step_pair A.toAppStore call s)) calls s₀
    rw [linux_reportedPair, ← huri, ← hpath]
  amiga_failed := amiga_failedSet A.toAppStore _
  amiga_reported := by
    rw [amiga_reportedPair, ← A.loaded_eq s₀, ← cachedPair_initial,
      Machine.final_eq_lastPick (amiga_step_pair A.toAppStore)]

end

/-! ## A failed call that changes what is reported -/

/-- What a failed `set_state` would have to leave for it to change nothing. -/
def FailedSetKeeps {τ : Type} (b : Backend τ) (s : τ) : Prop :=
  ∀ uri path, (b.setState uri path s).1 = false →
    reportedPair b (b.setState uri path s).2 = reportedPair b s

/-- The store in memory whose fourth write fails. -/
def fourthWriteFails : AppStore sampleHeader MemStore :=
  (scriptedStore sampleHeader sampleHeader_exists fun n => n != 3).toAppStore

/-- The pair a run sets first, and the one it then fails to set. -/
def oldPair : FnctlCall := .setState (some ⟨[0x6F], by decide⟩) (some ⟨[0x6F], by decide⟩)

/-- **A mix, and a rejected pair.** The second write of the second `set_state` fails. Linux then
reports the new URI with the old display path, Amiga the pair that was not stored. -/
theorem failedSet_changes_pair :
    ¬ FailedSetKeeps (Linux.backend fourthWriteFails)
        (Machine.final (Linux.backend fourthWriteFails).step [oldPair] MemStore.empty) ∧
      ¬ FailedSetKeeps (Amiga.backend fourthWriteFails)
        (Machine.final (Amiga.backend fourthWriteFails).step [oldPair]
          (Amiga.initial MemStore.empty)) := by
  constructor
  · intro hkeeps
    have hsame := hkeeps (some ⟨[0x6E], by decide⟩) (some ⟨[0x6E], by decide⟩)
      (by decide +kernel)
    exact absurd hsame (by decide +kernel)
  · intro hkeeps
    have hsame := hkeeps (some ⟨[0x6E], by decide⟩) (some ⟨[0x6E], by decide⟩)
      (by decide +kernel)
    exact absurd hsame (by decide +kernel)

end NioApps.Fnctl
