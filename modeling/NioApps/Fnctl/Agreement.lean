import NioApps.Fnctl.Uncached

/-!
# Fnctl — where the Atari and BBC backends agree with Linux

The three backends differ in what `fnctl_set_state` stores: Atari and BBC drop the display path.
`backends_agree_iff` says over which runs the difference does not show.
-/

namespace NioApps.Fnctl

section

variable {h : FujinetNio} {σ : Type}

/-- Two backends give the same return values, state blocks and slots over a run, and leave the
same contents. -/
def Agree (A : AppStore h σ) (b b' : Backend σ) (calls : List FnctlCall) (s : σ) : Prop :=
  Machine.outputs b.step calls s = Machine.outputs b'.step calls s ∧
    A.contents (Machine.final b.step calls s) = A.contents (Machine.final b'.step calls s)

/-- A `set_state` that is accepted gives the display path that is stored already. -/
def PathStored : FnctlCall → Contents → Prop
  | .setState uri path, c =>
    ∀ u p, acceptedState uri path = some (u, p) → c fnctlKeyPath = some p.bytes
  | _, _ => True

/-- Writing both keys differs from writing the URI only, unless the path is the one stored already.
-/
theorem storePair_eq_storeUri_iff (u p : CStr) (c : Contents) :
    storePair u p c = storeUri u p c ↔ c fnctlKeyPath = some p.bytes := by
  unfold storePair storeUri
  rw [Function.update_eq_self_iff, Function.update_of_ne keyUri_ne_keyPath.symm]
  exact eq_comm

/-- **One call.** Both machines answer the same and leave the same contents exactly when the
call meets the condition. -/
theorem contentsStep_agree_iff (call : FnctlCall) (c : Contents) :
    ((contentsStep storePair call c).1 = (contentsStep storeUri call c).1 ∧
        (contentsStep storePair call c).2 = (contentsStep storeUri call c).2) ↔
      PathStored call c := by
  cases call with
  | getState state =>
    -- only a pair that is set tells the two apart
    rw [contentsStep_other storePair storeUri (by simp)]
    simp [PathStored]
  | getUnitSlot unit slot =>
    rw [contentsStep_other storePair storeUri (by simp)]
    simp [PathStored]
  | setUnitSlot unit slot =>
    rw [contentsStep_other storePair storeUri (by simp)]
    simp [PathStored]
  | setState uri path =>
    cases hargs : acceptedState uri path with
    | none =>
      rw [contentsStep_rejected hargs, contentsStep_rejected hargs]
      -- a rejected pair is stored by neither
      refine ⟨fun _ u p haccepted => ?_, fun _ => ⟨rfl, rfl⟩⟩
      rw [hargs] at haccepted
      cases haccepted
    | some up =>
      obtain ⟨u, p⟩ := up
      rw [contentsStep_accepted hargs, contentsStep_accepted hargs]
      dsimp only
      rw [storePair_eq_storeUri_iff]
      constructor
      · -- both return true, so that only what is stored is left
        intro hagree u' p' haccepted
        rw [hargs] at haccepted
        obtain ⟨rfl, rfl⟩ := Prod.mk.inj (Option.some.inj haccepted)
        exact hagree.2
      · exact fun hstored => ⟨rfl, hstored u p hargs⟩

/-- Two backends that refine the contents agree as the two machines over the contents do: the store
itself, with its internal state, drops out. -/
theorem agree_iff {A : ReliableStore h σ} {store store' : CStr → CStr → Contents → Contents}
    {b b' : Backend σ} (hb : RefinesContents A store b) (hb' : RefinesContents A store' b')
    (calls : List FnctlCall) (s : σ) :
    Agree A.toAppStore b b' calls s ↔
      Machine.outputs (contentsStep store) calls (A.contents s) =
          Machine.outputs (contentsStep store') calls (A.contents s) ∧
        Machine.final (contentsStep store) calls (A.contents s) =
          Machine.final (contentsStep store') calls (A.contents s) := by
  obtain ⟨houts, hfinal⟩ := hb.run calls s
  obtain ⟨houts', hfinal'⟩ := hb'.run calls s
  rw [Agree, houts, houts', hfinal, hfinal']

/-- The contents machines agree on every part of a run exactly when every call meets the
condition. -/
theorem contents_agree_iff (calls : List FnctlCall) (c : Contents) :
    (∀ pre, pre <+: calls →
        Machine.outputs (contentsStep storePair) pre c =
            Machine.outputs (contentsStep storeUri) pre c ∧
          Machine.final (contentsStep storePair) pre c =
            Machine.final (contentsStep storeUri) pre c) ↔
      Machine.AllSteps (contentsStep storePair) PathStored calls c := by
  have hsim := Machine.simulation_iff (fun c c' : Contents => c = c') PathStored id id
    (fun call c _ hc => by rw [← hc]; exact contentsStep_agree_iff call c) (s := c) rfl calls
  simpa only [List.map_id] using hsim

/-- **When the backends agree.** On a store that does not fail, from any contents: Atari and BBC
agree with Linux on every part of a run exactly when every accepted `set_state` of the run gives
the display path that is stored already. -/
theorem backends_agree_iff (A : ReliableStore h σ) (calls : List FnctlCall) (s : σ) :
    (∀ pre, pre <+: calls →
        Agree A.toAppStore (linux A) (Atari.backend A.toAppStore) pre s ∧
        Agree A.toAppStore (linux A) (Bbc.backend A.toAppStore) pre s) ↔
      Machine.AllSteps (linux A).step
        (fun call s => PathStored call (A.contents s)) calls s := by
  rw [Machine.allSteps_map A.contents (fun call s => (linux_contents A call s).2) PathStored,
    ← contents_agree_iff]
  constructor
  · intro hagree pre hpre
    exact (agree_iff (linux_contents A) (atari_contents A) pre s).mp (hagree pre hpre).1
  · intro hsame pre hpre
    exact ⟨(agree_iff (linux_contents A) (atari_contents A) pre s).mpr (hsame pre hpre),
      (agree_iff (linux_contents A) (bbc_contents A) pre s).mpr (hsame pre hpre)⟩

end

/-- A URI and a display path are set and the state is read back. -/
def setThenGet : List FnctlCall :=
  [.setState (some ⟨[0x75], by decide⟩) (some ⟨[0x70], by decide⟩), .getState true]

/-- On an empty store Atari and BBC report no display path after it, where Linux reports the one
that was set. -/
theorem backends_disagree_setThenGet :
    ¬ Agree sampleStore.toAppStore (linux sampleStore)
        (Atari.backend sampleStore.toAppStore) setThenGet MemStore.empty ∧
      ¬ Agree sampleStore.toAppStore (linux sampleStore)
        (Bbc.backend sampleStore.toAppStore) setThenGet MemStore.empty := by
  refine ⟨fun hagree => ?_, fun hagree => ?_⟩
  · exact absurd hagree.1 (by decide +kernel)
  · exact absurd hagree.1 (by decide +kernel)

/-- The store in which a run of Linux leaves the URI and the display path of `setThenGet`. -/
def storeAfterSet : MemStore := Machine.final (linux sampleStore).step setThenGet MemStore.empty

/-- Another URI with the same display path. -/
def setSamePath : List FnctlCall :=
  [.setState (some ⟨[0x76], by decide⟩) (some ⟨[0x70], by decide⟩), .getState true]

/-- On that store the three backends agree when the display path is set again. -/
theorem backends_agree_setSamePath :
    ∀ pre, pre <+: setSamePath →
      Agree sampleStore.toAppStore (linux sampleStore)
        (Atari.backend sampleStore.toAppStore) pre storeAfterSet ∧
      Agree sampleStore.toAppStore (linux sampleStore)
        (Bbc.backend sampleStore.toAppStore) pre storeAfterSet := by
  refine (backends_agree_iff sampleStore setSamePath storeAfterSet).mpr ⟨?_, trivial, trivial⟩
  rintro u p haccepted
  obtain ⟨-, rfl⟩ := Prod.mk.inj (Option.some.inj haccepted)
  decide +kernel

end NioApps.Fnctl
