import Mathlib.Data.Fintype.Basic
import Mathlib.Logic.Function.Basic
import NioApps.Lib.Streak

/-!
# Irqmon — the interrupt vectors

`install_handlers` saves sixteen interrupt vectors and takes them over; `uninstall_handlers` puts
the saved ones back, but only those that are not `0000:0000`.

* `install`, `uninstall`, `Delivered` — the two functions, and what an interrupt does.
* `GivesBack` — what is asked of a state, given the table at the start: the vectors are as they
  were or all hooked, and no handler of the program chains to one of its own.
* `givesBack_iff` — a run keeps to it exactly when no hooked vector was null at the start or no
  uninstall follows an install, and none held a handler of the program or nothing is installed.

The states of a run are those between the calls: inside `install_handlers`, after `_enable()` and
before `installed` is set, the vectors are hooked while `installed` is still 0.
-/

namespace NioApps.Irqmon

/-! ## The machine -/

/-- A far pointer. -/
structure FarPtr where
  segment : UInt16
  offset : UInt16
  deriving DecidableEq

/-- `0000:0000`. -/
def FarPtr.null : FarPtr := ⟨0, 0⟩

/-- `irq_vectors`. -/
def irqVectors : List UInt8 :=
  [0x08, 0x09, 0x0A, 0x0B, 0x0C, 0x0D, 0x0E, 0x0F,
    0x70, 0x71, 0x72, 0x73, 0x74, 0x75, 0x76, 0x77]

def irqVector (i : Fin 16) : UInt8 := irqVectors.get i

theorem irqVector_injective : Function.Injective irqVector := by decide

/-- The addresses of `irq0_handler` to `irq15_handler`; the address of a function is not null. -/
structure Handlers where
  handler : Fin 16 → FarPtr
  nonnull : ∀ i, handler i ≠ FarPtr.null

/-- The interrupt vector table and the statics of `irqmon.c`. -/
structure MonState where
  table : UInt8 → FarPtr
  oldHandlers : Fin 16 → FarPtr
  installed : Bool
  irqCounts : Fin 16 → UInt32

/-- The program just loaded, over a table. -/
def MonState.start (initial : UInt8 → FarPtr) : MonState where
  table := initial
  oldHandlers _ := .null
  installed := false
  irqCounts _ := 0

section

variable (H : Handlers)

/-! ## The functions -/

/-- One turn of the loop of `install_handlers`. -/
def hook (s : MonState) (i : Fin 16) : MonState :=
  let s := { s with oldHandlers := Function.update s.oldHandlers i (s.table (irqVector i)) }
  { s with table := Function.update s.table (irqVector i) (H.handler i) }

/-- One turn of the loop of `uninstall_handlers`. -/
def unhook (s : MonState) (i : Fin 16) : MonState :=
  if s.oldHandlers i ≠ .null then
    { s with table := Function.update s.table (irqVector i) (s.oldHandlers i) }
  else s

/-- What a call of the far pointer `ptr` does to the state: `irq_i_handler` counts and chains, and
code outside the program changes nothing here. A chain that comes round never returns. -/
inductive Delivered : MonState → FarPtr → MonState → Prop where
  | foreign {s : MonState} {ptr : FarPtr} (other : ∀ i, ptr ≠ H.handler i) : Delivered s ptr s
  | own {s s' : MonState} {ptr : FarPtr} (i : Fin 16) (mine : ptr = H.handler i)
      (chain : Delivered
        { s with irqCounts := Function.update s.irqCounts i (s.irqCounts i + 1) }
        (s.oldHandlers i) s') : Delivered s ptr s'

/-- The interrupts of a list of vectors, delivered one after another. -/
inductive DeliveredAll : MonState → List UInt8 → MonState → Prop where
  | nil {s : MonState} : DeliveredAll s [] s
  | cons {s s' s'' : MonState} {v : UInt8} {vs : List UInt8} (first : Delivered H s (s.table v) s')
      (rest : DeliveredAll s' vs s'') : DeliveredAll s (v :: vs) s''

/-- A call of one of the two functions, with the interrupts delivered between `_enable()` and the
assignment to `installed`, or an interrupt at another time. -/
inductive Event where
  | install (window : List UInt8)
  | uninstall (window : List UInt8)
  | interrupt (vector : UInt8)

/-- `install_handlers`, `uninstall_handlers` and interrupts, as steps. -/
inductive Step : MonState → Event → MonState → Prop where
  | installed {s : MonState} (window : List UInt8) (done : s.installed = true) :
      Step s (.install window) s
  | install {s s' : MonState} {window : List UInt8} (first : s.installed = false)
      (irqs : DeliveredAll H ((List.finRange 16).foldl (hook H) s) window s') :
      Step s (.install window) { s' with installed := true }
  | uninstalled {s : MonState} (window : List UInt8) (done : s.installed = false) :
      Step s (.uninstall window) s
  | uninstall {s s' : MonState} {window : List UInt8} (first : s.installed = true)
      (irqs : DeliveredAll H ((List.finRange 16).foldl unhook s) window s') :
      Step s (.uninstall window) { s' with installed := false }
  | interrupt {s s' : MonState} {vector : UInt8}
      (irq : Delivered H s (s.table vector) s') : Step s (.interrupt vector) s'

/-- The runs of the program over an initial table. -/
inductive Run (initial : UInt8 → FarPtr) : List Event → MonState → Prop where
  | start : Run initial [] (.start initial)
  | step {events : List Event} {s s' : MonState} {e : Event} (run : Run initial events s)
      (step : Step H s e s') : Run initial (events ++ [e]) s'

/-- What is asked of a state that is reached from the table `initial`. -/
structure GivesBack (initial : UInt8 → FarPtr) (s : MonState) : Prop where
  restored : s.installed = false → ∀ i, s.table (irqVector i) = initial (irqVector i)
  hooked : s.installed = true → ∀ i,
    s.table (irqVector i) = H.handler i ∧ s.oldHandlers i = initial (irqVector i)
  chains : s.installed = true → ∀ i j, s.oldHandlers i ≠ H.handler j

/-- An uninstall comes after an install. -/
def UninstallsAfterInstall (events : List Event) : Prop :=
  ∃ before window after, events = before ++ .uninstall window :: after ∧
    ∃ window', Event.install window' ∈ before

end

/-! ## What each function does -/

section

variable {H : Handlers} {s s' : MonState} {is : List (Fin 16)}

theorem update_vector_ne {table : UInt8 → FarPtr} {i j : Fin 16} (hne : i ≠ j) (ptr : FarPtr) :
    Function.update table (irqVector j) ptr (irqVector i) = table (irqVector i) :=
  Function.update_of_ne (fun heq => hne (irqVector_injective heq)) _ _

/-- The loop of `install_handlers`. -/
theorem foldl_hook (hnodup : is.Nodup) :
    (∀ i ∈ is, (is.foldl (hook H) s).table (irqVector i) = H.handler i ∧
        (is.foldl (hook H) s).oldHandlers i = s.table (irqVector i)) ∧
      ∀ i ∉ is, (is.foldl (hook H) s).table (irqVector i) = s.table (irqVector i) ∧
        (is.foldl (hook H) s).oldHandlers i = s.oldHandlers i := by
  induction is generalizing s with
  | nil => exact ⟨fun i hi => absurd hi List.not_mem_nil, fun i _ => ⟨rfl, rfl⟩⟩
  | cons j is ih =>
    obtain ⟨hfresh, hnodup⟩ := List.nodup_cons.mp hnodup
    obtain ⟨hin, hout⟩ := ih (s := hook H s j) hnodup
    rw [List.foldl_cons]
    -- hooking one line leaves the others
    have hother : ∀ i, i ≠ j → (hook H s j).table (irqVector i) = s.table (irqVector i) ∧
        (hook H s j).oldHandlers i = s.oldHandlers i :=
      fun i hne => ⟨update_vector_ne hne _, Function.update_of_ne hne _ _⟩
    refine ⟨fun i hi => ?_, fun i hi => ?_⟩
    · rcases List.mem_cons.mp hi with rfl | hi
      · -- the line hooked first is not among the rest, so that nothing replaces it
        rw [(hout i hfresh).1, (hout i hfresh).2]
        exact ⟨Function.update_self _ _ _, Function.update_self _ _ _⟩
      · have hne : i ≠ j := fun heq => hfresh (heq ▸ hi)
        rw [(hin i hi).1, (hin i hi).2, (hother i hne).1]
        exact ⟨rfl, rfl⟩
    · obtain ⟨hne, hi⟩ := not_or.mp (List.mem_cons.not.mp hi)
      rw [(hout i hi).1, (hout i hi).2]
      exact hother i hne

/-- The loop of `uninstall_handlers`. -/
theorem foldl_unhook (hnodup : is.Nodup) :
    (is.foldl unhook s).oldHandlers = s.oldHandlers ∧
      (∀ i ∈ is, (is.foldl unhook s).table (irqVector i) =
        if s.oldHandlers i ≠ .null then s.oldHandlers i else s.table (irqVector i)) ∧
      ∀ i ∉ is, (is.foldl unhook s).table (irqVector i) = s.table (irqVector i) := by
  induction is generalizing s with
  | nil => exact ⟨rfl, fun i hi => absurd hi List.not_mem_nil, fun i _ => rfl⟩
  | cons j is ih =>
    obtain ⟨hfresh, hnodup⟩ := List.nodup_cons.mp hnodup
    obtain ⟨hold, hin, hout⟩ := ih (s := unhook s j) hnodup
    -- what was saved is not touched
    have hsaved : (unhook s j).oldHandlers = s.oldHandlers := by
      unfold unhook
      split
      next => rfl
      next => rfl
    have hself : (unhook s j).table (irqVector j) =
        if s.oldHandlers j ≠ .null then s.oldHandlers j else s.table (irqVector j) := by
      unfold unhook
      split
      next => exact Function.update_self _ _ _
      next => rfl
    have hother : ∀ i, i ≠ j → (unhook s j).table (irqVector i) = s.table (irqVector i) := by
      intro i hne
      unfold unhook
      split
      next => exact update_vector_ne hne _
      next => rfl
    rw [List.foldl_cons]
    refine ⟨hold.trans hsaved, fun i hi => ?_, fun i hi => ?_⟩
    · -- a line is unhooked once, and the rest does not come back to it
      rcases List.mem_cons.mp hi with rfl | hi
      · rw [hout i hfresh, hself]
      · have hne : i ≠ j := fun heq => hfresh (heq ▸ hi)
        rw [hin i hi, hsaved, hother i hne]
    · obtain ⟨hne, hi⟩ := not_or.mp (List.mem_cons.not.mp hi)
      rw [hout i hi, hother i hne]

/-- Two states that differ in the counters only. -/
structure SameVectors (s s' : MonState) : Prop where
  table : s'.table = s.table
  oldHandlers : s'.oldHandlers = s.oldHandlers
  installed : s'.installed = s.installed

/-- A delivery, chained or not, only counts. -/
theorem Delivered.sameVectors {ptr : FarPtr} (h : Delivered H s ptr s') : SameVectors s s' := by
  induction h with
  | foreign other => exact ⟨rfl, rfl, rfl⟩
  | own i mine chain ih => exact ⟨ih.table, ih.oldHandlers, ih.installed⟩

/-- Several deliveries as well. -/
theorem DeliveredAll.sameVectors {vs : List UInt8} (h : DeliveredAll H s vs s') :
    SameVectors s s' := by
  induction h with
  | nil => exact ⟨rfl, rfl, rfl⟩
  | cons first rest ih =>
    have hfirst := first.sameVectors
    exact ⟨ih.table.trans hfirst.table, ih.oldHandlers.trans hfirst.oldHandlers,
      ih.installed.trans hfirst.installed⟩

/-! ## One step -/

variable {initial : UInt8 → FarPtr} {e : Event}

/-- The part of `GivesBack` that is about what was saved, whatever the table held. -/
structure Saves (H : Handlers) (initial : UInt8 → FarPtr) (s : MonState) : Prop where
  restored : s.installed = false → ∀ i, s.table (irqVector i) = initial (irqVector i)
  hooked : s.installed = true → ∀ i,
    s.table (irqVector i) = H.handler i ∧ s.oldHandlers i = initial (irqVector i)

/-- What gives back saves: the chaining is what is asked for beyond. -/
theorem GivesBack.saves (h : GivesBack H initial s) : Saves H initial s := ⟨h.restored, h.hooked⟩

/-- To chain to none of its own handlers is to have found none of them in the table. -/
theorem Saves.givesBack (h : Saves H initial s)
    (hforeign : s.installed = true → ∀ i j, initial (irqVector i) ≠ H.handler j) :
    GivesBack H initial s where
  restored := h.restored
  hooked := h.hooked
  chains hinstalled i j := by
    rw [(h.hooked hinstalled i).2]
    exact hforeign hinstalled i j

theorem Saves.of_hooked (hinstalled : s.installed = true)
    (hhooked : ∀ i, s.table (irqVector i) = H.handler i ∧ s.oldHandlers i = initial (irqVector i)) :
    Saves H initial s where
  restored hfalse := by rw [hinstalled] at hfalse; cases hfalse
  hooked _ := hhooked

/-- A program that is not installed, with the vectors as they were. -/
theorem Saves.of_restored (hinstalled : s.installed = false)
    (hrestored : ∀ i, s.table (irqVector i) = initial (irqVector i)) : Saves H initial s where
  restored _ := hrestored
  hooked htrue := by rw [hinstalled] at htrue; cases htrue

/-- What only counts keeps it. -/
theorem Saves.congr (h : Saves H initial s) (hsame : SameVectors s s') :
    Saves H initial s' := by
  cases hinstalled : s.installed with
  | true =>
    apply Saves.of_hooked (hsame.installed.trans hinstalled)
    rw [hsame.table, hsame.oldHandlers]
    exact h.hooked hinstalled
  | false =>
    apply Saves.of_restored (hsame.installed.trans hinstalled)
    rw [hsame.table]
    exact h.restored hinstalled

/-- After `install_handlers` the flag is set, whether or not it was before. -/
theorem Step.install_installed {window : List UInt8} (hstep : Step H s (.install window) s') :
    s'.installed = true := by
  cases hstep with
  | installed _ done => exact done
  | install first irqs => rfl

/-- What `install_handlers` does to a state in order. -/
theorem Step.install_spec {window : List UInt8} (hstep : Step H s (.install window) s')
    (h : Saves H initial s) : Saves H initial s' := by
  cases hstep with
  | installed _ done => exact h
  | install first irqs =>
    have hsame := irqs.sameVectors
    obtain ⟨hhooked, -⟩ := foldl_hook (H := H) (s := s) (List.nodup_finRange 16)
    refine .of_hooked rfl fun i => ?_
    dsimp only
    rw [hsame.table, hsame.oldHandlers, (hhooked i (List.mem_finRange i)).1,
      (hhooked i (List.mem_finRange i)).2, h.restored first i]
    exact ⟨rfl, rfl⟩

/-- What `uninstall_handlers` leaves of the hooked vectors. -/
theorem Step.uninstall_table {window : List UInt8} (hstep : Step H s (.uninstall window) s')
    (h : Saves H initial s) (hinstalled : s.installed = true) :
    s'.installed = false ∧ ∀ i, s'.table (irqVector i) =
      if initial (irqVector i) ≠ .null then initial (irqVector i) else H.handler i := by
  cases hstep with
  | uninstalled _ done => rw [hinstalled] at done; cases done
  | uninstall first irqs =>
    have hsame := irqs.sameVectors
    obtain ⟨-, hunhooked, -⟩ := foldl_unhook (s := s) (List.nodup_finRange 16)
    refine ⟨rfl, fun i => ?_⟩
    dsimp only
    rw [hsame.table, hunhooked i (List.mem_finRange i), (h.hooked hinstalled i).1,
      (h.hooked hinstalled i).2]

/-- `uninstall_handlers` does nothing where nothing is installed. -/
theorem Step.uninstall_of_not_installed {window : List UInt8}
    (hstep : Step H s (.uninstall window) s') (hinstalled : s.installed = false) : s' = s := by
  cases hstep with
  | uninstalled _ done => rfl
  | uninstall first irqs => rw [hinstalled] at first; cases first

theorem Step.interrupt_sameVectors {vector : UInt8} (hstep : Step H s (.interrupt vector) s') :
    SameVectors s s' := by
  cases hstep with
  | interrupt irq => exact irq.sameVectors

end

/-! ## Runs -/

section

variable {H : Handlers} {initial : UInt8 → FarPtr} {events : List Event} {s : MonState}

/-- The program starts with nothing installed and the table as it found it. -/
theorem saves_start : Saves H initial (.start initial) :=
  .of_restored rfl fun _ => rfl

/-- Without a null vector every run gives back what it takes. -/
theorem Run.saves_of_nonnull (hnonnull : ∀ i, initial (irqVector i) ≠ .null)
    (run : Run H initial events s) : Saves H initial s := by
  induction run with
  | start => exact saves_start
  | @step events s s' e run step ih =>
    cases e with
    -- each call and interrupt keeps what is saved
    | install window => exact step.install_spec ih
    | uninstall window =>
      cases hinstalled : s.installed with
      | true =>
        -- no saved pointer is null, so that every vector is given back
        obtain ⟨hdone, htable⟩ := step.uninstall_table ih hinstalled
        apply Saves.of_restored hdone
        intro i
        rw [htable i, if_pos (hnonnull i)]
      | false =>
        rw [step.uninstall_of_not_installed hinstalled]
        exact ih
    | interrupt vector => exact ih.congr step.interrupt_sameVectors

/-- One more event adds an uninstall after an install only if it is that uninstall. -/
theorem uninstallsAfterInstall_concat {e : Event} :
    UninstallsAfterInstall (events ++ [e]) ↔ UninstallsAfterInstall events ∨
      ∃ window, e = .uninstall window ∧ ∃ window', Event.install window' ∈ events := by
  constructor
  · rintro ⟨before, window, after, hsplit, hinstall⟩
    rcases split_concat hsplit with ⟨rfl, rfl, -⟩ | ⟨rest, -, hrest⟩
    · exact .inr ⟨window, rfl, hinstall⟩
    · exact .inl ⟨before, window, rest, hrest, hinstall⟩
  · rintro (⟨before, window, after, rfl, hinstall⟩ | ⟨window, rfl, hinstall⟩)
    · refine ⟨before, window, after ++ [e], ?_, hinstall⟩
      rw [List.append_assoc, List.cons_append]
    · exact ⟨events, window, [], rfl, hinstall⟩

/-- Up to the first uninstall after an install every run is in order, and the vectors are hooked
once there was an install. -/
theorem Run.saves_of_no_uninstall (hnone : ¬ UninstallsAfterInstall events)
    (run : Run H initial events s) : Saves H initial s ∧
      (s.installed = true ↔ ∃ window, Event.install window ∈ events) := by
  induction run with
  | start =>
    refine ⟨saves_start, ?_⟩
    constructor
    · intro hinstalled
      cases hinstalled
    · rintro ⟨window, hmem⟩
      cases hmem
  | @step events s s' e run step ih =>
    rw [uninstallsAfterInstall_concat, not_or] at hnone
    obtain ⟨hgives, hiff⟩ := ih hnone.1
    -- what is no install does not change whether there has been one
    have hmem : ∀ e', (∀ window, e' ≠ Event.install window) →
        ((∃ window, Event.install window ∈ events ++ [e']) ↔
          ∃ window, Event.install window ∈ events) := by
      intro e' hother
      simp only [List.mem_append, List.mem_singleton, (hother _).symm, or_false]
    cases e with
    | install window =>
      exact ⟨step.install_spec hgives, fun _ => ⟨window, by simp⟩, fun _ => step.install_installed⟩
    | uninstall window =>
      -- nothing is installed before the first install, and so there is nothing to take down
      have hinstalled : s.installed = false := by
        rw [← Bool.not_eq_true, hiff]
        exact fun hinstall => hnone.2 ⟨window, rfl, hinstall⟩
      rw [step.uninstall_of_not_installed hinstalled, hmem _ fun _ => Event.noConfusion]
      exact ⟨hgives, hiff⟩
    | interrupt vector =>
      have hsame := step.interrupt_sameVectors
      rw [hsame.installed, hmem _ fun _ => Event.noConfusion]
      exact ⟨hgives.congr hsame, hiff⟩

/-- With a null vector a run does not give back what it takes at its first uninstall after an
install. -/
theorem Run.lost_of_null {i : Fin 16} (hnull : initial (irqVector i) = .null)
    (huninstalls : UninstallsAfterInstall events) (run : Run H initial events s) :
    ∃ before after s', events = before ++ after ∧ Run H initial before s' ∧
      ¬ Saves H initial s' := by
  induction run with
  | start =>
    obtain ⟨before, window, after, hsplit, -⟩ := huninstalls
    simp at hsplit
  | @step events s s' e run step ih =>
    by_cases hearlier : UninstallsAfterInstall events
    · obtain ⟨before, after, s'', rfl, hrun, hlost⟩ := ih hearlier
      exact ⟨before, after ++ [e], s'', List.append_assoc _ _ _, hrun, hlost⟩
    · obtain ⟨hgives, hiff⟩ := run.saves_of_no_uninstall hearlier
      rcases uninstallsAfterInstall_concat.mp huninstalls with hyes | ⟨window, rfl, hinstall⟩
      · exact absurd hyes hearlier
      obtain ⟨hdone, htable⟩ := step.uninstall_table hgives (hiff.mpr hinstall)
      refine ⟨events ++ [.uninstall window], [], s', (List.append_nil _).symm, run.step step, ?_⟩
      -- the handler is still in the vector that was null
      intro hback
      have hleft := hback.restored hdone i
      rw [htable i, hnull, if_neg (not_not.mpr rfl)] at hleft
      exact H.nonnull i hleft

/-- A run passes through a state after each of its events. -/
theorem Run.before {before : List Event} :
    ∀ {after : List Event} {s : MonState}, Run H initial (before ++ after) s →
      ∃ s', Run H initial before s' := by
  intro after
  induction after using List.reverseRecOn with
  | nil =>
    intro s run
    rw [List.append_nil] at run
    exact ⟨s, run⟩
  -- by induction on what comes after: the last event is taken off
  | append_singleton after e ih =>
    intro s run
    rw [← List.append_assoc] at run
    generalize hevents : before ++ after ++ [e] = events at run
    cases run with
    | start => simp at hevents
    | step run step =>
      obtain ⟨rfl, -⟩ := List.append_inj' hevents rfl
      exact ih run

/-- `installed` is set by an install only. -/
theorem Run.install_of_installed (run : Run H initial events s) (hinstalled : s.installed = true) :
    ∃ window, Event.install window ∈ events := by
  induction run with
  | start => cases hinstalled
  | @step events s s' e run step ih =>
    have hearlier : s.installed = true → ∃ window, Event.install window ∈ events ++ [e] :=
      fun hset => (ih hset).imp fun window hmem => List.mem_append_left _ hmem
    cases step with
    | installed window done => exact hearlier done
    | install first irqs => exact ⟨_, List.mem_append_right _ (List.mem_singleton.mpr rfl)⟩
    | uninstalled window done => exact hearlier hinstalled
    | uninstall first irqs => cases hinstalled
    | interrupt irq =>
      rw [irq.sameVectors.installed] at hinstalled
      exact hearlier hinstalled

/-- After an install over a table with one of the program's own handlers in it, that handler is
chained to: from `old_handlers` it would be called again and again. -/
theorem Run.chains_of_own {i j : Fin 16} (hown : initial (irqVector i) = H.handler j)
    {window : List UInt8} (hinstall : Event.install window ∈ events)
    (run : Run H initial events s) :
    ∃ before after s', events = before ++ after ∧ Run H initial before s' ∧
      ¬ GivesBack H initial s' := by
  obtain ⟨front, back, rfl⟩ := List.append_of_mem hinstall
  rw [← List.singleton_append, ← List.append_assoc] at run
  obtain ⟨s', hrun⟩ := run.before
  -- the state after this install chains to one of the program's own handlers
  refine ⟨front ++ [.install window], back, s', by simp, hrun, fun hback => ?_⟩
  have hinstalled : s'.installed = true := by
    generalize hevents : front ++ [Event.install window] = events at hrun
    cases hrun with
    | start => simp at hevents
    | step hrun step =>
      obtain ⟨-, hlast⟩ := List.append_inj' hevents rfl
      cases hlast
      exact step.install_installed
  exact hback.chains hinstalled i j ((hback.hooked hinstalled i).2.trans hown)

end

/-- **When IRQMON gives back every vector.** On a run over any table, all the states on the way are
in order exactly when none of the sixteen vectors was null at the start or no uninstall comes after
an install, and none of them was one of the program's own handlers or nothing is ever installed. -/
theorem givesBack_iff (H : Handlers) (initial : UInt8 → FarPtr) (events : List Event)
    (s : MonState) (hrun : Run H initial events s) :
    (∀ before after s', events = before ++ after → Run H initial before s' →
      GivesBack H initial s') ↔
        ((∀ i, initial (irqVector i) ≠ .null) ∨ ¬ UninstallsAfterInstall events) ∧
        ((∀ i j, initial (irqVector i) ≠ H.handler j) ∨
          ∀ window, Event.install window ∉ events) := by
  constructor
  · intro hall
    constructor
    · -- a null vector that an uninstall does not give back
      by_contra hcond
      obtain ⟨hnull, huninstalls⟩ := not_or.mp hcond
      obtain ⟨i, hi⟩ := not_forall.mp hnull
      obtain ⟨before, after, s', hsplit, hrun', hlost⟩ :=
        hrun.lost_of_null (not_not.mp hi) (not_not.mp huninstalls)
      exact hlost (hall before after s' hsplit hrun').saves
    · -- an own handler that an install saves
      by_contra hcond
      push Not at hcond
      obtain ⟨⟨i, j, hown⟩, window, hinstall⟩ := hcond
      obtain ⟨before, after, s', hsplit, hrun', hchains⟩ := hrun.chains_of_own hown hinstall
      exact hchains (hall before after s' hsplit hrun')
  · rintro ⟨hgives, hforeign⟩ before after s' rfl hrun'
    have hsaves : Saves H initial s' := by
      rcases hgives with hnonnull | hnone
      · exact hrun'.saves_of_nonnull hnonnull
      · have hnone' : ¬ UninstallsAfterInstall before := by
          -- a run up to here has no uninstall after an install, if the whole run has none
          rintro ⟨front, window, back, rfl, hinstall⟩
          apply hnone
          refine ⟨front, window, back ++ after, ?_, hinstall⟩
          rw [List.append_assoc, List.cons_append]
        exact (hrun'.saves_of_no_uninstall hnone').1
    refine hsaves.givesBack fun hinstalled => ?_
    rcases hforeign with hforeign | hnone
    · exact hforeign
    · obtain ⟨window, hinstall⟩ := hrun'.install_of_installed hinstalled
      exact absurd (List.mem_append_left after hinstall) (hnone window)

/-- Handlers at some addresses of one segment. -/
def sampleHandlers : Handlers where
  handler i := ⟨0x1234, UInt16.ofNat i⟩
  nonnull := by decide

/-- The table of a machine without a second interrupt controller: zero from `70h` on. -/
def xtTable (v : UInt8) : FarPtr := if v < 0x70 then ⟨0xF000, 0xFEA5⟩ else .null

/-- An install and an uninstall, with no interrupt on the way. -/
theorem xt_run : Run sampleHandlers xtTable [.install [], .uninstall []]
    { (List.finRange 16).foldl unhook
        { (List.finRange 16).foldl (hook sampleHandlers) (.start xtTable) with installed := true }
      with installed := false } :=
  .step (.step .start (.install rfl .nil)) (.uninstall rfl .nil)

/-- On such a machine `70h` still holds IRQMON's handler after the program has left. -/
theorem xt_loses_vectors :
    ¬ ∀ (events : List Event) (s : MonState), Run sampleHandlers xtTable events s →
      GivesBack sampleHandlers xtTable s := by
  intro hall
  have hback := (hall _ _ xt_run).restored rfl 8
  revert hback
  decide

theorem givesBack_iff_xt :
    (∀ before after s', [Event.install [], .uninstall []] = before ++ after →
      Run sampleHandlers xtTable before s' → GivesBack sampleHandlers xtTable s') ↔
        ((∀ i, xtTable (irqVector i) ≠ .null) ∨
          ¬ UninstallsAfterInstall [.install [], .uninstall []]) ∧
        ((∀ i j, xtTable (irqVector i) ≠ sampleHandlers.handler j) ∨
          ∀ window, Event.install window ∉ [.install [], .uninstall []]) :=
  givesBack_iff sampleHandlers xtTable _ _ xt_run

end NioApps.Irqmon
