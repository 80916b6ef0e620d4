import NioApps.Fhttpbin.ReadBody

/-!
# Fhttpbin — when `read_body` returns

Nothing bounds the number of chunks that `read_body` accepts: it returns as soon as the stream ends,
a read fails or the budget of one chunk is spent, and otherwise it never does.

* `Endless` — a stream that always goes on and never makes the loop wait too long.
* `readBody_returns_iff` — every other stream is read to a result.
-/

namespace NioApps.Fhttpbin

section

variable (h : NetworkHeader) {build : Build} (reads : Nat → ReadOutcome build)

/-- Every read delivers or is read again, none ends the stream, and no 501 in a row are read
again. -/
structure Endless : Prop where
  goesOn : ∀ k, ((reads k).again h = true ∨ (reads k).result = h.fnOk) ∧ ¬ (reads k).Ends h
  patient : ∀ n, ¬ ∃ before run after, (List.range n).map reads = before ++ run ++ after ∧
    run.length = 501 ∧ ∀ o ∈ run, o.again h = true

variable {h reads} {totalOut : Option Nat} {mem : Nat → UInt8} {s s' : ReadState build}
  {r : ReadResult build} {fuel : Nat}

/-- A pass that goes round again made one call. -/
theorem readBodyStep_going (hstep : readBodyStep h reads totalOut s = .inl s') :
    s'.calls.length = s.calls.length + 1 := by
  unfold readBodyStep at hstep
  extract_lets call result calls data stored offset at hstep
  -- every branch that goes on has made the one call
  have hcalls : calls.length = s.calls.length + 1 := List.length_append
  split at hstep
  next =>
    split at hstep
    next => cases hstep; exact hcalls
    next => cases hstep
  next =>
    split at hstep
    next => cases hstep
    next =>
      split at hstep
      next => cases hstep
      next =>
        split at hstep
        next => cases hstep
        next => cases hstep; exact hcalls

/-- As long as the loop runs, it makes a call in every pass. -/
theorem calls_length_of_running
    (hrun : Loop.after (readBodyStep h reads totalOut) fuel s = .inl s') :
    s'.calls.length = s.calls.length + fuel := by
  induction fuel generalizing s with
  | zero =>
    obtain rfl : s = s' := Sum.inl.inj hrun
    rfl
  | succ fuel ih =>
    cases hstep : readBodyStep h reads totalOut s with
    | inl t =>
      rw [Loop.after_succ_inl hstep] at hrun
      rw [ih hrun, readBodyStep_going hstep]
      omega
    | inr r =>
      rw [Loop.after_succ_inr hstep] at hrun
      cases hrun

/-- A run that returns met a stream that is not endless. -/
theorem not_endless_of_readBody (hret : readBody h reads fuel totalOut mem = some r) :
    ¬ Endless h reads := by
  intro hendless
  have hr := reassembles_of_readBody hret
  obtain ⟨front, c, hcalls, hresult⟩ := hr.last
  have hlen : r.calls.length = front.length + 1 := by
    rw [hcalls, List.length_append, List.length_singleton]
  have houtcome : c.outcome = reads front.length := by
    have hget := hr.logged.outcome_eq (k := front.length) (by omega)
    simpa [hcalls] using hget
  -- the last call of the log goes on, as all of an endless stream do
  obtain ⟨hcode, hnot⟩ := hendless.goesOn front.length
  rw [← houtcome] at hcode hnot
  rcases hcode with hagain | hok
  · -- the budget was spent
    have hspent := hr.givesUp.mp (hresult ▸ again_iff.mp hagain)
    exact hendless.patient _ (hr.logged.run_iff.mp hspent)
  · -- the call that ends the loop would end the stream
    obtain ⟨front', c', hcalls', hends, -⟩ := hr.stops (hresult.trans hok)
    have hsame : c = c' :=
      List.singleton_inj.mp (List.append_inj' (hcalls.symm.trans hcalls') rfl).2
    exact hnot (hsame ▸ hends)

/-- A loop that is still running after every number of passes meets an endless stream. -/
theorem endless_of_running
    (hrun : ∀ fuel, ∃ s, Loop.after (readBodyStep h reads totalOut) fuel (readBodyStart mem) =
      .inl s) : Endless h reads := by
  -- at any number of calls the loop is still reading
  have hstate : ∀ n, ∃ s, Reading h reads mem s ∧ s.calls.length = n := by
    intro n
    obtain ⟨s, hs⟩ := hrun n
    have hall := Loop.after_preserves
      (Sum.elim (Reading h reads mem) (Reassembles h reads mem totalOut))
      (fun _ => readBodyStep_spec) reading_start n
    rw [hs] at hall
    have hlen := calls_length_of_running hs
    rw [show (readBodyStart mem : ReadState build).calls.length = 0 from rfl, Nat.zero_add] at hlen
    exact ⟨s, hall, hlen⟩
  refine ⟨fun k => ?_, fun n => ?_⟩
  · obtain ⟨s, hs, hlen⟩ := hstate (k + 1)
    have hk : k < s.calls.length := by omega
    have hgoing := hs.going _ (List.getElem_mem hk)
    rw [← hs.logged.outcome_eq hk]
    exact hgoing
  · -- a longer run would have used up the retries
    obtain ⟨s, hs, rfl⟩ := hstate n
    rw [← hs.logged.run_iff, ← exists_streak_iff]
    rintro ⟨front, hfront, hlong⟩
    have hpatient := hs.patient front hfront
    omega

end

/-- **When `read_body` returns.** It returns, within some number of passes, exactly when the stream
it reads is not endless. -/
theorem readBody_returns_iff (h : NetworkHeader) {build : Build} (reads : Nat → ReadOutcome build)
    (totalOut : Option Nat) (mem : Nat → UInt8) :
    (∃ fuel r, readBody h reads fuel totalOut mem = some r) ↔ ¬ Endless h reads := by
  constructor
  · rintro ⟨fuel, r, hret⟩
    exact not_endless_of_readBody hret
  · intro hnot
    by_contra hnever
    have hrun : ∀ fuel, ∃ s, Loop.after (readBodyStep h reads totalOut) fuel (readBodyStart mem) =
        .inl s := by
      intro fuel
      cases hafter : Loop.after (readBodyStep h reads totalOut) fuel (readBodyStart mem) with
      | inl s => exact ⟨s, rfl⟩
      | inr r => exact absurd ⟨fuel, r, by rw [readBody, hafter]; rfl⟩ hnever
    exact hnot (endless_of_running hrun)

end NioApps.Fhttpbin
