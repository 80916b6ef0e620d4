import NioApps.Lib.Script
import NioApps.Lib.Streak

/-!
# Irqmon — the counters

The handlers count with interrupts disabled, `clear_counters` clears with interrupts disabled, but
`sample_counts` reads a counter of 32 bits with interrupts enabled, on a processor that does it in
two accesses of 16 bits. A step of the model is one interrupt, one such access, or a clear.

* `CountState.step` — the machine; `lowFirst` says which half the compiler reads first.
* `torn` — what two accesses make of a counter that runs between them.
* `counters_run` — what the counters and the rates say after any interleaving.
-/

namespace NioApps.Irqmon

/-! ## The machine -/

/-- Where `sample_counts` is: not running, about to read the first half of a counter, or between the
two halves, with the one that was read. -/
inductive Sampling where
  | idle
  | before (i : Fin 16)
  | between (i : Fin 16) (half : UInt16)
  deriving DecidableEq

/-- The counters, and the rates computed since the last clear (which the program does not keep). -/
structure CountState where
  irqCounts : Fin 16 → UInt32
  lastCounts : Fin 16 → UInt32
  rates : Fin 16 → UInt32
  sampling : Sampling
  shown : Fin 16 → List UInt32

/-- The program just loaded. -/
def CountState.start : CountState := ⟨fun _ => 0, fun _ => 0, fun _ => 0, .idle, fun _ => []⟩

/-- An interrupt, the call of `sample_counts`, an access to a counter, or `clear_counters`. -/
inductive CountEvent where
  | interrupt (i : Fin 16)
  | sample
  | first (i : Fin 16)
  | second (i : Fin 16)
  | clear
  deriving DecidableEq

def lowHalf (count : UInt32) : UInt16 := UInt16.ofNat count.toNat

def highHalf (count : UInt32) : UInt16 := UInt16.ofNat (count.toNat / 65536)

def ofHalves (low high : UInt16) : UInt32 := UInt32.ofNat (low.toNat + 65536 * high.toNat)

/-- The half that is read first. -/
def firstHalf (lowFirst : Bool) (count : UInt32) : UInt16 :=
  if lowFirst then lowHalf count else highHalf count

/-- `current`, from the half read first and the counter as it is at the second access. -/
def current (lowFirst : Bool) (half : UInt16) (count : UInt32) : UInt32 :=
  if lowFirst then ofHalves half (highHalf count) else ofHalves (lowHalf count) half

/-- The next pass of the loop of `sample_counts`. -/
def nextPass (i : Fin 16) : Sampling :=
  if h : i.val + 1 < 16 then .before ⟨i.val + 1, h⟩ else .idle

/-- `rates[i] = current - last_counts[i]; last_counts[i] = current;` -/
def CountState.record (s : CountState) (i : Fin 16) (current : UInt32) : CountState :=
  { s with
    rates := Function.update s.rates i (current - s.lastCounts i)
    lastCounts := Function.update s.lastCounts i current
    sampling := nextPass i
    shown := Function.update s.shown i (s.shown i ++ [current - s.lastCounts i]) }

theorem lines_pos : 0 < 16 := by decide

/-- The line that `sample_counts` starts with. -/
def firstLine : Fin 16 := ⟨0, lines_pos⟩

/-- One step, where it can be made: the program clears only outside of `sample_counts`. -/
def CountState.step (lowFirst : Bool) : CountEvent → CountState → Option CountState
  | .interrupt i, s =>
    some { s with irqCounts := Function.update s.irqCounts i (s.irqCounts i + 1) }
  | .sample, s => if s.sampling = .idle then some { s with sampling := .before firstLine } else none
  | .first i, s =>
    if s.sampling = .before i then
      some { s with sampling := .between i (firstHalf lowFirst (s.irqCounts i)) }
    else none
  | .second i, s =>
    match s.sampling with
    | .between j half =>
      if j = i then some (s.record i (current lowFirst half (s.irqCounts i))) else none
    | _ => none
  | .clear, s => if s.sampling = .idle then some { CountState.start with sampling := .idle } else none

/-- The state after a run. -/
def countRun (lowFirst : Bool) (events : List CountEvent) : Option CountState :=
  Script.completed (CountState.step lowFirst) events .start

/-! ## What happened -/

/-- The interrupts of one line since the last clear. -/
def interrupts (i : Fin 16) (events : List CountEvent) : Nat :=
  events.foldl (fun n e => match e with
    | .interrupt j => if j = i then n + 1 else n
    | .clear => 0
    | _ => n) 0

/-- What two accesses read of a counter that is `a` at the first and `b` at the second: the count at
the access to the low half, and 65536 too many or too few for each time that half has wrapped. -/
def torn (lowFirst : Bool) (a b : Nat) : Nat :=
  if lowFirst then a + 65536 * (b / 65536 - a / 65536) else b - 65536 * (b / 65536 - a / 65536)

/-- One interrupt between the two accesses, and the count is twice what it should be. -/
example : torn true 0xFFFF 0x10000 = 0x1FFFF := by decide

/-- Nothing but interrupts. -/
def OnlyInterrupts (events : List CountEvent) : Prop :=
  ∀ e ∈ events, ∃ j, e = CountEvent.interrupt j

/-- What the program has of one line after a run. -/
structure CountsRight (lowFirst : Bool) (events : List CountEvent) (s : CountState)
    (i : Fin 16) : Prop where
  count : s.irqCounts i = UInt32.ofNat (interrupts i events)
  rate : s.rates i = (s.shown i).getLastD 0
  total : (s.shown i).foldl (· + ·) 0 = s.lastCounts i
  last : ∀ front between after,
    events = front ++ .first i :: (between ++ .second i :: after) → OnlyInterrupts between →
    CountEvent.second i ∉ after → CountEvent.clear ∉ after →
    s.lastCounts i = UInt32.ofNat (torn lowFirst (interrupts i front)
      (interrupts i (front ++ .first i :: between)))

/-! ## The halves -/

/-- One event more: an interrupt of the line adds one, a clear starts again. -/
theorem interrupts_concat (i : Fin 16) (events : List CountEvent) (e : CountEvent) :
    interrupts i (events ++ [e]) = match e with
      | .interrupt j => if j = i then interrupts i events + 1 else interrupts i events
      | .clear => 0
      | _ => interrupts i events := by
  rw [interrupts, List.foldl_append, List.foldl_cons, List.foldl_nil]
  rfl

/-- Interrupts alone never make it less. -/
theorem interrupts_le {i : Fin 16} {between : List CountEvent} (h : OnlyInterrupts between)
    (events : List CountEvent) : interrupts i events ≤ interrupts i (events ++ between) := by
  induction between using List.reverseRecOn with
  | nil => rw [List.append_nil]
  | append_singleton between e ih =>
    have hle := ih fun e' he' => h e' (List.mem_append_left _ he')
    obtain ⟨j, rfl⟩ := h e (List.mem_append_right _ List.mem_cons_self)
    rw [← List.append_assoc, interrupts_concat]
    dsimp only
    split
    next => omega
    next => exact hle

/-- **Torn reads.** -/
theorem current_firstHalf (lowFirst : Bool) {a b : Nat} (hle : a ≤ b) :
    current lowFirst (firstHalf lowFirst (UInt32.ofNat a)) (UInt32.ofNat b) =
      UInt32.ofNat (torn lowFirst a b) := by
  -- the two halves of a counter, modulo 2^32
  have hlow : ∀ n, (lowHalf (UInt32.ofNat n)).toNat = n % 65536 := by
    intro n
    rw [lowHalf, UInt16.toNat_ofNat', UInt32.toNat_ofNat']
    omega
  have hhigh : ∀ n, (highHalf (UInt32.ofNat n)).toNat = n / 65536 % 65536 := by
    intro n
    rw [highHalf, UInt16.toNat_ofNat', UInt32.toNat_ofNat']
    omega
  -- each interrupt that carries into the upper half between the accesses is worth 65536
  have hdiv : a / 65536 ≤ b / 65536 := Nat.div_le_div_right hle
  rw [← UInt32.toNat_inj]
  cases lowFirst with
  | true =>
    show (UInt32.ofNat ((lowHalf (UInt32.ofNat a)).toNat +
      65536 * (highHalf (UInt32.ofNat b)).toNat)).toNat =
        (UInt32.ofNat (a + 65536 * (b / 65536 - a / 65536))).toNat
    rw [UInt32.toNat_ofNat', UInt32.toNat_ofNat', hlow, hhigh]
    omega
  | false =>
    show (UInt32.ofNat ((lowHalf (UInt32.ofNat b)).toNat +
      65536 * (highHalf (UInt32.ofNat a)).toNat)).toNat =
        (UInt32.ofNat (b - 65536 * (b / 65536 - a / 65536))).toNat
    rw [UInt32.toNat_ofNat', UInt32.toNat_ofNat', hlow, hhigh]
    omega

/-! ## One step -/

/-- What holds of a line after a run: the counters are right, and a half that has been read is that
of the counter at the access. -/
structure CountInv (lowFirst : Bool) (i : Fin 16) (events : List CountEvent) (s : CountState) :
    Prop where
  right : CountsRight lowFirst events s i
  half : ∀ front between h, s.sampling = .between i h → events = front ++ .first i :: between →
    OnlyInterrupts between → h = firstHalf lowFirst (UInt32.ofNat (interrupts i front))

section

variable {lowFirst : Bool} {i : Fin 16} {events : List CountEvent} {s s' : CountState}

/-- What a step leaves to show where it does not end a pass of this line. -/
theorem CountInv.of_kept (hinv : CountInv lowFirst i events s) {e : CountEvent}
    (hsecond : e ≠ .second i) (hlast : s'.lastCounts i = s.lastCounts i)
    (hrate : s'.rates i = s.rates i) (hshown : s'.shown i = s.shown i)
    (hcount : s'.irqCounts i = UInt32.ofNat (interrupts i (events ++ [e])))
    (hhalf : ∀ front between h, s'.sampling = .between i h →
      events ++ [e] = front ++ .first i :: between → OnlyInterrupts between →
      h = firstHalf lowFirst (UInt32.ofNat (interrupts i front))) :
    CountInv lowFirst i (events ++ [e]) s' := by
  refine ⟨⟨hcount, by rw [hrate, hshown]; exact hinv.right.rate,
    by rw [hshown, hlast]; exact hinv.right.total, ?_⟩, hhalf⟩
  intro front between after hsplit honly hafter hnoClear
  rw [hlast]
  have hsplit' : events ++ [e] = (front ++ .first i :: between) ++ .second i :: after := by
    rw [hsplit, List.append_assoc, List.cons_append]
  -- the event that is new closes no reading of the line
  rcases split_concat hsplit' with ⟨-, heq, -⟩ | ⟨after', rfl, rfl⟩
  · exact absurd heq.symm hsecond
  · refine hinv.right.last front between after' ?_ honly ?_ ?_
    · rw [List.append_assoc, List.cons_append]
    · exact fun hmem => hafter (List.mem_append_left _ hmem)
    · exact fun hmem => hnoClear (List.mem_append_left _ hmem)

/-- **One step** keeps what holds of a line. -/
theorem CountInv.step (hinv : CountInv lowFirst i events s) (e : CountEvent)
    (hstep : CountState.step lowFirst e s = some s') :
    CountInv lowFirst i (events ++ [e]) s' := by
  have hcount := hinv.right.count
  cases e with
  -- only the counter of the interrupted line changes
  | interrupt j =>
    obtain rfl := Option.some.inj hstep
    refine hinv.of_kept nofun rfl rfl rfl ?_ ?_
    · rw [interrupts_concat]
      dsimp only
      by_cases hj : j = i
      · subst hj
        rw [Function.update_self, if_pos rfl, hcount, UInt32.ofNat_add]
        rfl
      · rw [Function.update_of_ne (Ne.symm hj), if_neg hj, hcount]
    · intro front between h hsampling hsplit honly
      -- the interrupt comes between the two accesses
      rcases split_concat hsplit with ⟨-, hne, -⟩ | ⟨between', rfl, hsplit'⟩
      · cases hne
      · exact hinv.half front between' h hsampling hsplit'
          fun e he => honly e (List.mem_append_left _ he)
  -- a sample starts with nothing read
  | sample =>
    simp only [CountState.step, Option.ite_none_right_eq_some, Option.some.injEq] at hstep
    obtain ⟨-, rfl⟩ := hstep
    exact hinv.of_kept nofun rfl rfl rfl (by rw [interrupts_concat]; exact hcount) nofun
  | first j =>
    simp only [CountState.step, Option.ite_none_right_eq_some, Option.some.injEq] at hstep
    obtain ⟨-, rfl⟩ := hstep
    refine hinv.of_kept nofun rfl rfl rfl (by rw [interrupts_concat]; exact hcount) ?_
    intro front between h hsampling hsplit honly
    -- what is held is the half of the counter as it is now
    obtain ⟨rfl, rfl⟩ := Sampling.between.inj hsampling
    rcases split_concat hsplit with ⟨rfl, -, -⟩ | ⟨between', rfl, -⟩
    · rw [hcount]
    · -- the access itself is no interrupt
      obtain ⟨k, hk⟩ := honly _ (List.mem_append_right _ List.mem_cons_self)
      cases hk
  | second j =>
    simp only [CountState.step] at hstep
    split at hstep
    next k h hsampling =>
      simp only [Option.ite_none_right_eq_some, Option.some.injEq] at hstep
      obtain ⟨rfl, rfl⟩ := hstep
      -- the line is done, and none of the others has been read yet
      have hidle : ∀ h', nextPass k ≠ .between i h' := by
        intro h'
        unfold nextPass
        split
        next => exact nofun
        next => exact nofun
      -- this line or another
      by_cases hk : k = i
      · subst hk
        refine ⟨⟨by rw [interrupts_concat]; exact hcount, ?_, ?_, ?_⟩,
          fun _ _ h' hs' => absurd hs' (hidle h')⟩
        · show Function.update s.rates k _ k = (Function.update s.shown k _ k).getLastD 0
          rw [Function.update_self, Function.update_self, List.getLastD_concat]
        · -- the new rate brings the total from the last count to the current one
          show (Function.update s.shown k _ k).foldl (· + ·) 0 = Function.update s.lastCounts k _ k
          rw [Function.update_self, Function.update_self, List.foldl_append, hinv.right.total]
          rw [List.foldl_cons, List.foldl_nil, UInt32.add_comm, UInt32.sub_add_cancel]
        · intro front between after hsplit honly hafter _
          have hsplit' : events ++ [.second k] =
              (front ++ .first k :: between) ++ .second k :: after := by
            rw [hsplit, List.append_assoc, List.cons_append]
          rcases split_concat hsplit' with ⟨rfl, -, -⟩ | ⟨after', rfl, -⟩
          · show Function.update s.lastCounts k _ k = _
            rw [Function.update_self, hcount, hinv.half front between h hsampling rfl honly]
            refine current_firstHalf lowFirst ?_
            rw [← List.singleton_append, ← List.append_assoc]
            refine Nat.le_trans ?_ (interrupts_le honly _)
            rw [interrupts_concat]
          · exact absurd (List.mem_append_right _ List.mem_cons_self) hafter
      · have hne : i ≠ k := Ne.symm hk
        refine hinv.of_kept (fun heq => hk (CountEvent.second.inj heq))
          (Function.update_of_ne hne _ _) (Function.update_of_ne hne _ _)
          (Function.update_of_ne hne _ _)
          (by rw [interrupts_concat]; exact hcount) fun _ _ h' hs' => absurd hs' (hidle h')
    next => cases hstep
  -- a clear sets everything back, and there is no reading under way
  | clear =>
    simp only [CountState.step, Option.ite_none_right_eq_some, Option.some.injEq] at hstep
    obtain ⟨-, rfl⟩ := hstep
    refine ⟨⟨by rw [interrupts_concat]; rfl, rfl, rfl, ?_⟩, nofun⟩
    intro front between after hsplit _ _ hnoClear
    have hsplit' : events ++ [CountEvent.clear] =
        (front ++ .first i :: between) ++ .second i :: after := by
      rw [hsplit, List.append_assoc, List.cons_append]
    rcases split_concat hsplit' with ⟨-, hne, -⟩ | ⟨after', rfl, -⟩
    · cases hne
    · exact absurd (List.mem_append_right _ List.mem_cons_self) hnoClear

theorem countInv_start : CountInv lowFirst i [] CountState.start where
  right := ⟨rfl, rfl, rfl, fun front between after h => by simp at h⟩
  half := nofun

end

/-- **What IRQMON counts.** After any interleaving of interrupts, accesses and clears, for each
line: the counter is the number of its interrupts since the last clear, modulo `2 ^ 32`; the rates
shown since then add up to the last count; and the last count is the number of interrupts at one of
the two accesses that read it, but for 65536 for each time the low half has wrapped between them. -/
theorem counters_run {lowFirst : Bool} {events : List CountEvent} {s : CountState}
    (hrun : countRun lowFirst events = some s) (i : Fin 16) : CountsRight lowFirst events s i := by
  refine (Script.completed_invariant (CountInv lowFirst i)
    (fun front e after t t' _ hinv hstep => ?_) countInv_start (List.append_nil events).symm
    hrun).right
  exact hinv.step e hstep

/-- A sample of the first line, with an interrupt between the two accesses. -/
def interruptedSample : List CountEvent :=
  [.interrupt firstLine, .sample, .first firstLine, .interrupt firstLine, .second firstLine]

theorem counters_run_interruptedSample :
    ∃ s, countRun true interruptedSample = some s ∧
      CountsRight true interruptedSample s firstLine :=
  ⟨_, rfl, counters_run rfl firstLine⟩

end NioApps.Irqmon
