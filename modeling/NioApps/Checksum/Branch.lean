import NioApps.Checksum.Routines

/-!
# Checksum — `fn_calc_checksum_asm_branch` from entry to return

The routine by blocks, as for the ADDX version. It saves nothing on the stack, so the invariants
speak of the memory as it was, and the counter in D1 is one less than the number of bytes to come.

* `branch_returns` — the state in which the routine is back in its caller.
-/

namespace NioApps.Checksum

open M68k Loop

variable {s₀ s : State} {k line : Nat}

/-! ## Invariants -/

/-- At a line of the routine with `k` bytes folded. -/
structure BranchAt (s₀ : State) (line k : Nat) (s : State) : Prop extends Folded s₀ k s where
  pc : s.pc = line
  d2 : s.d .d2 = s₀.d .d2
  sp : s.a .sp = s₀.a .sp
  mem : s.mem = s₀.mem

/-- At `.loop_b`, with one less than the number of bytes to come in D1. -/
structure BranchLoop (s₀ : State) (k : Nat) (s : State) : Prop extends BranchAt s₀ 6 k s where
  count : low .word (s.d .d1) + k + 1 = lenArg s₀

/-! ## Before the loop -/

/-- SUBQ makes the count one less than the length. -/
theorem branch_setup (h : BranchAt s₀ 5 0 s) (hlen : low .word (s.d .d1) = lenArg s₀)
    (hpos : 0 < lenArg s₀) :
    ∃ s', Reaches (step fnCalcChecksumAsmBranch) s s' ∧ BranchLoop s₀ 0 s' := by
  obtain ⟨t, ht, htpc, hops⟩ := reaches_block fnCalcChecksumAsmBranch s [.subq .word 1 .d1]
    (by rw [h.pc]; exact ⟨_, rfl⟩)
  have hstate : t = { s with
      d := Function.update s.d .d1 (setLow .word (s.d .d1) (lenArg s₀ + 65535))
      x := decide (lenArg s₀ < 1), c := decide (lenArg s₀ < 1), z := lenArg s₀ == 1
      pc := s.pc + 1 } := by
    simp [ht, runOps, hlen]
  refine ⟨t, hops, ⟨⟨⟨?_, ?_, ?_⟩, ?_, ?_, ?_, ?_⟩, ?_⟩⟩
  · simpa [hstate] using h.chk
  · simpa [hstate] using h.ptr
  · simpa [hstate] using h.reads
  · rw [htpc, h.pc]
    rfl
  · simpa [hstate] using h.d2
  · simpa [hstate] using h.sp
  · simpa [hstate] using h.mem
  · -- the counter starts at one less than the length, since `dbra` counts to -1
    have hlt := lenArg_lt s₀
    have hcount : low .word (t.d .d1) = (lenArg s₀ + 65535) % 65536 := by
      simp [hstate, low_setLow]
    rw [hcount]
    omega

/-- From the call to the loop, or past it where the length is 0. -/
theorem branch_entry (hpc : s.pc = 0) :
    ∃ s', Reaches (step fnCalcChecksumAsmBranch) s s' ∧
      (if lenArg s = 0 then BranchAt s 12 (lenArg s) s' else BranchLoop s 0 s') := by
  obtain ⟨t, ht, htpc, hops⟩ := reaches_block fnCalcChecksumAsmBranch s
    [.movea (.disp 4 .sp) .a0, .move .word (.disp 10 .sp) (.data .d1), .moveq 0 .d0,
      .tst .word (.data .d1)]
    (by rw [hpc]; exact ⟨_, rfl⟩)
  have hlen : low .word (setLow .word (s.d .d1) (lenArg s)) = lenArg s := low_lenArg s _
  have hstate : t = { s with
      d := Function.update (Function.update s.d .d1 (setLow .word (s.d .d1) (lenArg s))) .d0 0
      a := Function.update s.a .a0 (dataArg s)
      z := low .word (setLow .word (s.d .d1) (lenArg s)) == 0, c := false
      reads := s.reads ++ argReads s
      pc := s.pc + 4 } := by
    simp [ht, runOps, lenArg, dataArg, argReads]
  -- a length of 0 branches past the loop
  have hbeq : step fnCalcChecksumAsmBranch t =
      .inl (t.goto (if t.holds .eq then 12 else 5)) := by
    rw [step, htpc, hpc]
    rfl
  have hat : ∀ line, BranchAt s line 0 (t.goto line) := by
    intro line
    refine ⟨⟨?_, ?_, ?_⟩, rfl, ?_, ?_, ?_⟩
    all_goals simp [hstate]
  rcases Nat.eq_zero_or_pos (lenArg s) with hzero | hpos
  · refine ⟨t.goto 12, hops.tail ?_, ?_⟩
    · rw [hbeq]
      simp [hstate, hlen.trans hzero]
    · rw [if_pos hzero, hzero]
      exact hat 12
  · obtain ⟨s', hreach, hloop⟩ := branch_setup (hat 5) (by simpa [hstate] using hlen) hpos
    refine ⟨s', (hops.tail ?_).trans hreach, ?_⟩
    · rw [hbeq]
      simp [hstate, hlen, Nat.ne_of_gt hpos]
    · rw [if_neg (Nat.ne_of_gt hpos)]
      exact hloop

/-! ## The loop -/

/-- From `.loop_b` to `.no_carry`: one byte is folded, with ADDQ or past it. -/
theorem branch_fold (hpc : s.pc = 6) (hchk : low .byte (s.d .d0) < 256) :
    ∃ s', Reaches (step fnCalcChecksumAsmBranch) s s' ∧ s'.pc = 10 ∧
      low .byte (s'.d .d0) = foldByte (low .byte (s.d .d0)) (s.mem (s.a .a0)) ∧
      s'.d .d1 = s.d .d1 ∧ s'.d .d2 = s.d .d2 ∧ s'.a = Function.update s.a .a0 (s.a .a0 + 1) ∧
      s'.mem = s.mem ∧ s'.reads = s.reads ++ [s.a .a0] := by
  -- the label takes a step of its own
  have hlabel : step fnCalcChecksumAsmBranch s = .inl (s.goto 7) := by
    rw [step, hpc]
    rfl
  obtain ⟨t, ht, htpc, hops⟩ := reaches_block fnCalcChecksumAsmBranch (s.goto 7)
    [.add .byte (.postinc .a0) .d0] ⟨_, rfl⟩
  have hbcc : step fnCalcChecksumAsmBranch t = .inl (t.goto (if t.holds .cc then 10 else 9)) := by
    rw [step, htpc]
    rfl
  obtain ⟨sum, hsum⟩ : ∃ sum, sum = low .byte (s.d .d0) + (s.mem (s.a .a0)).toNat := ⟨_, rfl⟩
  have hstate : t = { s with
      d := Function.update s.d .d0 (setLow .byte (s.d .d0) sum)
      a := Function.update s.a .a0 (s.a .a0 + 1)
      x := decide (256 ≤ sum), c := decide (256 ≤ sum), z := sum % 256 == 0
      reads := s.reads ++ [s.a .a0]
      pc := 8 } := by
    simp [ht, runOps, hsum, valueAt_one, addrsFrom_one]
  -- the fold adds 1 exactly where the addition carries, which is what the branch tests
  have hfold := addq_fold hchk (s.mem (s.a .a0))
  rw [← hsum] at hfold
  split at hfold
  -- a carry: one more instruction before the loop goes on
  · next hcarry =>
    obtain ⟨u, hu, hupc, haddq⟩ := reaches_block fnCalcChecksumAsmBranch (t.goto 9)
      [.addq .byte 1 .d0] ⟨_, rfl⟩
    have hbcc' : step fnCalcChecksumAsmBranch t = .inl (t.goto 9) := by
      rw [hbcc]
      simp [hstate, hcarry]
    refine ⟨u, .head hlabel ((hops.tail hbcc').trans haddq), hupc, ?_, ?_, ?_, ?_, ?_, ?_⟩
    · rw [← hfold]
      simp [hu, runOps, hstate, low_setLow]
    all_goals simp [hu, runOps, hstate]
  · next hlow =>
    have hbcc' : step fnCalcChecksumAsmBranch t = .inl (t.goto 10) := by
      rw [hbcc]
      simp [hstate, Nat.lt_of_not_le hlow]
    refine ⟨_, .head hlabel (hops.tail hbcc'), rfl, ?_, ?_, ?_, ?_, ?_, ?_⟩
    · rw [← hfold]
      simp [hstate, low_setLow]
    all_goals simp [hstate]

/-- One pass folds one byte, and the last pass leaves the loop. -/
theorem branch_pass (hk : k < lenArg s₀) (h : BranchLoop s₀ k s) :
    ∃ s', Reaches (step fnCalcChecksumAsmBranch) s s' ∧
      (if k + 1 = lenArg s₀ then BranchAt s₀ 12 (lenArg s₀) s' else BranchLoop s₀ (k + 1) s') := by
  obtain ⟨t, hreach, htpc, hchk, hd1, hd2, ha, hmem, hreads⟩ := branch_fold h.pc h.chk_lt
  have hlabel : step fnCalcChecksumAsmBranch t = .inl (t.goto 11) := by
    rw [step, htpc]
    rfl
  -- the state after DBRA has counted down
  obtain ⟨u, hu⟩ : ∃ u, u = (t.goto 11).setD .word .d1 (low .word (t.d .d1) + 65535) := ⟨_, rfl⟩
  have hdbra : step fnCalcChecksumAsmBranch (t.goto 11) =
      .inl (u.goto (if low .word (u.d .d1) = 65535 then 12 else 6)) := by
    rw [hu]
    rfl
  have hcount : low .word (u.d .d1) = (low .word (s.d .d1) + 65535) % 65536 := by
    simp [hu, low_setLow, hd1]
  have hat : ∀ line, BranchAt s₀ line (k + 1) (u.goto line) := by
    intro line
    refine ⟨h.toFolded.succ ?_ ?_ ?_ ?_, rfl, ?_, ?_, ?_⟩
    · rw [h.mem, h.ptr]
    · simpa [hu] using hchk
    · simp [hu, ha]
    · simpa [hu] using hreads
    · simp [hu, hd2, h.d2]
    · simp [hu, ha, h.sp]
    · simp [hu, hmem, h.mem]
  refine ⟨_, (hreach.tail hlabel).tail hdbra, ?_⟩
  have hlt := lenArg_lt s₀
  have hinv := h.count
  split
  · next hlast =>
    rw [if_pos (by omega), ← hlast]
    exact hat 12
  · next hmore =>
    rw [if_neg (by omega)]
    refine ⟨hat 6, ?_⟩
    show low .word (u.d .d1) + (k + 1) + 1 = lenArg s₀
    omega

/-! ## The way out -/

/-- **The branching routine returns the checksum**, whatever the registers and flags hold. -/
theorem branch_returns (hpc : s.pc = 0) :
    ∃ s', Returns (step fnCalcChecksumAsmBranch) s (.returned (returnAddress s) s') ∧
      Checked s s' (addrsFrom (s.a .sp) 4) := by
  obtain ⟨t, hreach, hat⟩ := reaches_of_count (BranchLoop s) (BranchAt s 12 (lenArg s))
    (fun _ _ hk h => branch_pass hk h) (branch_entry hpc)
  have hlabel : step fnCalcChecksumAsmBranch t = .inl (t.goto 13) := by
    rw [step, hat.pc]
    rfl
  have hrts := returns_of_rts (p := fnCalcChecksumAsmBranch) (s := t.goto 13) rfl
  rw [show (t.goto 13).a .sp = s.a .sp from hat.sp, show (t.goto 13).mem = s.mem from hat.mem] at hrts
  refine ⟨_, .of_reaches (hreach.tail hlabel) hrts, ?_, ?_, ?_, ?_⟩
  · simpa [buffer] using hat.chk
  · simpa using hat.d2
  · simp [hat.sp]
  · simp [hat.sp, hat.reads]

end NioApps.Checksum
