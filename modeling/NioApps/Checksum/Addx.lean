import NioApps.Checksum.Routines

/-!
# Checksum — `fn_calc_checksum_asm` from entry to return

The routine by blocks: what stands before the loop, one pass, and the way out. Each block's effect
is one symbolic state; the loop invariant is read off it.

* `addx_returns` — the state in which the routine is back in its caller.
-/

namespace NioApps.Checksum

open M68k Loop

variable {s₀ s : State} {k line : Nat}

/-! ## Invariants -/

/-- At a line of the routine with `k` bytes folded: D2 stands on the stack. -/
structure AddxAt (s₀ : State) (line k : Nat) (s : State) : Prop extends Folded s₀ k s where
  pc : s.pc = line
  sp : s.a .sp = s₀.a .sp - 4
  mem : s.mem = storeValue s₀.mem (s₀.a .sp - 4) 4 (s₀.d .d2).toNat

/-- At `.loop`, with D2 zero and the end of the buffer in A1. -/
structure AddxLoop (s₀ : State) (k : Nat) (s : State) : Prop extends AddxAt s₀ 10 k s where
  zero : s.d .d2 = 0
  stop : s.a .a1 = dataArg s₀ + BitVec.ofNat 32 (lenArg s₀)

/-- The saved register does not reach up to the return address. -/
theorem AddxAt.returnAddress (h : AddxAt s₀ line k s) :
    valueAt s.mem (s₀.a .sp) 4 = valueAt s₀.mem (s₀.a .sp) 4 := by
  have hdisj : ∀ addr ∈ addrsFrom (s₀.a .sp) 4, 4 ≤ (addr - (s₀.a .sp - 4)).toNat := by
    intro addr haddr
    obtain ⟨i, hi, rfl⟩ := mem_addrsFrom haddr
    bv_omega
  rw [h.mem, valueAt, valueAt, bytesFrom_storeValue_of_ge _ hdisj]

/-- The saved register does not reach into the buffer. -/
theorem AddxAt.mem_buffer (h : AddxAt s₀ line k s) (hclear : BufferClear s₀)
    (hk : k < lenArg s₀) :
    s.mem (dataArg s₀ + BitVec.ofNat 32 k) = s₀.mem (dataArg s₀ + BitVec.ofNat 32 k) := by
  have hmem : dataArg s₀ + BitVec.ofNat 32 k ∈ addrsFrom (dataArg s₀) (lenArg s₀) :=
    List.mem_map_of_mem (List.mem_range.mpr hk)
  rw [h.mem]
  apply storeBytes_of_ge
  rw [List.length_reverse, leBytes_length]
  exact hclear _ hmem

/-! ## Before the loop -/

/-- The lines between the test of the length and `.loop`. -/
theorem addx_setup (h : AddxAt s₀ 6 0 s) (hlen : low .word (s.d .d1) = lenArg s₀) :
    ∃ s', Reaches (step fnCalcChecksumAsm) s s' ∧ AddxLoop s₀ 0 s' := by
  obtain ⟨t, ht, htpc, hops⟩ := reaches_block fnCalcChecksumAsm s
    [.moveq 0 .d2, .move .word (.data .d1) (.data .d2), .lea .a0 .d2 .a1, .moveq 0 .d2]
    (by rw [h.pc]; exact ⟨_, rfl⟩)
  have hmod : lenArg s₀ % 65536 = lenArg s₀ := Nat.mod_eq_of_lt (lenArg_lt s₀)
  -- the four instructions in one step
  have hstate : t = { s with
      d := Function.update s.d .d2 0
      a := Function.update s.a .a1 (s.a .a0 + BitVec.ofNat 32 (lenArg s₀))
      z := true, c := false, pc := s.pc + 4 } := by
    simp [ht, runOps, setLow_zero, hlen, hmod]
  refine ⟨t, hops, ⟨⟨⟨?_, ?_, ?_⟩, ?_, ?_, ?_⟩, ?_, ?_⟩⟩
  · simpa [hstate] using h.chk
  · simpa [hstate] using h.ptr
  · simpa [hstate] using h.reads
  · rw [htpc, h.pc]
    rfl
  · simpa [hstate] using h.sp
  · simpa [hstate] using h.mem
  · simp [hstate]
  · simp [hstate, h.ptr]

/-- From the call to the loop, or past it where the length is 0. -/
theorem addx_entry (hpc : s.pc = 0) :
    ∃ s', Reaches (step fnCalcChecksumAsm) s s' ∧
      (if lenArg s = 0 then AddxAt s 15 (lenArg s) s' else AddxLoop s 0 s') := by
  -- from the entry to the branch on the length
  obtain ⟨t, ht, htpc, hops⟩ := reaches_block fnCalcChecksumAsm s
    [.movea (.disp 4 .sp) .a0, .move .word (.disp 10 .sp) (.data .d1),
      .move .long (.data .d2) (.predec .sp), .moveq 0 .d0, .tst .word (.data .d1)]
    (by rw [hpc]; exact ⟨_, rfl⟩)
  have hlen : low .word (setLow .word (s.d .d1) (lenArg s)) = lenArg s := low_lenArg s _
  have hstate : t = { s with
      d := Function.update (Function.update s.d .d1 (setLow .word (s.d .d1) (lenArg s))) .d0 0
      a := Function.update (Function.update s.a .a0 (dataArg s)) .sp (s.a .sp - 4)
      z := low .word (setLow .word (s.d .d1) (lenArg s)) == 0, c := false
      mem := storeValue s.mem (s.a .sp - 4) 4 (s.d .d2).toNat
      reads := s.reads ++ argReads s
      pc := s.pc + 5 } := by
    simp [ht, runOps, lenArg, dataArg, argReads]
  have hbeq : step fnCalcChecksumAsm t =
      .inl (t.goto (if t.holds .eq then 15 else 6)) := by
    rw [step, htpc, hpc]
    rfl
  -- wherever the branch leads, nothing has been folded in yet
  have hat : ∀ line, AddxAt s line 0 (t.goto line) := by
    intro line
    refine ⟨⟨?_, ?_, ?_⟩, rfl, ?_, ?_⟩
    all_goals simp [hstate]
  -- a length of 0 goes straight to the end
  rcases Nat.eq_zero_or_pos (lenArg s) with hzero | hpos
  · refine ⟨t.goto 15, hops.tail ?_, ?_⟩
    · rw [hbeq]
      simp [hstate, hlen.trans hzero]
    · rw [if_pos hzero, hzero]
      exact hat 15
  · obtain ⟨s', hreach, hloop⟩ := addx_setup (hat 6) (by simpa [hstate] using hlen)
    refine ⟨s', (hops.tail ?_).trans hreach, ?_⟩
    · rw [hbeq]
      simp [hstate, hlen, Nat.ne_of_gt hpos]
    · rw [if_neg (Nat.ne_of_gt hpos)]
      exact hloop

/-! ## The loop -/

/-- One pass through the lines under `.loop`. -/
theorem addx_body (hpc : s.pc = 10) (hzero : s.d .d2 = 0) (hchk : low .byte (s.d .d0) < 256) :
    ∃ s', Reaches (step fnCalcChecksumAsm) s s' ∧
      s'.pc = (if s.a .a0 + 1 = s.a .a1 then 15 else 10) ∧
      low .byte (s'.d .d0) = foldByte (low .byte (s.d .d0)) (s.mem (s.a .a0)) ∧ s'.d .d2 = 0 ∧
      s'.a = Function.update s.a .a0 (s.a .a0 + 1) ∧ s'.mem = s.mem ∧
      s'.reads = s.reads ++ [s.a .a0] := by
  have hlabel : step fnCalcChecksumAsm s = .inl (s.goto 11) := by
    rw [step, hpc]
    rfl
  obtain ⟨t, ht, htpc, hops⟩ := reaches_block fnCalcChecksumAsm (s.goto 11)
    [.add .byte (.postinc .a0) .d0, .addx .byte .d2 .d0, .cmpa .a1 .a0] ⟨_, rfl⟩
  have hbne : step fnCalcChecksumAsm t = .inl (t.goto (if t.holds .ne then 10 else 15)) := by
    rw [step, htpc]
    rfl
  -- the low byte of D0 after ADD, and X
  obtain ⟨d₀, hd₀⟩ : ∃ d₀, d₀ = setLow .byte (s.d .d0)
      (low .byte (s.d .d0) + (s.mem (s.a .a0)).toNat) :=
    ⟨_, rfl⟩
  obtain ⟨x, hx⟩ : ∃ x, x = decide (256 ≤ low .byte (s.d .d0) + (s.mem (s.a .a0)).toNat) := ⟨_, rfl⟩
  have hchk' : low .byte (setLow .byte d₀ (low .byte d₀ + x.toNat)) =
      foldByte (low .byte (s.d .d0)) (s.mem (s.a .a0)) := by
    rw [← addx_fold hchk, hx, hd₀]
    simp [low_setLow]
  have hd : t.d = Function.update s.d .d0 (setLow .byte d₀ (low .byte d₀ + x.toNat)) := by
    simp [ht, runOps, valueAt_one, hzero, hd₀, hx]
  have hz : t.z = (s.a .a0 + 1 == s.a .a1) := by
    simp [ht, runOps]
  refine ⟨_, .head hlabel (hops.tail hbne), ?_, ?_, ?_, ?_, ?_, ?_⟩
  · show (if !t.z then 10 else 15) = _
    rw [hz]
    simp
  · simpa [hd] using hchk'
  · simp [hd, hzero]
  · simp [ht, runOps]
  · simp [ht, runOps]
  · simp [ht, runOps, addrsFrom_one]

/-- One pass folds one byte, and the last pass leaves the loop. -/
theorem addx_pass (hclear : BufferClear s₀) (hk : k < lenArg s₀) (h : AddxLoop s₀ k s) :
    ∃ s', Reaches (step fnCalcChecksumAsm) s s' ∧
      (if k + 1 = lenArg s₀ then AddxAt s₀ 15 (lenArg s₀) s' else AddxLoop s₀ (k + 1) s') := by
  obtain ⟨s', hreach, hpc, hchk, hzero, ha, hmem, hreads⟩ := addx_body h.pc h.zero h.chk_lt
  have hfolded : Folded s₀ (k + 1) s' := by
    refine h.toFolded.succ ?_ hchk ?_ hreads
    · rw [h.ptr]
      exact h.mem_buffer hclear hk
    · rw [ha, Function.update_self]
  have hsp : s'.a .sp = s₀.a .sp - 4 := by
    rw [ha, Function.update_of_ne (by decide), h.sp]
  have hstop : s'.a .a1 = dataArg s₀ + BitVec.ofNat 32 (lenArg s₀) := by
    rw [ha, Function.update_of_ne (by decide), h.stop]
  have hmem' : s'.mem = storeValue s₀.mem (s₀.a .sp - 4) 4 (s₀.d .d2).toNat := by
    rw [hmem, h.mem]
  -- the pointers meet exactly after the last byte
  have hmeet : s.a .a0 + 1 = s.a .a1 ↔ k + 1 = lenArg s₀ := by
    have hlen := lenArg_lt s₀
    have hptr : s.a .a0 + 1 = dataArg s₀ + BitVec.ofNat 32 (k + 1) := by
      rw [← hfolded.ptr, ha, Function.update_self]
    rw [hptr, h.stop]
    exact add_ofNat_inj _ (by omega) (by omega)
  refine ⟨s', hreach, ?_⟩
  split
  · next hlast =>
    rw [if_pos (hmeet.mpr hlast)] at hpc
    exact ⟨hlast ▸ hfolded, hpc, hsp, hmem'⟩
  · next hmore =>
    rw [if_neg (mt hmeet.mp hmore)] at hpc
    exact ⟨⟨hfolded, hpc, hsp, hmem'⟩, hzero, hstop⟩

/-! ## The way out -/

/-- D2 comes back from the stack. -/
theorem addx_exit (h : AddxAt s₀ 15 k s) :
    ∃ s', Returns (step fnCalcChecksumAsm) s (.returned (returnAddress s₀) s') ∧
      s'.d .d0 = s.d .d0 ∧ s'.d .d2 = s₀.d .d2 ∧ s'.a .sp = s₀.a .sp + 4 ∧
      s'.reads = s.reads ++ (addrsFrom (s₀.a .sp - 4) 4 ++ addrsFrom (s₀.a .sp) 4) := by
  have hlabel : step fnCalcChecksumAsm s = .inl (s.goto 16) := by
    rw [step, h.pc]
    rfl
  obtain ⟨t, ht, htpc, hops⟩ := reaches_block fnCalcChecksumAsm (s.goto 16)
    [.move .long (.postinc .sp) (.data .d2)] ⟨_, rfl⟩
  -- the loop has not touched the saved D2 on the stack
  have hsaved : BitVec.ofNat 32 (valueAt s.mem (s₀.a .sp - 4) 4) = s₀.d .d2 := by
    rw [h.mem, valueAt_storeValue _ _ (by omega) (s₀.d .d2).isLt, BitVec.ofNat_toNat,
      BitVec.setWidth_eq]
  have hstate : t = { s with
      d := Function.update s.d .d2 (s₀.d .d2)
      a := Function.update s.a .sp (s₀.a .sp)
      z := valueAt s.mem (s₀.a .sp - 4) 4 == 0, c := false
      reads := s.reads ++ addrsFrom (s₀.a .sp - 4) 4
      pc := 17 } := by
    rw [← hsaved]
    simp only [ht, runOps, State.goto, Op.effect, State.tested, State.store, State.setD, State.load,
      State.fetch, State.setA, State.stride, BitVec.ofNat_eq_ofNat, State.put, low_long,
      Size.bytes_long, reduceCtorEq, false_and, if_false, setLow_long, BitVec.ofNat_toNat,
      BitVec.setWidth_eq, State.arith, List.foldl_cons, h.sp, and_true, BitVec.sub_add_cancel,
      Nat.reduceAdd, List.foldl_nil]
  have hrts := returns_of_rts (p := fnCalcChecksumAsm) (s := t) (by rw [htpc]; rfl)
  rw [show t.a .sp = s₀.a .sp by simp [hstate], show t.mem = s.mem by simp [hstate],
    h.returnAddress] at hrts
  refine ⟨_, .of_reaches (.head hlabel hops) hrts, ?_, ?_, ?_, ?_⟩
  all_goals simp [hstate]

/-- **The ADDX routine returns the checksum**, whatever the registers and flags hold. -/
theorem addx_returns (hclear : BufferClear s) (hpc : s.pc = 0) :
    ∃ s', Returns (step fnCalcChecksumAsm) s (.returned (returnAddress s) s') ∧
      Checked s s' (addrsFrom (s.a .sp - 4) 4 ++ addrsFrom (s.a .sp) 4) := by
  obtain ⟨t, hreach, hat⟩ := reaches_of_count (AddxLoop s) (AddxAt s 15 (lenArg s))
    (fun _ _ hk h => addx_pass hclear hk h) (addx_entry hpc)
  obtain ⟨s', hreturns, hd0, hd2, hsp, hreads⟩ := addx_exit hat
  refine ⟨s', .of_reaches hreach hreturns, ?_, hd2, hsp, ?_⟩
  · rw [hd0, hat.chk, buffer]
  · rw [hreads, hat.reads]

end NioApps.Checksum
