import NioApps.Checksum.Addx
import NioApps.Checksum.Branch

/-!
# Checksum — the routines against the reference

* `checksumRoutines_correct` — both routines return what the fold returns, having read the buffer
  once, with D2 and the stack pointer kept.
-/

namespace NioApps.Checksum

open M68k Loop

/-- **Both routines equal the reference.** Entered with any registers, flags and memory, each is
back in its caller with the fold of the buffer's bytes in D0, and has read the arguments, each byte
of the buffer once and in order, and what it takes from the stack on the way out. -/
theorem checksumRoutines_correct (s : State) (hpc : s.pc = 0) (hclear : BufferClear s) :
    (∃ s', Returns (step fnCalcChecksumAsm) s (.returned (returnAddress s) s') ∧
      Checked s s' (addrsFrom (s.a .sp - 4) 4 ++ addrsFrom (s.a .sp) 4)) ∧
    (∃ s', Returns (step fnCalcChecksumAsmBranch) s (.returned (returnAddress s) s') ∧
      Checked s s' (addrsFrom (s.a .sp) 4)) ∧
    (addrsFrom (dataArg s) (lenArg s)).Nodup := by
  have hlen := lenArg_lt s
  exact ⟨addx_returns hclear hpc, branch_returns hpc, nodup_addrsFrom _ (by omega)⟩

/-- A call on the bytes of the carry example in the listing, with registers and the upper half of
the length slot full of garbage. -/
def carryCall : State where
  d := fun _ => 0xDEADBEEF
  a := fun n => if n = .sp then 0x1000 else 0xDEADBEEF
  x := true
  z := false
  c := true
  mem := storeBytes (storeBytes (fun _ => 0xAA) 0x1000
    [0, 0, 0x80, 0, 0, 0, 0x20, 0, 0xDE, 0xAD, 0, 2]) 0x2000 [0xF0, 0x30]
  reads := []
  pc := 0

/-- Both routines return `0x21` from `carryCall`. -/
theorem checksumRoutines_correct_carryCall :
    (∃ s', Returns (step fnCalcChecksumAsm) carryCall (.returned 0x8000 s') ∧
      low .byte (s'.d .d0) = 0x21) ∧
    (∃ s', Returns (step fnCalcChecksumAsmBranch) carryCall (.returned 0x8000 s') ∧
      low .byte (s'.d .d0) = 0x21) := by
  -- the call reads two bytes, clear of its stack
  have hret : returnAddress carryCall = 0x8000 := by decide +kernel
  have hsum : calcChecksum (buffer carryCall) = 0x21 := by decide +kernel
  have haddrs : addrsFrom (dataArg carryCall) (lenArg carryCall) = [0x2000, 0x2001] := by
    decide +kernel
  have hclear : BufferClear carryCall := by
    intro addr haddr
    rw [haddrs] at haddr
    rcases List.mem_pair.mp haddr with rfl | rfl
    all_goals decide +kernel
  obtain ⟨⟨s₁, hreturns₁, hchecked₁⟩, ⟨s₂, hreturns₂, hchecked₂⟩, -⟩ :=
    checksumRoutines_correct carryCall rfl hclear
  rw [hret] at hreturns₁ hreturns₂
  exact ⟨⟨s₁, hreturns₁, hchecked₁.chk.trans hsum⟩, ⟨s₂, hreturns₂, hchecked₂.chk.trans hsum⟩⟩

end NioApps.Checksum
