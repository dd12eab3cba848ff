import M6502.Proof.Cpu.NextPc
import M6502.Proof.Cpu.Run
import M6502.Proof.Cpu.Stack
import M6502.Proof.Cpu.Status

/-!
# An interrupt frame, pushed and pulled

`BRK` pushes the return address and the status byte, `RTI` pulls them. Around any handler
that leaves the frame alone and balances the stack, `PC` and `SP` come back
(`interruptFrame_iff`). The flags need not: `RTI` ORs the pulled byte into `PS`, so what the
handler set stays set.
-/

set_option autoImplicit false

namespace M6502

open Lib Cpu

variable {b : Build} (PROGMEM : Progmem)

/-! ## The two instructions -/

theorem stepOf_rti_ps {x : Machine b} (h : At PROGMEM .rti x) :
    (stepOf PROGMEM x).1.cpu.PS =
      .ofValue ({ x.1.cpu.PS with I := x.1.cpu.iNxt }.value |||
        (peek PROGMEM x.2 (stackAddress (x.1.cpu.SP + 1)) &&& 0xCF)) := by
  rw [stepOf_arms PROGMEM h]
  rfl

/-- The bytes of the frame `BRK` leaves below `SP`. -/
theorem stepOf_brk_frame {x : Machine b} (h : At PROGMEM .brk x) {k : Nat} {v : U8}
    (hk : (Ins.brk.pushed x.1.cpu)[k]? = some v) :
    peek PROGMEM (stepOf PROGMEM x).2 (stackAddress (x.1.cpu.SP - .ofNat 8 k)) = v := by
  have hlen : (Ins.brk.pushed x.1.cpu).length ≤ 256 := show 3 ≤ 256 by decide
  rw [stepOf_mem PROGMEM h]
  exact peek_stackWrites PROGMEM hlen hk

/-! ## The round trip -/

/-- `BRK` at `x₀`, a handler from `x₁` to `x₂` that leaves the three cells of the frame alone
    and brings `SP` back to them, and `RTI` to `x₃`. -/
structure InterruptRun (x₀ x₁ x₂ x₃ : Machine b) : Prop where
  brk : At PROGMEM .brk x₀
  enter : Next PROGMEM x₀ x₁
  handler : Relation.ReflTransGen (Next PROGMEM) x₁ x₂
  frame : ∀ k < 3, busReadByte PROGMEM x₂.2 (stackAddress (x₀.1.cpu.SP - .ofNat 8 k)) =
    busReadByte PROGMEM x₁.2 (stackAddress (x₀.1.cpu.SP - .ofNat 8 k))
  balanced : x₂.1.cpu.SP = x₀.1.cpu.SP - 3
  rti : At PROGMEM .rti x₂
  leave : Next PROGMEM x₂ x₃

theorem sameFlags_pushedStatus (cpu : Olc6502) :
    SameFlags (.ofValue (pushedStatus cpu)) cpu.PS :=
  sameFlags_or_0x30 { cpu.PS with I := cpu.iNxt }

/-- The mask of `RTI` leaves the flags of the pushed byte alone. -/
theorem sameFlags_frame (cpu : Olc6502) :
    SameFlags (.ofValue (pushedStatus cpu &&& 0xCF)) cpu.PS :=
  (sameFlags_mask _ ⟨rfl, rfl, rfl, rfl, rfl⟩).trans (sameFlags_pushedStatus cpu)

/-- **Around any such handler `PC` and `SP` come back**, `PC` past the padding byte, **and the
    flags exactly if** the handler leaves no flag set that was clear at the `BRK`. -/
theorem interruptFrame_iff (b : Build) (PROGMEM : Progmem) (x₀ x₁ x₂ x₃ : Machine b)
    (h : InterruptRun PROGMEM x₀ x₁ x₂ x₃) :
    x₃.1.cpu.PC = x₀.1.cpu.PC + 2 ∧ x₃.1.cpu.SP = x₀.1.cpu.SP ∧
      (SameFlags x₃.1.cpu.PS x₀.1.cpu.PS ↔ NoFlagGained x₀.1.cpu.PS x₂.1.cpu.PS) := by
  obtain ⟨-, hmem₁⟩ := h.enter.stepOf PROGMEM
  obtain ⟨hcpu₃, -⟩ := h.leave.stepOf PROGMEM
  -- the frame as `RTI` finds it
  have hframe : ∀ k < 3, ∀ v, (Ins.brk.pushed x₀.1.cpu)[k]? = some v →
      peek PROGMEM x₂.2 (stackAddress (x₀.1.cpu.SP - .ofNat 8 k)) = v := by
    intro k hk v hv
    have hsame := h.frame k hk
    rw [busReadByte_eq, busReadByte_eq] at hsame
    rw [Option.some.inj hsame, hmem₁]
    exact stepOf_brk_frame PROGMEM h.brk hv
  have hhigh := hframe 0 (by decide) _ rfl
  have hlow := hframe 1 (by decide) _ rfl
  have hstatus := hframe 2 (by decide) _ rfl
  have hsp := h.balanced
  have hcell₁ : x₂.1.cpu.SP + 1 = x₀.1.cpu.SP - .ofNat 8 2 := by bv_omega
  have hcell₂ : x₂.1.cpu.SP + 1 + 1 = x₀.1.cpu.SP - .ofNat 8 1 := by bv_omega
  have hcell₃ : x₂.1.cpu.SP + 1 + 1 + 1 = x₀.1.cpu.SP - .ofNat 8 0 := by bv_omega
  refine ⟨?_, ?_, ?_⟩
  · rw [hcpu₃, stepOf_pc PROGMEM h.rti]
    unfold codePc
    dsimp only
    rw [hcell₃, hcell₂, hhigh, hlow, word_bytes]
    exact BitVec.add_assoc _ 1 1
  · rw [hcpu₃, stepOf_sp PROGMEM h.rti]
    exact hcell₃.trans (BitVec.sub_zero _)
  · rw [hcpu₃, stepOf_rti_ps PROGMEM h.rti, hcell₁, hstatus]
    exact sameFlags_or_iff (sameFlags_frame x₀.1.cpu)

/-- A program image with `BRK` at `0x8000`, and at `0x9000` a handler of `SEC` and `RTI`. -/
def irqProgmem : Progmem := fun i =>
  if i.val = 0x1000 then 0x38 else if i.val = 0x1001 then 0x40 else if i.val = 0x7FFF then 0x90
  else 0x00

def irqState : Machine ⟨false⟩ :=
  (clockStart { olc6502Init with PC := 0x8000 } false 20, ⟨fun _ => 0⟩)

theorem irqRun :
    InterruptRun irqProgmem irqState (stepOf irqProgmem irqState)
      (stepOf irqProgmem (stepOf irqProgmem irqState))
      (stepOf irqProgmem (stepOf irqProgmem (stepOf irqProgmem irqState))) := by
  have hsec : At irqProgmem .sec (stepOf irqProgmem irqState) := by decide
  have hrti : At irqProgmem .rti (stepOf irqProgmem (stepOf irqProgmem irqState)) := by decide
  have hbrk : At irqProgmem .brk irqState := by decide
  refine ⟨hbrk, .of_safe _ (by decide), .single (.of_safe _ (by decide)), ?_,
    by decide, hrti, .of_safe _ (by decide)⟩
  intro k _
  rw [stepOf_mem _ hsec]
  rfl

/-- Through a handler that sets the carry. -/
theorem interruptFrame_iff_sec :
    (stepOf irqProgmem (stepOf irqProgmem (stepOf irqProgmem irqState))).1.cpu.PC =
        irqState.1.cpu.PC + 2 ∧
      (stepOf irqProgmem (stepOf irqProgmem (stepOf irqProgmem irqState))).1.cpu.SP =
        irqState.1.cpu.SP ∧
      (SameFlags (stepOf irqProgmem (stepOf irqProgmem (stepOf irqProgmem irqState))).1.cpu.PS
          irqState.1.cpu.PS ↔
        NoFlagGained irqState.1.cpu.PS
          (stepOf irqProgmem (stepOf irqProgmem irqState)).1.cpu.PS) :=
  interruptFrame_iff ⟨false⟩ irqProgmem irqState _ _ _ irqRun

/-- There the carry, clear at the `BRK`, is still set after the `RTI`. -/
theorem not_interruptFrame :
    ¬ ∀ (b : Build) (PROGMEM : Progmem) (x₀ x₁ x₂ x₃ : Machine b),
      InterruptRun PROGMEM x₀ x₁ x₂ x₃ →
        x₃.1.cpu.PC = x₀.1.cpu.PC + 2 ∧ x₃.1.cpu.SP = x₀.1.cpu.SP ∧
          SameFlags x₃.1.cpu.PS x₀.1.cpu.PS := by
  intro h
  obtain ⟨-, -, -, -, -, -, hC⟩ := h ⟨false⟩ irqProgmem irqState _ _ _ irqRun
  revert hC
  decide

end M6502
