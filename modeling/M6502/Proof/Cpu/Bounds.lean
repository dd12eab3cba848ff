import M6502.Proof.Cpu.Operand
import M6502.Proof.Cpu.Run

/-!
# Accesses outside the arrays

`AccessesInBounds` is a condition on the state before an instruction. A named opcode meets
it unless its operand word lies at the end of an array or it stores past the end of the
memory array; an unnamed byte that a group acts on stores at the `addr` left over. A call
stays inside the arrays exactly if every state it runs an instruction from meets it.
-/

set_option autoImplicit false

namespace M6502

open Lib

variable {b : Build} (PROGMEM : Progmem)

/-- The condition under which the next instruction stays inside the arrays. -/
def AccessesInBounds (x : Machine b) : Prop :=
  match Ins.ofOpcode? (opcodeAt PROGMEM x) with
  | some i =>
    (i.mode.HasOperandWord → WordInBounds b (operandAt x)) ∧
      (i.store?.isSome → StoreInBounds b (effectiveAddress PROGMEM i.mode x))
  | none => opcodeAt PROGMEM x ∈ holes → StoreInBounds b x.1.addr

theorem stepSafe_iff_accessesInBounds (x : Machine b) :
    StepSafe PROGMEM x ↔ AccessesInBounds PROGMEM x := by
  unfold AccessesInBounds
  cases hn : Ins.ofOpcode? (opcodeAt PROGMEM x) with
  | some i => exact stepSafe_iff PROGMEM (Ins.opcode_of_ofOpcode? hn)
  | none =>
    unfold StepSafe
    by_cases hh : opcodeAt PROGMEM x ∈ holes
    · rw [execute_hole hn hh]
      exact ⟨fun h _ => h.1, fun h => ⟨h hh, trivial⟩⟩
    · rw [execute_inert hn hh]
      exact iff_of_true trivial fun h => absurd h hh

/-- **A call of `olc6502_clock` stays inside the arrays exactly if** every instruction it runs
    starts in a state that meets `AccessesInBounds`. -/
theorem clockOn_inBounds_iff (b : Build) (PROGMEM : Progmem) (cpu : Olc6502) (oops_cycle : Bool)
    (mem : Memory b) (n : Int) :
    (clockOn PROGMEM cpu oops_cycle mem n).isSome ↔
      ∀ y, Reached PROGMEM (callStart cpu oops_cycle mem n) y → Running y →
        AccessesInBounds PROGMEM y := by
  rw [clockOn_isSome_iff]
  constructor
  · intro h y hy hrun
    exact (stepSafe_iff_accessesInBounds PROGMEM y).mp (h y hy hrun)
  · intro h y hy hrun
    exact (stepSafe_iff_accessesInBounds PROGMEM y).mpr (h y hy hrun)

/-- `STA $FFFF` indexes the memory array at `0x7FFF`. -/
theorem not_clockOn_inBounds :
    ¬ ∀ (b : Build) (PROGMEM : Progmem) (cpu : Olc6502) (oops_cycle : Bool) (mem : Memory b)
      (n : Int), (clockOn PROGMEM cpu oops_cycle mem n).isSome := by
  intro h
  have hsome := h ⟨false⟩ (fun i => if i.val = 0 then 0x8D else 0xFF)
    { olc6502Init with PC := 0x8000 } false ⟨fun _ => 0⟩ 4
  revert hsome
  decide

end M6502
