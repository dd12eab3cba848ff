import M6502.Proof.Cpu.Operand

/-!
# The documented effective address

`documentedAddress` is what the addressing modes are documented to mean, in what the bus
answers and in arithmetic modulo 256 and 65536. For the two indirect modes it is the answer
of the helper that computes them. Where the operand word is inside the arrays it is
`effectiveAddress` (`documentedAddress_eq`).
-/

set_option autoImplicit false

namespace M6502

open Lib Cpu

variable {b : Build} (PROGMEM : Progmem)

/-- The answer of an addressing helper called after the opcode fetch. -/
def helperAnswer (helper : ClockM U16) (x : Machine b) : Option U16 :=
  ((helper x.1.afterFetch).run (bus PROGMEM) x.2).map fun r => r.1.1

/-- The address an instruction of each mode is documented to work on. -/
def documentedAddress (m : Mode) (x : Machine b) : Option U16 :=
  let p := x.1.cpu.PC
  match m with
  | .immediate => some (p + 1)
  | .zeroPage => (busReadByte PROGMEM x.2 (p + 1)).map fun v => v.setWidth 16
  | .zeroPageX => (busReadByte PROGMEM x.2 (p + 1)).map fun v =>
    .ofNat 16 ((v.toNat + x.1.cpu.X.toNat) % 256)
  | .zeroPageY => (busReadByte PROGMEM x.2 (p + 1)).map fun v =>
    .ofNat 16 ((v.toNat + x.1.cpu.Y.toNat) % 256)
  | .absolute => busReadWord PROGMEM x.2 (p + 1)
  | .absoluteX => (busReadWord PROGMEM x.2 (p + 1)).map fun w =>
    .ofNat 16 ((w.toNat + x.1.cpu.X.toNat) % 65536)
  | .absoluteY => (busReadWord PROGMEM x.2 (p + 1)).map fun w =>
    .ofNat 16 ((w.toNat + x.1.cpu.Y.toNat) % 65536)
  | .indirectX => helperAnswer PROGMEM getIndexedIndirectX x
  | .indirectY => helperAnswer PROGMEM getIndexedIndirectY x
  | .implied | .accumulator | .relative | .indirect => none

/-! ## Arithmetic -/

theorem zp_index (v index : U8) :
    ((v.setWidth 16 + index.setWidth 16) &&& 0xFF : U16) =
      .ofNat 16 ((v.toNat + index.toNat) % 256) := by
  have hv := v.isLt
  have hi := index.isLt
  apply BitVec.eq_of_toNat_eq
  rw [BitVec.toNat_and, show (0xFF : U16).toNat = 2 ^ 8 - 1 from rfl,
    Nat.and_two_pow_sub_one_eq_mod]
  simp only [BitVec.toNat_add, BitVec.toNat_setWidth, BitVec.toNat_ofNat]
  omega

theorem absolute_index (w : U16) (index : U8) :
    w + index.setWidth 16 = .ofNat 16 ((w.toNat + index.toNat) % 65536) := by
  have hi := index.isLt
  apply BitVec.eq_of_toNat_eq
  simp only [BitVec.toNat_add, BitVec.toNat_setWidth, BitVec.toNat_ofNat]
  omega

/-! ## The helpers -/

theorem helperAnswer_eq {helper : ClockM U16} {x : Machine b} {t : Clock × Memory b} {ea : U16}
    (hs : (helper x.1.afterFetch).Safe (fun op _ => BusOp.InBounds b op) (busTotal PROGMEM) x.2)
    (he : (helper x.1.afterFetch).eval (busTotal PROGMEM) x.2 = ((ea, t.1), t.2)) :
    helperAnswer PROGMEM helper x = some ea := by
  unfold helperAnswer
  rw [Prog.run_of_safe (bus_eq PROGMEM) hs, he]
  rfl

theorem getIndexedIndirectX_answer (x : Machine b) :
    helperAnswer PROGMEM getIndexedIndirectX x =
      some (effectiveAddress PROGMEM .indirectX x) := by
  have hword := (wordsRead_inBounds PROGMEM .indirectX x).mpr (fun h => by cases h)
  refine helperAnswer_eq PROGMEM (t := (_, x.2)) ⟨trivial, hword _ ?_, trivial⟩ rfl
  exact List.mem_singleton.mpr rfl

theorem getIndexedIndirectY_answer (x : Machine b) :
    helperAnswer PROGMEM getIndexedIndirectY x =
      some (effectiveAddress PROGMEM .indirectY x) := by
  have hword := (wordsRead_inBounds PROGMEM .indirectY x).mpr (fun h => by cases h)
  refine helperAnswer_eq PROGMEM (t := (_, x.2)) ⟨trivial, hword _ ?_, trivial⟩ rfl
  exact List.mem_singleton.mpr rfl

/-! ## The two addresses -/

/-- The instruction works on a byte at an address. -/
def Mode.HasAddress (m : Mode) : Prop := m ∉ [.implied, .accumulator, .relative, .indirect]

instance (m : Mode) : Decidable m.HasAddress := inferInstanceAs (Decidable (_ ∉ _))

theorem documentedAddress_eq {m : Mode} {x : Machine b} (hm : m.HasAddress)
    (hw : m.HasOperandWord → WordInBounds b (operandAt x)) :
    documentedAddress PROGMEM m x = some (effectiveAddress PROGMEM m x) := by
  have hbyte : busReadByte PROGMEM x.2 (x.1.cpu.PC + 1) = some (operandByte PROGMEM x) :=
    busReadByte_eq PROGMEM x.2 (operandAt x)
  have hword : m.HasOperandWord →
      busReadWord PROGMEM x.2 (x.1.cpu.PC + 1) = some (operandWord PROGMEM x) :=
    fun h => (busReadWord_eq PROGMEM x.2 (operandAt x)).trans (if_pos (hw h))
  cases m with
  | implied | accumulator | relative | indirect => exact absurd hm (by decide)
  | immediate => rfl
  | zeroPage => simp only [documentedAddress, hbyte, effectiveAddress, Option.map_some]
  | zeroPageX | zeroPageY =>
    simp only [documentedAddress, hbyte, effectiveAddress, Option.map_some, zp_index]
  | absolute => exact hword rfl
  | absoluteX | absoluteY =>
    simp only [documentedAddress, hword rfl, effectiveAddress, Option.map_some, absolute_index]
  | indirectX => exact getIndexedIndirectX_answer PROGMEM x
  | indirectY => exact getIndexedIndirectY_answer PROGMEM x

/-! ## The operand -/

/-- The byte an instruction of each mode is documented to work on. -/
def documentedOperand (m : Mode) (x : Machine b) : Option U8 :=
  (documentedAddress PROGMEM m x).bind fun ea => busReadByte PROGMEM x.2 ea

/-- A documented address is the one the code computes. -/
theorem effectiveAddress_of_documented {m : Mode} {x : Machine b} {ea : U16}
    (h : documentedAddress PROGMEM m x = some ea) : effectiveAddress PROGMEM m x = ea := by
  have hm : m.HasAddress := by
    cases m <;> first | decide | cases h
  by_cases hw : m.HasOperandWord → WordInBounds b (operandAt x)
  · rw [documentedAddress_eq PROGMEM hm hw] at h
    exact Option.some.inj h
  · -- without its operand word the instruction has no documented address
    obtain ⟨hlength, hout⟩ := Classical.not_imp.mp hw
    have hnone : busReadWord PROGMEM x.2 (x.1.cpu.PC + 1) = none := by
      rw [busReadWord_eq]
      exact if_neg hout
    cases m with
    | absolute =>
      rw [documentedAddress, hnone] at h
      cases h
    | absoluteX | absoluteY =>
      rw [documentedAddress, hnone] at h
      cases h
    | indirect => exact absurd hm (by decide)
    | _ => cases hlength

theorem peek_of_documented {m : Mode} {x : Machine b} {M : U8}
    (h : documentedOperand PROGMEM m x = some M) :
    peek PROGMEM x.2 (effectiveAddress PROGMEM m x) = M := by
  obtain ⟨ea, hea, hM⟩ := Option.bind_eq_some_iff.mp h
  rw [busReadByte_eq] at hM
  rw [effectiveAddress_of_documented PROGMEM hea]
  exact Option.some.inj hM

theorem documentedOperand_eq {m : Mode} {x : Machine b} (hm : m.HasAddress)
    (hw : m.HasOperandWord → WordInBounds b (operandAt x)) :
    documentedOperand PROGMEM m x = some (peek PROGMEM x.2 (effectiveAddress PROGMEM m x)) := by
  unfold documentedOperand
  rw [documentedAddress_eq PROGMEM hm hw, Option.bind_some, busReadByte_eq]

end M6502
