import M6502.Proof.Cpu.Family

/-!
# The adder

`ADC` and `SBC` share one group: the operand, negated for `SBC`, is added to `A` with the
carry in 16 bits, and the flags are read off the sum. `Olc6502.added` is that computation and
`stepOf_adc` says it is what every opcode of the group does, at its own effective address.
For `ADC`, `Olc6502.added_spec` is the arithmetic of it.
-/

set_option autoImplicit false

namespace M6502

open Lib Cpu

variable {b : Build} (PROGMEM : Progmem)

/-- `A` and the flags after the ADC/SBC group has added `M`. -/
def Olc6502.added (cpu : Olc6502) (aaa M : U8) : Olc6502 :=
  let value : U16 := if aaa = 7 then ~~~(M.setWidth 16) + 1 else M.setWidth 16
  let sum : U16 := cpu.A.setWidth 16 + value + (if cpu.PS.C then 1 else 0)
  { cpu with
    A := sum.setWidth 8
    PS := { cpu.PS with
      V := (sum ^^^ cpu.A.setWidth 16) &&& (sum ^^^ value) &&& 0x0080 != 0
      C := decide (sum > 0xFF)
      Z := (sum.setWidth 8 : U8) == 0
      N := (sum.setWidth 8 : U8) &&& 0x80 != 0 } }

theorem stepOf_adc {i : Ins} {x : Machine b} (h : At PROGMEM i x) (hg : i.group = .adc) :
    (stepOf PROGMEM x).1.cpu =
      (x.1.cpu.advanced i.mode.length).added (fieldAaa i.opcode)
        (peek PROGMEM x.2 (effectiveAddress PROGMEM i.mode x)) := by
  rw [stepOf_arms PROGMEM h]
  -- the other groups first: for them the two sides are slow to tell apart
  cases i <;> first | exact absurd hg (by decide) | rfl

/-! ## ADC -/

theorem and_0x0080_ne_zero (u : U16) : (u &&& 0x0080 != 0) = u.getLsbD 7 :=
  and_twoPow_ne_zero u 7 (by simp)

theorem getLsbD_seven {w : Nat} (u : BitVec w) : u.getLsbD 7 = decide (u.toNat / 128 % 2 = 1) :=
  Nat.testBit_eq_decide_div_mod_eq

theorem toInt_byte (v : U8) :
    v.toInt = if v.toNat < 128 then (v.toNat : Int) else v.toNat - 256 := by
  rw [BitVec.toInt_eq_toNat_cond]
  split <;> split <;> omega

/-- The sum of two bytes and a carry. -/
theorem toNat_sum (A M : U8) (C : Bool) :
    (A.setWidth 16 + M.setWidth 16 + (if C then 1 else 0) : U16).toNat =
      A.toNat + M.toNat + C.toNat := by
  have hA := A.isLt
  have hM := M.isLt
  cases C <;> simp only [Bool.toNat_true, Bool.toNat_false, if_true, Bool.false_eq_true, if_false]
    <;> bv_omega

/-- The overflow test: the sum has another sign than both of its operands. -/
theorem overflow_iff (A M : U8) (C : Bool) :
    let sum : U16 := A.setWidth 16 + M.setWidth 16 + (if C then 1 else 0)
    ((sum ^^^ A.setWidth 16) &&& (sum ^^^ M.setWidth 16) &&& 0x0080 != 0) = true ↔
      ¬ (-128 ≤ A.toInt + M.toInt + C.toNat ∧ A.toInt + M.toInt + C.toNat < 128) := by
  intro sum
  have hsum : sum.toNat = A.toNat + M.toNat + C.toNat := toNat_sum A M C
  have hA := A.isLt
  have hM := M.isLt
  have hC := C.toNat_le
  have hbit : ∀ v : U8, (v.setWidth 16 : U16).getLsbD 7 = decide (128 ≤ v.toNat) := by
    intro v
    have hv := v.isLt
    rw [getLsbD_seven, BitVec.toNat_setWidth, decide_eq_decide]
    omega
  rw [and_0x0080_ne_zero, BitVec.getLsbD_and, BitVec.getLsbD_xor, BitVec.getLsbD_xor, hbit, hbit,
    getLsbD_seven, hsum, toInt_byte, toInt_byte]
  simp only [Bool.and_eq_true, bne_iff_ne, ne_eq, decide_eq_decide]
  split <;> split <;> omega

/-- **`ADC` adds**: the byte, the carry out, and the overflow of the signed sum. -/
theorem Olc6502.added_spec (cpu : Olc6502) (M : U8) :
    (cpu.added 3 M).A.toNat = (cpu.A.toNat + M.toNat + cpu.PS.C.toNat) % 256 ∧
    (cpu.added 3 M).PS.C.toNat = (cpu.A.toNat + M.toNat + cpu.PS.C.toNat) / 256 ∧
    ((cpu.added 3 M).PS.V = true ↔ ¬ (-128 ≤ cpu.A.toInt + M.toInt + cpu.PS.C.toNat ∧
      cpu.A.toInt + M.toInt + cpu.PS.C.toNat < 128)) ∧
    (cpu.added 3 M).PS.Z = ((cpu.added 3 M).A == 0) ∧
    (cpu.added 3 M).PS.N = (cpu.added 3 M).A.getLsbD 7 := by
  have hsum := toNat_sum cpu.A M cpu.PS.C
  have hA := cpu.A.isLt
  have hM := M.isLt
  have hC := cpu.PS.C.toNat_le
  have haaa : ¬ (3 : U8) = 7 := by decide
  simp only [Olc6502.added, if_neg haaa]
  refine ⟨?_, ?_, overflow_iff cpu.A M cpu.PS.C, trivial, and_0x80_ne_zero _⟩
  · rw [BitVec.toNat_setWidth, hsum]
  · have hgt : decide
        (cpu.A.setWidth 16 + M.setWidth 16 + (if cpu.PS.C then 1 else 0) > (0xFF : U16)) =
        decide (255 < cpu.A.toNat + M.toNat + cpu.PS.C.toNat) := by
      rw [decide_eq_decide, ← hsum]
      exact Iff.rfl
    rw [hgt]
    by_cases hc : 255 < cpu.A.toNat + M.toNat + cpu.PS.C.toNat
    · rw [decide_eq_true hc, Bool.toNat_true]
      omega
    · rw [decide_eq_false hc, Bool.toNat_false]
      omega

end M6502
