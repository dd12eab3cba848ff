import M6502.Proof.Cpu.Adder
import M6502.Proof.Cpu.Compare

/-!
# Subtraction

`SBC` is documented to take the operand and a borrow, the complement of the carry, from `A`,
which is `ADC` of the complemented operand (`added_complement`). The code adds the negated
operand instead, and the carry on top of it: `A` is one too large after every `SBC`, and the
carry out, read off a 16-bit sum, is all but inverted (`Olc6502.added_seven`).

The monitor compares addresses with `CMP` on the low and `SBC` on the high bytes; where the
carry this leaves is still the right one is the second half of `subtraction_iff`.
-/

set_option autoImplicit false

namespace M6502

open Lib Cpu

variable {b : Build} (PROGMEM : Progmem)

/-! ## The law -/

def Ins.IsSbc (i : Ins) : Prop :=
  i ∈ [.sbcIm, .sbcZp, .sbcZpx, .sbcAbs, .sbcAbsx, .sbcAbsy, .sbcIndx, .sbcIndy]

instance (i : Ins) : Decidable i.IsSbc := inferInstanceAs (Decidable (_ ∈ _))

/-- `A - M - (1 - C)`, the bytes taken unsigned. -/
def Olc6502.difference (cpu : Olc6502) (M : U8) : Int :=
  cpu.A.toNat - M.toNat - (1 - cpu.PS.C.toNat)

/-- The same, the bytes taken in two's complement. -/
def Olc6502.signedDifference (cpu : Olc6502) (M : U8) : Int :=
  cpu.A.toInt - M.toInt - (1 - cpu.PS.C.toNat)

/-- `cpu'` is `cpu` after `M` and the borrow have been taken from `A`. -/
structure Subtracted (cpu : Olc6502) (M : U8) (cpu' : Olc6502) : Prop where
  A : (cpu'.A.toNat : Int) = cpu.difference M % 256
  C : cpu'.PS.C = true ↔ 0 ≤ cpu.difference M
  V : cpu'.PS.V = true ↔ ¬ (-128 ≤ cpu.signedDifference M ∧ cpu.signedDifference M < 128)
  Z : cpu'.PS.Z = (cpu'.A == 0)
  N : cpu'.PS.N = cpu'.A.getLsbD 7

/-- The law is that of `ADC` on the complement. -/
theorem added_complement (cpu : Olc6502) (M : U8) : Subtracted cpu M (cpu.added 3 (~~~M)) := by
  obtain ⟨hA, hC, hV, hZ, hN⟩ := cpu.added_spec (~~~M)
  have hAlt := cpu.A.isLt
  have hMlt := M.isLt
  have hCle := cpu.PS.C.toNat_le
  have hnat : (~~~M).toNat = 255 - M.toNat := BitVec.toNat_not
  have hint : (~~~M).toInt = -1 - M.toInt := by
    rw [toInt_byte, toInt_byte, hnat]
    split <;> split <;> omega
  rw [hnat] at hA hC
  rw [hint] at hV
  refine ⟨?_, ?_, ?_, hZ, hN⟩
  · unfold Olc6502.difference
    omega
  · unfold Olc6502.difference
    cases hc : (cpu.added 3 (~~~M)).PS.C with
    | true =>
      rw [hc, Bool.toNat_true] at hC
      simp only [true_iff]
      omega
    | false =>
      rw [hc, Bool.toNat_false] at hC
      simp only [Bool.false_eq_true, false_iff]
      omega
  · rw [hV]
    unfold Olc6502.signedDifference
    omega

/-! ## What the code computes -/

/-- The sum in 16 bits, with the operand negated. -/
theorem toNat_difference (A M : U8) (C : Bool) :
    (A.setWidth 16 + (~~~(M.setWidth 16) + 1) + (if C then 1 else 0) : U16).toNat =
      (A.toNat + (65536 - M.toNat) + C.toNat) % 65536 := by
  have hA := A.isLt
  have hM := M.isLt
  cases C <;> simp only [Bool.toNat_true, Bool.toNat_false, if_true, Bool.false_eq_true, if_false]
    <;> bv_omega

/-- **What `SBC` computes**: `A - M + C`, and for the carry whether that is negative, but for
    the one sum that does not fit a byte. -/
theorem Olc6502.added_seven (cpu : Olc6502) (M : U8) :
    (cpu.added 7 M).A.toNat = (cpu.A.toNat + 256 - M.toNat + cpu.PS.C.toNat) % 256 ∧
    ((cpu.added 7 M).PS.C = true ↔ cpu.A.toNat + cpu.PS.C.toNat < M.toNat ∨
      (cpu.A.toNat + cpu.PS.C.toNat = 256 ∧ M.toNat = 0)) := by
  have hsum := toNat_difference cpu.A M cpu.PS.C
  have hA := cpu.A.isLt
  have hM := M.isLt
  have hC := cpu.PS.C.toNat_le
  simp only [Olc6502.added, if_true]
  constructor
  · rw [BitVec.toNat_setWidth, hsum]
    omega
  · rw [decide_eq_true_iff, gt_iff_lt, BitVec.lt_def, hsum]
    show 255 < _ ↔ _
    omega

theorem stepOf_sbc {i : Ins} {x : Machine b} (h : At PROGMEM i x) (hi : i.IsSbc) :
    (stepOf PROGMEM x).1.cpu = (x.1.cpu.past i.mode.length).added 7
      (peek PROGMEM x.2 (effectiveAddress PROGMEM i.mode x)) := by
  have hgroup : i.group = .adc ∧ fieldAaa i.opcode = 7 := by
    cases i <;> first | exact absurd hi (by decide) | exact ⟨rfl, rfl⟩
  rw [stepOf_adc PROGMEM h hgroup.1, Olc6502.advanced_eq, hgroup.2]

/-- The byte is the documented one plus one. -/
theorem added_seven_not_subtracted {cpu cpu₀ : Olc6502} (M : U8) (hA : cpu.A = cpu₀.A)
    (hC : cpu.PS.C = cpu₀.PS.C) : ¬ Subtracted cpu₀ M (cpu.added 7 M) := by
  intro h
  have hdiff := h.A
  rw [(cpu.added_seven M).1, hA, hC] at hdiff
  have hMlt := M.isLt
  unfold Olc6502.difference at hdiff
  omega

/-! ## The comparison of two addresses -/

/-- `LDA l₁`, `CMP l₂`, `LDA h₁`, `SBC h₂` in page zero, as the monitor compares the address it
    examines with the last one. -/
structure CompareChain (x : Nat → Machine b) (l₁ h₁ l₂ h₂ : U8) : Prop where
  lda : At PROGMEM .ldaZp (x 0)
  cmp : At PROGMEM .cmpZp (x 1)
  ldaHigh : At PROGMEM .ldaZp (x 2)
  sbc : At PROGMEM .sbcZp (x 3)
  next : ∀ k < 4, Next PROGMEM (x k) (x (k + 1))
  low₁ : documentedOperand PROGMEM .zeroPage (x 0) = some l₁
  low₂ : documentedOperand PROGMEM .zeroPage (x 1) = some l₂
  high₁ : documentedOperand PROGMEM .zeroPage (x 2) = some h₁
  high₂ : documentedOperand PROGMEM .zeroPage (x 3) = some h₂

/-- The carry of the low bytes goes into the subtraction of the high ones. -/
theorem CompareChain.cpu {x : Nat → Machine b} {l₁ h₁ l₂ h₂ : U8}
    (h : CompareChain PROGMEM x l₁ h₁ l₂ h₂) :
    ∃ cpu : Olc6502, (x 4).1.cpu = cpu.added 7 h₂ ∧ cpu.A = h₁ ∧
      cpu.PS.C = decide (l₂.toNat ≤ l₁.toNat) := by
  obtain ⟨hcpu₁, -⟩ := (h.next 0 (by simp)).stepOf PROGMEM
  obtain ⟨hcpu₂, -⟩ := (h.next 1 (by simp)).stepOf PROGMEM
  obtain ⟨hcpu₃, -⟩ := (h.next 2 (by simp)).stepOf PROGMEM
  obtain ⟨hcpu₄, -⟩ := (h.next 3 (by simp)).stepOf PROGMEM
  -- `LDA` and `CMP`
  have hA₁ : (x 1).1.cpu.A = l₁ := by
    rw [hcpu₁, stepOf_effect PROGMEM h.lda rfl]
    exact peek_of_documented PROGMEM h.low₁
  have hC₂ : (x 2).1.cpu.PS.C = decide (l₂.toNat ≤ l₁.toNat) := by
    rw [hcpu₂, (stepOf_cmp PROGMEM h.cmp rfl).1]
    show decide ((peek PROGMEM (x 1).2 (effectiveAddress PROGMEM .zeroPage (x 1))).toNat ≤
      (x 1).1.cpu.A.toNat) = _
    rw [hA₁, peek_of_documented PROGMEM h.low₂]
  -- `LDA` again, which leaves the carry alone
  have hA₃ : (x 3).1.cpu.A = h₁ := by
    rw [hcpu₃, stepOf_effect PROGMEM h.ldaHigh rfl]
    exact peek_of_documented PROGMEM h.high₁
  have hC₃ : (x 3).1.cpu.PS.C = decide (l₂.toNat ≤ l₁.toNat) := by
    rw [hcpu₃, stepOf_effect PROGMEM h.ldaHigh rfl]
    exact hC₂
  refine ⟨(x 3).1.cpu.past 2, ?_, hA₃, hC₃⟩
  rw [hcpu₄, stepOf_sbc PROGMEM h.sbc (by simp [Ins.IsSbc])]
  exact congrArg _ (peek_of_documented PROGMEM h.high₂)

/-- **`SBC` never subtracts.** **So the monitor's comparison is right exactly if** the high byte
    of the first address, plus the carry of the low ones, is the high byte of the second. -/
theorem subtraction_iff (b : Build) (PROGMEM : Progmem) :
    (∀ (i : Ins) (M : U8) (x y : Machine b), i.IsSbc → At PROGMEM i x →
      documentedOperand PROGMEM i.mode x = some M → instructionOn PROGMEM x = some y →
      ¬ Subtracted x.1.cpu M y.1.cpu) ∧
    (∀ (x : Nat → Machine b) (l₁ h₁ l₂ h₂ : U8), CompareChain PROGMEM x l₁ h₁ l₂ h₂ →
      (((x 4).1.cpu.PS.C = true ↔
          l₂.toNat + 256 * h₂.toNat ≤ l₁.toNat + 256 * h₁.toNat) ↔
        (h₁.toNat + if l₂.toNat ≤ l₁.toNat then 1 else 0) % 256 = h₂.toNat)) := by
  constructor
  · intro i M x y hi h hM hy
    obtain ⟨-, rfl⟩ := (instructionOn_at PROGMEM h).mp hy
    rw [stepOf_sbc PROGMEM h hi, peek_of_documented PROGMEM hM]
    exact added_seven_not_subtracted _ rfl rfl
  · intro x l₁ h₁ l₂ h₂ h
    obtain ⟨cpu, hcpu, hA, hC⟩ := h.cpu PROGMEM
    have hl₁ := l₁.isLt
    have hh₁ := h₁.isLt
    have hl₂ := l₂.isLt
    have hh₂ := h₂.isLt
    rw [hcpu, (cpu.added_seven h₂).2, hA, hC]
    by_cases hle : l₂.toNat ≤ l₁.toNat
    · rw [decide_eq_true hle, Bool.toNat_true, if_pos hle]
      omega
    · rw [decide_eq_false hle, Bool.toNat_false, if_neg hle]
      omega

/-- A program image of `SBC #$03`. -/
def sbcProgmem : Progmem := fun i => if i.val = 0 then 0xE9 else 0x03

/-- With 5 in `A` and no borrow to take. -/
def sbcState : Machine ⟨false⟩ :=
  callStart { olc6502Init with PC := 0x8000, A := 0x05, PS := .ofValue 0x01 } false
    ⟨fun _ => 0x00⟩ 2

/-- A program image of `LDA $24`, `CMP $28`, `LDA $25`, `SBC $29`. -/
def chainProgmem : Progmem := fun i =>
  match i.val with
  | 0 | 4 => 0xA5
  | 1 => 0x24
  | 2 => 0xC5
  | 3 => 0x28
  | 5 => 0x25
  | 6 => 0xE5
  | 7 => 0x29
  | _ => 0x00

/-- With `0x2010` at `0x24` and `0x2008` at `0x28`, `k` instructions in. -/
def chainAt : Nat → Machine ⟨false⟩
  | 0 => callStart { olc6502Init with PC := 0x8000 } false
    ⟨fun i => match i.val with | 0x24 => 0x10 | 0x28 => 0x08 | _ => 0x20⟩ 20
  | k + 1 => stepOf chainProgmem (chainAt k)

theorem chainAt_compareChain : CompareChain chainProgmem chainAt 0x10 0x20 0x08 0x20 := by
  have hsafe : ∀ k < 4, StepSafe chainProgmem (chainAt k) := by decide
  refine ⟨?_, ?_, ?_, ?_, fun k hk => .of_safe _ (hsafe k hk), ?_, ?_, ?_, ?_⟩ <;> decide

/-- One `SBC`, and one comparison, in which `0x2010` is found to be the smaller. -/
theorem subtraction_iff_chain :
    ¬ Subtracted sbcState.1.cpu 0x03 (stepOf sbcProgmem sbcState).1.cpu ∧
    (((chainAt 4).1.cpu.PS.C = true ↔ 0x08 + 256 * 0x20 ≤ 0x10 + 256 * 0x20) ↔
      (0x20 + if 0x08 ≤ 0x10 then 1 else 0) % 256 = 0x20) :=
  ⟨(subtraction_iff ⟨false⟩ sbcProgmem).1 .sbcIm 0x03 sbcState _ (by decide) (by decide) (by decide)
      ((instructionOn_eq_some_iff _).mpr ⟨by decide, rfl⟩),
    (subtraction_iff ⟨false⟩ chainProgmem).2 chainAt _ _ _ _ chainAt_compareChain⟩

/-- `5 - 3` is 3 there. -/
theorem not_subtraction :
    ¬ ((∀ (b : Build) (PROGMEM : Progmem) (i : Ins) (M : U8) (x y : Machine b),
        i.IsSbc → x.1.cpu.PS.D = false → At PROGMEM i x →
        documentedOperand PROGMEM i.mode x = some M → instructionOn PROGMEM x = some y →
        Subtracted x.1.cpu M y.1.cpu) ∧
      ∀ (b : Build) (PROGMEM : Progmem) (x : Nat → Machine b) (l₁ h₁ l₂ h₂ : U8),
        CompareChain PROGMEM x l₁ h₁ l₂ h₂ →
        ((x 4).1.cpu.PS.C = true ↔
          l₂.toNat + 256 * h₂.toNat ≤ l₁.toNat + 256 * h₁.toNat)) := by
  rintro ⟨h, -⟩
  have hstep := h ⟨false⟩ sbcProgmem .sbcIm 0x03 sbcState _ (by decide) rfl (by decide) (by decide)
    ((instructionOn_eq_some_iff _).mpr ⟨by decide, rfl⟩)
  exact absurd hstep.A (by decide)

end M6502
