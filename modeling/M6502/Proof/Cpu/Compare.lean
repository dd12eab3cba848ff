import M6502.Proof.Cpu.Family
import M6502.Proof.Cpu.Run

/-!
# Comparisons

`CMP`, `CPX` and `CPY` share one group, which picks the register by `cc` and `aaa` and the
operand by `bbb`. In `CPX #` and `CPY #` `bbb` is 0, as in `CMP (zp,X)`: the group compares
with the byte the `(zp,X)` pointer leads to, not with the one after the opcode. Everything else
about a comparison is as documented (`stepOf_cmp`), so it comes out right exactly if the two
bytes compare alike (`compare_iff`).
-/

set_option autoImplicit false

namespace M6502

open Lib Cpu

variable {b : Build} (PROGMEM : Progmem)

/-- The register a comparison names. -/
def Ins.comparand? : Ins → Option Reg
  | .cmpIm | .cmpZp | .cmpZpx | .cmpAbs | .cmpAbsx | .cmpAbsy | .cmpIndx | .cmpIndy => some .A
  | .cpxIm | .cpxZp | .cpxAbs => some .X
  | .cpyIm | .cpyZp | .cpyAbs => some .Y
  | _ => none

/-- A register compared with `M`. -/
def Olc6502.compared (cpu : Olc6502) (r : Reg) (M : U8) : Olc6502 :=
  let R := cpu.reg r
  { cpu with
    PS := { cpu.PS with
      C := decide (M.toNat ≤ R.toNat)
      Z := decide (R = M)
      N := (R - M).getLsbD 7 } }

/-- From `x` to `y` the register is compared with `M`, and nothing else happens. -/
structure Compares (i : Ins) (r : Reg) (M : U8) (x y : Machine b) : Prop where
  cpu : y.1.cpu = (x.1.cpu.past i.mode.length).compared r M
  writes : stepWrites PROGMEM x = []
  mem : y.2 = x.2

/-- `R` compares with `M` as with `M'`. -/
structure CompareAlike (R M M' : U8) : Prop where
  C : M.toNat ≤ R.toNat ↔ M'.toNat ≤ R.toNat
  Z : R = M ↔ R = M'
  N : (R - M).getLsbD 7 = (R - M').getLsbD 7

/-- The instruction takes its operand where it is documented to, or, if it is `CPX #` or
    `CPY #`, the byte it takes instead compares alike. -/
def CompareMeets (i : Ins) (r : Reg) (x : Machine b) : Prop :=
  i = .cpxIm ∨ i = .cpyIm → ∀ M M', documentedOperand PROGMEM .immediate x = some M →
    documentedOperand PROGMEM .indirectX x = some M' → CompareAlike (x.1.cpu.reg r) M M'

/-! ## What the code computes -/

/-- The subtraction in 16 bits, cut off, has the sign and the zero of the one in eight. -/
theorem setWidth_sub (R M : U8) :
    ((R.setWidth 16 - M.setWidth 16 : U16).setWidth 8 : U8) = R - M := by
  have hR := R.isLt
  have hM := M.isLt
  bv_omega

theorem sub_eq_zero_beq (R M : U8) : (R - M == 0) = decide (R = M) := by
  rw [Bool.eq_iff_iff, beq_iff_eq, decide_eq_true_iff]
  constructor
  · intro h
    bv_omega
  · rintro rfl
    exact BitVec.sub_self R

/-- The CPU after the group, with the flags as the code makes them. -/
def Olc6502.codeCompared (cpu : Olc6502) (r : Reg) (M : U8) : Olc6502 :=
  let value : U16 := (cpu.reg r).setWidth 16 - M.setWidth 16
  { cpu with
    PS := { cpu.PS with
      C := decide (cpu.reg r ≥ M)
      Z := (value.setWidth 8 : U8) == 0
      N := (value.setWidth 8 : U8) &&& 0x80 != 0 } }

theorem Olc6502.codeCompared_eq (cpu : Olc6502) (r : Reg) (M : U8) :
    cpu.codeCompared r M = cpu.compared r M := by
  unfold Olc6502.codeCompared Olc6502.compared
  simp only [setWidth_sub, sub_eq_zero_beq, and_0x80_ne_zero]
  rfl

/-- **A comparison compares** its register with the byte of the mode the code decodes. -/
theorem stepOf_cmp {i : Ins} {r : Reg} {x : Machine b} (h : At PROGMEM i x)
    (hr : i.comparand? = some r) :
    (stepOf PROGMEM x).1.cpu = (x.1.cpu.past i.mode.length).compared r
        (peek PROGMEM x.2 (effectiveAddress PROGMEM i.decodedMode x)) ∧
      stepWrites PROGMEM x = [] ∧ (stepOf PROGMEM x).2 = x.2 := by
  have hwrites : i.writes PROGMEM x = [] := by
    cases i <;> cases hr <;> rfl
  refine ⟨?_, stepOf_quiet PROGMEM h hwrites⟩
  rw [← Olc6502.codeCompared_eq, ← Olc6502.advanced_eq, stepOf_arms PROGMEM h]
  cases i <;> cases hr <;> rfl

/-! ## The law -/

theorem compared_eq_iff (cpu : Olc6502) (r : Reg) (M M' : U8) :
    cpu.compared r M' = cpu.compared r M ↔ CompareAlike (cpu.reg r) M M' := by
  unfold Olc6502.compared
  constructor
  · intro h
    obtain ⟨hC, hZ, hN⟩ : _ ∧ _ ∧ _ := by simpa using h
    exact ⟨hC.symm, hZ.symm, hN.symm⟩
  · rintro ⟨hC, hZ, hN⟩
    simp only [hC, hZ, hN]

/-- **A comparison is as documented exactly if** the byte it takes compares like its
    operand. -/
theorem compare_iff (b : Build) (PROGMEM : Progmem) (i : Ins) (r : Reg) (M : U8)
    (x y : Machine b) (hr : i.comparand? = some r) (h : At PROGMEM i x)
    (hM : documentedOperand PROGMEM i.mode x = some M) (hy : instructionOn PROGMEM x = some y) :
    Compares PROGMEM i r M x y ↔ CompareMeets PROGMEM i r x := by
  obtain ⟨-, rfl⟩ := (instructionOn_at PROGMEM h).mp hy
  obtain ⟨hcpu, hwrites, hmem⟩ := stepOf_cmp PROGMEM h hr
  obtain rfl := peek_of_documented PROGMEM hM
  have hreg : (x.1.cpu.past i.mode.length).reg r = x.1.cpu.reg r := by
    cases r <;> rfl
  have hiff : Compares PROGMEM i r (peek PROGMEM x.2 (effectiveAddress PROGMEM i.mode x)) x
      (stepOf PROGMEM x) ↔ CompareAlike (x.1.cpu.reg r)
        (peek PROGMEM x.2 (effectiveAddress PROGMEM i.mode x))
        (peek PROGMEM x.2 (effectiveAddress PROGMEM i.decodedMode x)) := by
    rw [← hreg, ← compared_eq_iff, ← hcpu]
    exact ⟨fun hc => hc.cpu, fun hc => ⟨hc, hwrites, hmem⟩⟩
  rw [hiff]
  unfold CompareMeets
  rcases i.decodedMode_cases with ⟨hmode, hdecoded, hi⟩ | ⟨hdecoded, hi⟩
  · rw [hmode, hdecoded, documentedOperand_eq PROGMEM (by decide) (fun hl => by cases hl),
      documentedOperand_eq PROGMEM (by decide) (fun hl => by cases hl)]
    constructor
    · rintro halike - M M' hM hM'
      obtain rfl := Option.some.inj hM
      obtain rfl := Option.some.inj hM'
      exact halike
    · intro hmeets
      exact hmeets hi _ _ rfl rfl
  · rw [hdecoded]
    exact iff_of_true ⟨Iff.rfl, Iff.rfl, rfl⟩ fun himm => absurd himm hi

/-- A program image of `CMP #$80` and `CPX #$05`. -/
def compareProgmem : Progmem := fun i =>
  match i.val with
  | 0 => 0xC9
  | 1 => 0x80
  | 2 => 0xE0
  | 3 => 0x05
  | _ => 0x00

/-- About to compare `A` with `0x80`, and then `X`, which is 5. -/
def compareState : Machine ⟨false⟩ :=
  callStart { olc6502Init with PC := 0x8000, A := 0x7F, X := 0x05 } false ⟨fun _ => 0x00⟩ 20

theorem compare_iff_cmp :
    Compares compareProgmem .cmpIm .A 0x80 compareState (stepOf compareProgmem compareState) ↔
      CompareMeets compareProgmem .cmpIm .A compareState :=
  compare_iff ⟨false⟩ compareProgmem .cmpIm .A 0x80 compareState _ rfl (by decide) (by decide)
    ((instructionOn_eq_some_iff _).mpr ⟨by decide, rfl⟩)

/-- `CPX #$05` with 5 in `X` is answered by the byte at the address the pointer at `0x0A` holds. -/
theorem not_compare :
    ¬ ∀ (b : Build) (PROGMEM : Progmem) (i : Ins) (r : Reg) (M : U8) (x y : Machine b),
      i.comparand? = some r → At PROGMEM i x → documentedOperand PROGMEM i.mode x = some M →
      instructionOn PROGMEM x = some y → Compares PROGMEM i r M x y := by
  intro h
  have hstep := h ⟨false⟩ compareProgmem .cpxIm .X 0x05 (stepOf compareProgmem compareState) _ rfl
    (by decide) (by decide) ((instructionOn_eq_some_iff _).mpr ⟨by decide, rfl⟩)
  exact absurd (congrArg (fun cpu => cpu.PS.Z) hstep.cpu) (by decide)

end M6502
