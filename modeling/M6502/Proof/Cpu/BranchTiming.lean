import M6502.Proof.Cpu.NextPc
import M6502.Proof.Cpu.Timing

/-!
# The cycles of a branch

A branch that is taken costs one cycle more, and two more if its target is on another page
than the instruction after it. The code compares the target with `old_PC - 1`, the address of
the branch's own operand. That is on the page of the next instruction unless the next
instruction is the first of its page, and then the answer is always the wrong one
(`crossed_iff`).
-/

set_option autoImplicit false

namespace M6502

open Lib Cpu

variable {b : Build} (PROGMEM : Progmem)

/-- The documented cycles of the branch `i` at `PC`. -/
def documentedBranchCycles (i : Ins) (x : Machine b) : Option Nat := do
  let p := x.1.cpu.PC
  let offset ← busReadByte PROGMEM x.2 (p + 1)
  let next := p + 2
  let target := next + offset.signExtend 16
  return if i.branchTaken x.1.cpu.PS then
    if target.toNat / 256 = next.toNat / 256 then 3 else 4
  else 2

theorem toNat_signExtend (v : U8) :
    (v.signExtend 16 : U16).toNat = if v.toNat < 128 then v.toNat else v.toNat + 65280 := by
  have hv := v.isLt
  rw [BitVec.toNat_signExtend, BitVec.toNat_setWidth, Nat.mod_eq_of_lt (by omega),
    BitVec.msb_eq_decide]
  by_cases h : v.toNat < 128
  · simp [h]
  · simp [h, Nat.not_lt.mp h]

theorem documentedBranchCycles_eq (i : Ins) (x : Machine b) :
    let target := x.1.cpu.PC + 2 + (operandByte PROGMEM x).signExtend 16
    documentedBranchCycles PROGMEM i x =
      some (if i.branchTaken x.1.cpu.PS then
        if target.toNat / 256 = (x.1.cpu.PC + 2).toNat / 256 then 3 else 4
      else 2) := by
  have hread : busReadByte PROGMEM x.2 (x.1.cpu.PC + 1) = some (operandByte PROGMEM x) :=
    busReadByte_eq PROGMEM x.2 _
  unfold documentedBranchCycles
  dsimp only
  rw [hread]
  rfl

/-- The test the code makes on the address of the operand, `p + 1`, answers for `p + 2` exactly
    if the two are on one page. -/
theorem crossed_iff (p : U16) (offset : U8) :
    ((p + 1 + 1 - 1) &&& 0xFF00 = (p + 1 + 1 + offset.signExtend 16) &&& 0xFF00 ↔
        (p + 2 + offset.signExtend 16).toNat / 256 = (p + 2).toNat / 256) ↔
      p.toNat % 256 ≠ 254 := by
  have hp := p.isLt
  have ho := offset.isLt
  have hnext : (p + 2).toNat = (p.toNat + 2) % 65536 := by bv_omega
  have hprev : (p + 1 + 1 - 1 : U16).toNat = (p.toNat + 1) % 65536 := by bv_omega
  have htwo : p + 1 + 1 = p + 2 := BitVec.add_assoc _ 1 1
  have htarget : (p + 2 + offset.signExtend 16).toNat =
      (p.toNat + 2 + (offset.signExtend 16 : U16).toNat) % 65536 := by bv_omega
  have hoffset := toNat_signExtend offset
  rw [page_eq_iff, hprev, htwo, htarget, hnext]
  generalize (offset.signExtend 16 : U16).toNat = d at hoffset ⊢
  by_cases hedge : p.toNat % 256 = 254
  · -- `p + 2` is the first of a page, and the target is on that page or on the one of `p + 1`
    refine iff_of_false (fun h => ?_) (not_not_intro hedge)
    have hprevPage : (p.toNat + 1) % 65536 / 256 = p.toNat / 256 := by omega
    have hnextPage : (p.toNat + 2) % 65536 / 256 ≠ p.toNat / 256 := by omega
    by_cases hforward : offset.toNat < 128
    · rw [if_pos hforward] at hoffset
      have hpage : (p.toNat + 2 + d) % 65536 / 256 = (p.toNat + 2) % 65536 / 256 := by omega
      rw [hprevPage, hpage] at h
      exact hnextPage (h.mpr rfl).symm
    · rw [if_neg hforward] at hoffset
      have hpage : (p.toNat + 2 + d) % 65536 / 256 = p.toNat / 256 := by omega
      rw [hprevPage, hpage] at h
      exact hnextPage (h.mp rfl).symm
  · -- the two are on one page
    have hsame : (p.toNat + 1) % 65536 / 256 = (p.toNat + 2) % 65536 / 256 := by omega
    rw [hsame]
    exact iff_of_true eq_comm hedge

theorem branchTaken_afterFetch (i : Ins) (x : Machine b) :
    i.branchTaken x.1.afterFetch.cpu.PS = i.branchTaken x.1.cpu.PS := by
  cases i <;> rfl

/-- What a branch costs. -/
theorem cost_branch {i : Ins} {x : Machine b} (h : At PROGMEM i x) (hb : i.group = .branch) :
    let p := x.1.cpu.PC
    let target := p + 1 + 1 + (operandByte PROGMEM x).signExtend 16
    cost x (stepOf PROGMEM x) =
      if i.branchTaken x.1.cpu.PS then
        if (p + 1 + 1 - 1) &&& 0xFF00 = target &&& 0xFF00 then 3 else 4
      else 2 := by
  have htaken : shouldBranch (fieldAaa i.opcode) x.1.afterFetch.cpu.PS =
      i.branchTaken x.1.cpu.PS := by
    rw [← branchTaken_afterFetch]
    cases i <;> first | rfl | cases hb
  intro p target
  unfold cost
  rw [stepOf_branch PROGMEM h hb]
  unfold branchResult
  rw [htaken]
  cases i.branchTaken x.1.cpu.PS with
  | false =>
    show x.1.cycles.val - (x.1.cycles.val - 1 - 1) = 2
    omega
  | true =>
    have hticks : ∀ u v : U16, (if u != v then 2 else 1 : Nat) = if u = v then 1 else 2 := by
      intro u v
      by_cases h : u = v <;> simp [h]
    show x.1.cycles.val - (x.1.cycles.val - 1 - 1 -
      (if (p + 1 + 1 - 1) &&& 0xFF00 != target &&& 0xFF00 then 2 else 1 : Nat)) = _
    rw [hticks, if_pos rfl]
    split <;> omega

/-- **A branch costs what it is documented to exactly if** it is not taken, or its next
    instruction is not the first of a page. -/
theorem branchTiming_iff (b : Build) (PROGMEM : Progmem) (i : Ins) (x y : Machine b)
    (hb : i.group = .branch) (h : At PROGMEM i x) (hy : instructionOn PROGMEM x = some y) :
    (∃ n : Nat, documentedBranchCycles PROGMEM i x = some n ∧ cost x y = n) ↔
      (i.branchTaken x.1.cpu.PS = true → x.1.cpu.PC.toNat % 256 ≠ 254) := by
  obtain ⟨-, rfl⟩ := (instructionOn_at PROGMEM h).mp hy
  have hcrossed := crossed_iff x.1.cpu.PC (operandByte PROGMEM x)
  rw [cost_branch PROGMEM h hb, documentedBranchCycles_eq]
  simp only [Option.some_inj, exists_eq_left']
  cases i.branchTaken x.1.cpu.PS with
  | false => simp
  | true =>
    rw [← hcrossed]
    simp only [if_true, forall_const]
    split <;> split <;> simp_all

/-- A program image of `NOP`, with a `BEQ` over the end of the first page and another one across
    it. -/
def branchProgmem : Progmem := fun i =>
  match i.val with
  | 0xF0 => 0xF0
  | 0xF1 => 0x20
  | 0xFE => 0xF0
  | 0xFF => 0x02
  | _ => 0xEA

/-- At a branch, which is taken. -/
def branchState (PC : U16) : Machine ⟨false⟩ :=
  (clockStart { olc6502Init with PC, PS.Z := true } false 4, ⟨fun _ => 0x00⟩)

/-- The first goes to the next page, for four cycles. -/
theorem branchTiming_iff_crossing :
    documentedBranchCycles branchProgmem .beq (branchState 0x80F0) = some 4 ∧
    ∃ n : Nat, documentedBranchCycles branchProgmem .beq (branchState 0x80F0) = some n ∧
      cost (branchState 0x80F0) (stepOf branchProgmem (branchState 0x80F0)) = n :=
  ⟨by decide, (branchTiming_iff ⟨false⟩ branchProgmem .beq (branchState 0x80F0) _ rfl (by decide)
    ((instructionOn_eq_some_iff _).mpr ⟨by decide, rfl⟩)).mpr fun _ => by decide⟩

/-- The second stays on the page of `0x8100` and yet costs four cycles. -/
theorem not_branchTiming :
    ¬ ∀ (b : Build) (PROGMEM : Progmem) (i : Ins) (x y : Machine b), i.group = .branch →
      At PROGMEM i x → instructionOn PROGMEM x = some y →
      ∃ n : Nat, documentedBranchCycles PROGMEM i x = some n ∧ cost x y = n := by
  intro h
  obtain ⟨n, hn, hcost⟩ := h ⟨false⟩ branchProgmem .beq (branchState 0x80FE) _ rfl (by decide)
    ((instructionOn_eq_some_iff _).mpr ⟨by decide, rfl⟩)
  have hthree : documentedBranchCycles branchProgmem .beq (branchState 0x80FE) = some 3 := by
    decide
  obtain rfl := Option.some.inj (hn.symm.trans hthree)
  exact absurd hcost (by decide)

end M6502
