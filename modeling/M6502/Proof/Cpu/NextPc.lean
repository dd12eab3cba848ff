import M6502.Proof.Bus.Word
import M6502.Proof.Cpu.Operand

/-!
# Where the next instruction is fetched

`documentedNextPc` is the law of the instruction set: the length of the addressing mode for
every instruction that is not a control transfer, and what the transfers read otherwise.
The code has no such table. It leaves the advance of `PC` to whichever helper fetches an
operand, and `stepOf_pc` says the helpers an opcode runs through add up to its length.
-/

set_option autoImplicit false

namespace M6502

open Lib Cpu

variable {b : Build} (PROGMEM : Progmem)

/-! ## The law -/

/-- The flag a branch mnemonic names, at the value it names. -/
def Ins.branchTaken : Ins → Flags → Bool
  | .bpl, PS => !PS.N
  | .bmi, PS => PS.N
  | .bvc, PS => !PS.V
  | .bvs, PS => PS.V
  | .bcc, PS => !PS.C
  | .bcs, PS => PS.C
  | .bne, PS => !PS.Z
  | .beq, PS => PS.Z
  | _, _ => false

/-- The address after `ptr` within its page. -/
def succInPage (ptr : U16) : U16 := .ofNat 16 (ptr.toNat / 256 * 256 + (ptr.toNat + 1) % 256)

/-- The word on the stack whose low byte is at `SP`. -/
def stackWord (mem : Memory b) (SP : U8) : Option U16 := do
  let low ← busReadByte PROGMEM mem (stackAddress SP)
  let high ← busReadByte PROGMEM mem (stackAddress (SP + 1))
  return word low high

/-- `PC` after the instruction `i` at `PC`. -/
def documentedNextPc (i : Ins) (x : Machine b) : Option U16 :=
  let p := x.1.cpu.PC
  let SP := x.1.cpu.SP
  match i with
  | .bpl | .bmi | .bvc | .bvs | .bcc | .bcs | .bne | .beq => do
    let offset ← busReadByte PROGMEM x.2 (p + 1)
    return if i.branchTaken x.1.cpu.PS then p + 2 + offset.signExtend 16 else p + 2
  | .jmpAbs | .jsr => busReadWord PROGMEM x.2 (p + 1)
  | .jmpInd => do
    let ptr ← busReadWord PROGMEM x.2 (p + 1)
    let low ← busReadByte PROGMEM x.2 ptr
    let high ← busReadByte PROGMEM x.2 (succInPage ptr)
    return word low high
  | .rts => do return (← stackWord PROGMEM x.2 (SP + 1)) + 1
  | .rti => stackWord PROGMEM x.2 (SP + 2)
  | .brk => busReadWord PROGMEM x.2 irqVector
  | _ => some (p + .ofNat 16 i.mode.length)

/-! ## What the code computes -/

/-- The increments of `PC` in the order the code makes them. -/
def advance (pc : U16) (length : Nat) : U16 :=
  match length with
  | 1 => pc + 1
  | 2 => pc + 1 + 1
  | _ => pc + 1 + 2

/-- `PC` as the code leaves it, where the instruction stays inside the arrays. -/
def codePc (i : Ins) (x : Machine b) : U16 :=
  let p := x.1.cpu.PC
  let SP := x.1.cpu.SP
  let pull := fun SP => peek PROGMEM x.2 (stackAddress SP)
  match i with
  | .bpl | .bmi | .bvc | .bvs | .bcc | .bcs | .bne | .beq =>
    if i.branchTaken x.1.cpu.PS then p + 1 + 1 + (operandByte PROGMEM x).signExtend 16
    else p + 1 + 1
  | .jmpAbs | .jsr => operandWord PROGMEM x
  | .jmpInd =>
    let ptr := operandWord PROGMEM x
    word (peek PROGMEM x.2 ptr) (peek PROGMEM x.2 ((ptr &&& 0xFF00) ||| ((ptr + 1) &&& 0x00FF)))
  | .rts => word (pull (SP + 1)) (pull (SP + 1 + 1)) + 1
  | .rti => word (pull (SP + 1 + 1)) (pull (SP + 1 + 1 + 1))
  | .brk => peekWord PROGMEM x.2 irqVector
  | _ => advance p i.mode.length

theorem branchResult_pc {i : Ins} (hb : i.group = .branch) (s : Clock) (offset : U8) :
    (branchResult (fieldAaa i.opcode) s offset).cpu.PC =
      if i.branchTaken s.cpu.PS then s.cpu.PC + 1 + offset.signExtend 16 else s.cpu.PC + 1 := by
  have htaken : shouldBranch (fieldAaa i.opcode) s.cpu.PS = i.branchTaken s.cpu.PS := by
    cases i <;> first | rfl | cases hb
  unfold branchResult
  rw [htaken]
  split <;> rfl

/-- The program image is read without looking at the memory array. -/
theorem peekWord_rom (mem mem' : Memory b) {a : U16} (h : 0x8000 ≤ a.toNat) :
    peekWord PROGMEM mem a = peekWord PROGMEM mem' a := by
  unfold peekWord busReadWord
  rw [if_pos (ge_iff_toNat.mpr h), if_pos (ge_iff_toNat.mpr h)]

theorem stepOf_pc {i : Ins} {x : Machine b} (h : At PROGMEM i x) :
    (stepOf PROGMEM x).1.cpu.PC = codePc PROGMEM i x := by
  by_cases hb : i.group = .branch
  · rw [stepOf_branch PROGMEM h hb]
    refine (branchResult_pc hb x.1.afterFetch _).trans ?_
    cases i <;> first | rfl | cases hb
  · rw [stepOf_arms PROGMEM h]
    cases i
    case brk =>
      -- the vector is read after the three pushes
      exact peekWord_rom PROGMEM _ x.2 (show 0x8000 ≤ irqVector.toNat by decide)
    all_goals first | exact absurd rfl hb | rfl

/-! ## The two agree -/

theorem succInPage_eq (ptr : U16) :
    succInPage ptr = (ptr &&& 0xFF00) ||| ((ptr + 1) &&& 0x00FF) := by
  have hlt := ptr.isLt
  have hhigh : ((ptr &&& 0xFF00 : U16)).toNat = (ptr.toNat / 256) <<< 8 := by
    rw [toNat_page, Nat.shiftLeft_eq]
  have hlow : ((ptr + 1) &&& 0x00FF : U16).toNat = (ptr.toNat + 1) % 256 := by
    rw [BitVec.toNat_and, show (0x00FF : U16).toNat = 2 ^ 8 - 1 from rfl,
      Nat.and_two_pow_sub_one_eq_mod, BitVec.toNat_add]
    show (ptr.toNat + 1) % 2 ^ 16 % 2 ^ 8 = _
    omega
  apply BitVec.eq_of_toNat_eq
  rw [BitVec.toNat_or, hlow, hhigh,
    ← Nat.shiftLeft_add_eq_or_of_lt (by omega : (ptr.toNat + 1) % 256 < 2 ^ 8), Nat.shiftLeft_eq]
  unfold succInPage
  rw [BitVec.toNat_ofNat]
  omega

theorem stackWord_eq (mem : Memory b) (SP : U8) :
    stackWord PROGMEM mem SP =
      some (word (peek PROGMEM mem (stackAddress SP))
        (peek PROGMEM mem (stackAddress (SP + 1)))) := by
  unfold stackWord
  rw [busReadByte_eq, busReadByte_eq]
  rfl

/-- What the helpers an instruction runs through add to `PC` is its documented length. -/
theorem advance_length (pc : U16) (m : Mode) : advance pc m.length = pc + .ofNat 16 m.length := by
  cases m
  case implied | accumulator => rfl
  case immediate | relative | zeroPage | zeroPageX | zeroPageY | indirectX | indirectY =>
    exact BitVec.add_assoc pc 1 1
  case absolute | absoluteX | absoluteY | indirect => exact BitVec.add_assoc pc 1 2

theorem documentedNextPc_eq {i : Ins} {x : Machine b}
    (hw : i.mode.HasOperandWord → WordInBounds b (operandAt x)) :
    documentedNextPc PROGMEM i x = some (codePc PROGMEM i x) := by
  have htwo : x.1.cpu.PC + 1 + 1 = x.1.cpu.PC + 2 := BitVec.add_assoc _ 1 1
  have hpull : x.1.cpu.SP + 1 + 1 = x.1.cpu.SP + 2 := BitVec.add_assoc _ 1 1
  have hword : i.mode.HasOperandWord →
      busReadWord PROGMEM x.2 (x.1.cpu.PC + 1) = some (operandWord PROGMEM x) := by
    intro h
    exact (busReadWord_eq PROGMEM x.2 (operandAt x)).trans (if_pos (hw h))
  have hvector : busReadWord PROGMEM x.2 irqVector = some (peekWord PROGMEM x.2 irqVector) := by
    rw [busReadWord_eq, if_pos irqVector_inBounds]
  cases i
  case bpl | bmi | bvc | bvs | bcc | bcs | bne | beq =>
    unfold documentedNextPc codePc
    dsimp only
    rw [busReadByte_eq, htwo]
    rfl
  case jmpAbs | jsr => exact hword rfl
  case jmpInd =>
    unfold documentedNextPc codePc
    dsimp only
    rw [hword rfl, ← succInPage_eq, Option.bind_eq_bind, Option.bind_some, busReadByte_eq,
      Option.bind_eq_bind, Option.bind_some, busReadByte_eq]
    rfl
  case rts =>
    unfold documentedNextPc codePc
    dsimp only
    rw [stackWord_eq]
    rfl
  case rti =>
    unfold documentedNextPc codePc
    dsimp only
    rw [stackWord_eq, hpull]
  case brk => exact hvector
  all_goals exact congrArg some (advance_length x.1.cpu.PC _).symm

/-- **`PC` follows the law of the instruction set** after every named opcode, and so at every
    step of every run. -/
theorem nextPc_law (b : Build) (PROGMEM : Progmem) :
    (∀ (i : Ins) (x y : Machine b), At PROGMEM i x → instructionOn PROGMEM x = some y →
      documentedNextPc PROGMEM i x = some y.1.cpu.PC) ∧
    (∀ (k : Nat) (x u v : Machine b), iter (instructionOn PROGMEM) k x = some u →
      iter (instructionOn PROGMEM) (k + 1) x = some v →
      ∀ i, Ins.ofOpcode? (opcodeAt PROGMEM u) = some i →
        documentedNextPc PROGMEM i u = some v.1.cpu.PC) := by
  have hstep : ∀ (i : Ins) (x y : Machine b), At PROGMEM i x → instructionOn PROGMEM x = some y →
      documentedNextPc PROGMEM i x = some y.1.cpu.PC := by
    intro i x y hat hy
    obtain ⟨⟨hword, -⟩, rfl⟩ := (instructionOn_at PROGMEM hat).mp hy
    rw [documentedNextPc_eq PROGMEM hword, stepOf_pc PROGMEM hat]
  refine ⟨hstep, ?_⟩
  intro k x u v hu hv i hi
  rw [iter_succ_last, hu, Option.bind_some] at hv
  exact hstep i u v (Ins.opcode_of_ofOpcode? hi) hv

/-- A program image with `JMP ($01FF)` at `0x8000`. -/
def jmpProgmem : Progmem := fun i =>
  if i.val = 0 then 0x6C else if i.val = 1 then 0xFF else if i.val = 2 then 0x01 else 0x00

/-- About to execute it, with `0x34` at `0x01FF` and `0x12` at `0x0100`. -/
def jmpState : Machine ⟨false⟩ :=
  (clockStart { olc6502Init with PC := 0x8000 } false 5,
    ⟨fun i => if i.val = 0x1FF then 0x34 else if i.val = 0x100 then 0x12 else 0⟩)

/-- The pointer's second byte is read from the start of its page. -/
theorem nextPc_law_jmp :
    ∃ y, instructionOn jmpProgmem jmpState = some y ∧ y.1.cpu.PC = 0x1234 ∧
      documentedNextPc jmpProgmem .jmpInd jmpState = some y.1.cpu.PC := by
  obtain ⟨y, hy⟩ : ∃ y, instructionOn jmpProgmem jmpState = some y :=
    Option.isSome_iff_exists.mp (by decide)
  have hlaw := (nextPc_law ⟨false⟩ jmpProgmem).1 .jmpInd jmpState y (by decide) hy
  have hval : documentedNextPc jmpProgmem .jmpInd jmpState = some 0x1234 := by decide
  exact ⟨y, hy, Option.some.inj (hlaw.symm.trans hval), hlaw⟩

end M6502
