import M6502.Lib.Isa
import M6502.Proof.Cpu.Adder
import M6502.Proof.Cpu.Interrupt
import M6502.Proof.Cpu.InterruptFlag
import M6502.Proof.Cpu.Modify
import M6502.Proof.Cpu.Compare
import M6502.Proof.Cpu.FlagInstructions
import M6502.Proof.Cpu.NextPc
import M6502.Proof.Cpu.StatusSave
import M6502.Proof.Cpu.ZeroPagePointer

/-!
# One instruction against the manual

The manual's machine is the 6502 of `Lib.Isa`, without its decimal mode, which the code does not
have either. `ref` reads a state of the code as one of that machine: the registers, the flags,
with the pending interrupt flag for `I`, and the memory behind the bus. `Regular` is the condition,
on the manual's own state, under which an instruction meets none of the places where the code
departs from the manual, and `step_refines` says that under it the two do the same.
-/

set_option autoImplicit false

namespace M6502

open Lib Cpu

variable {b : Build} (PROGMEM : Progmem)

/-! ## The two states -/

/-- What is pending is in force when the next instruction executes. -/
def Olc6502.status (cpu : Olc6502) : Isa.Status where
  N := cpu.PS.N
  V := cpu.PS.V
  D := cpu.PS.D
  I := cpu.iNxt
  Z := cpu.PS.Z
  C := cpu.PS.C

def Olc6502.isa (cpu : Olc6502) : Isa.Cpu where
  A := cpu.A
  X := cpu.X
  Y := cpu.Y
  SP := cpu.SP
  P := cpu.status
  PC := cpu.PC

/-- A store to PRG ROM has no effect. -/
def storeByte (mem : Memory b) (a : U16) (v : U8) : Memory b :=
  if a.toNat < 0x8000 then poke mem a v else mem

theorem storeByte_eq (mem : Memory b) {a : U16} (v : U8) (h : a.toNat < 0x8000) :
    storeByte mem a v = poke mem a v := if_pos h

/-- The bus as an address space. -/
def busSpace (b : Build) : Isa.Space (Memory b) := ⟨peek PROGMEM, storeByte⟩

def ref (x : Machine b) : Isa.State (Memory b) := ⟨x.1.cpu.isa, x.2⟩

/-! ## The opcodes -/

def Mode.isa : Mode → Isa.Mode
  | .implied => .implied
  | .accumulator => .accumulator
  | .immediate => .immediate
  | .relative => .relative
  | .zeroPage => .zeroPage
  | .zeroPageX => .zeroPageX
  | .zeroPageY => .zeroPageY
  | .absolute => .absolute
  | .absoluteX => .absoluteX
  | .absoluteY => .absoluteY
  | .indirect => .indirect
  | .indirectX => .indirectX
  | .indirectY => .indirectY

/-- The operation of each opcode, by mnemonic. -/
def Ins.op : Ins → Isa.Op
  | .ldaIm | .ldaZp | .ldaZpx | .ldaAbs | .ldaAbsx | .ldaAbsy | .ldaIndx | .ldaIndy => .lda
  | .ldxIm | .ldxZp | .ldxZpy | .ldxAbs | .ldxAbsy => .ldx
  | .ldyIm | .ldyZp | .ldyZpx | .ldyAbs | .ldyAbsx => .ldy
  | .staZp | .staZpx | .staAbs | .staAbsx | .staAbsy | .staIndx | .staIndy => .sta
  | .stxZp | .stxZpy | .stxAbs => .stx
  | .styZp | .styZpx | .styAbs => .sty
  | .tsx => .tsx | .txs => .txs | .pha => .pha | .pla => .pla | .php => .php | .plp => .plp
  | .jmpAbs | .jmpInd => .jmp
  | .jsr => .jsr | .rts => .rts
  | .andIm | .andZp | .andZpx | .andAbs | .andAbsx | .andAbsy | .andIndx | .andIndy => .and
  | .oraIm | .oraZp | .oraZpx | .oraAbs | .oraAbsx | .oraAbsy | .oraIndx | .oraIndy => .ora
  | .eorIm | .eorZp | .eorZpx | .eorAbs | .eorAbsx | .eorAbsy | .eorIndx | .eorIndy => .eor
  | .bitZp | .bitAbs => .bit
  | .tax => .tax | .tay => .tay | .txa => .txa | .tya => .tya
  | .inx => .inx | .iny => .iny | .dey => .dey | .dex => .dex
  | .decZp | .decZpx | .decAbs | .decAbsx => .dec
  | .incZp | .incZpx | .incAbs | .incAbsx => .inc
  | .beq => .beq | .bne => .bne | .bcs => .bcs | .bcc => .bcc
  | .bmi => .bmi | .bpl => .bpl | .bvc => .bvc | .bvs => .bvs
  | .clc => .clc | .sec => .sec | .cld => .cld | .sed => .sed
  | .cli => .cli | .sei => .sei | .clv => .clv
  | .adcIm | .adcZp | .adcZpx | .adcAbs | .adcAbsx | .adcAbsy | .adcIndx | .adcIndy => .adc
  | .sbcIm | .sbcAbs | .sbcZp | .sbcZpx | .sbcAbsx | .sbcAbsy | .sbcIndx | .sbcIndy => .sbc
  | .cmpIm | .cmpZp | .cmpZpx | .cmpAbs | .cmpAbsx | .cmpAbsy | .cmpIndx | .cmpIndy => .cmp
  | .cpxIm | .cpxZp | .cpxAbs => .cpx
  | .cpyIm | .cpyZp | .cpyAbs => .cpy
  | .aslA | .aslZp | .aslZpx | .aslAbs | .aslAbsx => .asl
  | .lsrA | .lsrZp | .lsrZpx | .lsrAbs | .lsrAbsx => .lsr
  | .rolA | .rolZp | .rolZpx | .rolAbs | .rolAbsx => .rol
  | .rorA | .rorZp | .rorZpx | .rorAbs | .rorAbsx => .ror
  | .nop => .nop | .brk => .brk | .rti => .rti

/-- The header's table is the manual's. -/
theorem decode_opcode (i : Ins) : Isa.decode i.opcode = some (i.op, i.mode.isa) := by
  have hall : ∀ i ∈ Ins.all, Isa.decode i.opcode = some (i.op, i.mode.isa) := by decide +kernel
  exact hall i i.mem_all

theorem exists_ins_of_decode {v : U8} {e : Isa.Op × Isa.Mode} (h : Isa.decode v = some e) :
    ∃ i : Ins, v = i.opcode ∧ e = (i.op, i.mode.isa) := by
  have hall : ∀ v : U8, (Isa.decode v).isSome → (Ins.ofOpcode? v).isSome := by decide +kernel
  obtain ⟨i, hi⟩ := Option.isSome_iff_exists.mp (hall v (by rw [h]; rfl))
  obtain rfl := Ins.opcode_of_ofOpcode? hi
  rw [decode_opcode, Option.some_inj] at h
  exact ⟨i, rfl, h.symm⟩

theorem Mode.length_isa (m : Mode) : m.isa.length = m.length := by
  cases m <;> rfl

/-! ## Where the code does as the manual says -/

/-- The places where the code departs from the manual, by operation, are not met. -/
def Unflawed (l : Isa.Line) (s : Isa.State (Memory b)) : Prop :=
  let v := (busSpace PROGMEM b).value l.mode l.arg s
  let P := s.cpu.P
  let pulled := Isa.Status.ofByte ((busSpace PROGMEM b).pulled s 1)
  let Pulls := (P.N = true → pulled.N = true) ∧ (P.V = true → pulled.V = true) ∧
    (P.D = true → pulled.D = true) ∧ (P.Z = true → pulled.Z = true) ∧
    (P.C = true → pulled.C = true)
  match l.op with
  | .sbc | .clv | .tsx | .txs => False
  | .cpx | .cpy => l.mode ≠ .immediate
  | .inc | .dec => s.cpu.A = v
  | .bit => (P.N = true → v.getLsbD 7 = true) ∧ (P.V = true → v.getLsbD 6 = true)
  | .plp => Pulls ∧ (pulled.I = true → P.I = true)
  | .rti => Pulls ∧ pulled.I = false
  | _ => True

/-- The line `l`, executed in `s`, meets no place where the code departs from the manual: its
    operand word and its pointer are read as two bytes each, a store goes to the memory array,
    and the operation is not one of the flawed ones. -/
structure Regular (l : Isa.Line) (s : Isa.State (Memory b)) : Prop where
  operand : l.mode.length = 3 → WordReadMeets PROGMEM s.mem (s.cpu.PC + 1)
  pointerX : l.mode = .indirectX → WrapsAlike PROGMEM s.mem (l.arg.toNat + s.cpu.X.toNat)
  pointerY : l.mode = .indirectY → WrapsAlike PROGMEM s.mem l.arg.toNat
  store : l.op.stores = true → l.mode ≠ .accumulator →
    ((busSpace PROGMEM b).address l.mode l.arg s).toNat < 0x8000
  op : Unflawed PROGMEM l s

/-! ## Words -/

theorem isa_word (low high : U8) : Isa.word low high = word low high := by
  apply BitVec.eq_of_toNat_eq
  have hlow := low.isLt
  unfold Isa.word
  rw [word_toNat, BitVec.toNat_append, ← Nat.shiftLeft_add_eq_or_of_lt hlow, Nat.shiftLeft_eq]
  omega

/-- Where a word read agrees with two byte reads, it is the word of the address space. -/
theorem peekWord_of_meets {mem : Memory b} {a : U16} (h : WordReadMeets PROGMEM mem a) :
    WordInBounds b a ∧ (busSpace PROGMEM b).word mem a = peekWord PROGMEM mem a := by
  obtain ⟨hin, hsecond⟩ :=
    (wordReadAgrees_iff_secondByte PROGMEM mem a).mp ((wordReadAgrees_iff PROGMEM mem a).mpr h)
  have hword := busReadWord_val PROGMEM mem hin
  rw [busReadWord_eq, if_pos hin, Option.some_inj, hsecond] at hword
  refine ⟨hin, ?_⟩
  rw [hword, Isa.Space.word, isa_word]
  rfl

theorem irqVector_meets (mem : Memory b) : WordReadMeets PROGMEM mem irqVector :=
  ⟨irqVector_inBounds, fun h => absurd h (by decide), fun h => absurd h (by decide)⟩

/-- The pointer of an indirect jump, as the code reads it. -/
theorem wordInPage_eq (mem : Memory b) (ptr : U16) :
    (busSpace PROGMEM b).wordInPage mem ptr =
      word (peek PROGMEM mem ptr)
        (peek PROGMEM mem ((ptr &&& 0xFF00) ||| ((ptr + 1) &&& 0x00FF))) := by
  have hsucc : (ptr.extractLsb' 8 8 ++ (ptr.extractLsb' 0 8 + 1) : U16) = succInPage ptr := by
    have hlt := ptr.isLt
    apply BitVec.eq_of_toNat_eq
    unfold succInPage
    rw [BitVec.toNat_append, ← Nat.shiftLeft_add_eq_or_of_lt (BitVec.isLt _), Nat.shiftLeft_eq,
      BitVec.extractLsb'_toNat, BitVec.toNat_add, BitVec.extractLsb'_toNat, BitVec.toNat_ofNat,
      Nat.shiftRight_eq_div_pow]
    show ptr.toNat / 2 ^ 8 % 2 ^ 8 * 2 ^ 8 + (ptr.toNat >>> 0 % 2 ^ 8 + 1) % 2 ^ 8 = _
    rw [Nat.shiftRight_zero]
    omega
  unfold Isa.Space.wordInPage
  rw [isa_word, hsucc, succInPage_eq]
  rfl

theorem isa_stack (SP : U8) : Isa.stack SP = stackAddress SP := rfl

/-- The pointer at `p`, read as a word, is the one of page zero if it wraps around alike. -/
theorem pointer_eq {mem : Memory b} {p : Nat} (hp : p + 1 < 0x800)
    (h : WrapsAlike PROGMEM mem p) :
    (busSpace PROGMEM b).pointer mem (.ofNat 8 p) = peekWord PROGMEM mem (.ofNat 16 p) := by
  have hword := (peekWord_eq_iff PROGMEM mem hp).mpr h
  rw [zeroPageWord_eq, Option.some_inj] at hword
  have hlow : ((BitVec.ofNat 8 p).setWidth 16 : U16) = .ofNat 16 (p % 256) := by
    rw [setWidth_eq_ofNat, BitVec.toNat_ofNat]
  have hhigh : ((BitVec.ofNat 8 p + 1).setWidth 16 : U16) = .ofNat 16 ((p + 1) % 256) := by
    have hnext : (BitVec.ofNat 8 p + 1 : U8) = .ofNat 8 (p + 1) := (BitVec.ofNat_add p 1).symm
    rw [hnext, setWidth_eq_ofNat, BitVec.toNat_ofNat]
  rw [← hword, Isa.Space.pointer, isa_word, hlow, hhigh]
  rfl

/-! ## Operands -/

section Line

variable {i : Ins} {x : Machine b}

/-- The line at `PC`, where the opcode is `i`. -/
def lineAt (i : Ins) (x : Machine b) : Isa.Line :=
  ⟨i.op, i.mode.isa, (busSpace PROGMEM b).operand i.mode.isa (ref x)⟩

theorem at_of_line {l : Isa.Line} (h : (busSpace PROGMEM b).line? (ref x) = some l) :
    ∃ i, At PROGMEM i x ∧ l = lineAt PROGMEM i x := by
  obtain ⟨e, he, rfl⟩ := Option.map_eq_some_iff.mp h
  obtain ⟨i, hi, rfl⟩ := exists_ins_of_decode he
  exact ⟨i, hi, rfl⟩

variable (hr : Regular PROGMEM (lineAt PROGMEM i x) (ref x))
include hr

theorem Regular.word (hm : i.mode.length = 3) :
    WordInBounds b (operandAt x) ∧
      (busSpace PROGMEM b).word x.2 (operandAt x) = operandWord PROGMEM x :=
  peekWord_of_meets PROGMEM (hr.operand (by rw [← hm, ← Mode.length_isa]; rfl))

/-- The pointer `Y` is added to. -/
theorem Regular.base_indirectY (hm : i.mode = .indirectY) :
    (busSpace PROGMEM b).pointer x.2 (((operandByte PROGMEM x).setWidth 16 : U16).setWidth 8) =
      peekWord PROGMEM x.2 ((operandByte PROGMEM x).setWidth 16) := by
  have hlow : (((operandByte PROGMEM x).setWidth 16 : U16).setWidth 8 : U8) =
    operandByte PROGMEM x := BitVec.setWidth_setWidth_of_le _ (by decide)
  have hval : ((operandByte PROGMEM x).setWidth 16 : U16).toNat =
    (operandByte PROGMEM x).toNat := BitVec.toNat_setWidth_of_le (by decide)
  have hlt := (operandByte PROGMEM x).isLt
  have hY := hr.pointerY
  unfold lineAt at hY
  rw [hm] at hY
  have hmeets : WrapsAlike PROGMEM x.2 ((operandByte PROGMEM x).setWidth 16 : U16).toNat := hY rfl
  rw [hval] at hmeets
  have hpointer := pointer_eq PROGMEM (by omega) hmeets
  rw [← setWidth_eq_ofNat, BitVec.ofNat_toNat, BitVec.setWidth_eq] at hpointer
  rw [hlow, hpointer]

/-- **The address is the one the code computes.** -/
theorem Regular.address (hm : i.mode.HasAddress) (him : i.mode ≠ .immediate) :
    (busSpace PROGMEM b).address i.mode.isa (lineAt PROGMEM i x).arg (ref x) =
      effectiveAddress PROGMEM i.mode x := by
  have hword := hr.word PROGMEM
  have hX := hr.pointerX
  have hlow : (((operandByte PROGMEM x).setWidth 16 : U16).setWidth 8 : U8) =
    operandByte PROGMEM x := BitVec.setWidth_setWidth_of_le _ (by decide)
  have hval : ((operandByte PROGMEM x).setWidth 16 : U16).toNat =
    (operandByte PROGMEM x).toNat := BitVec.toNat_setWidth_of_le (by decide)
  have hlt := (operandByte PROGMEM x).isLt
  have hindex := x.1.cpu.X.isLt
  unfold lineAt at hX ⊢
  cases hmode : i.mode <;> rw [hmode] at hm him hword hX
  case implied | accumulator | relative | indirect => exact absurd hm (by decide)
  case immediate => exact absurd rfl him
  case zeroPage => rfl
  case zeroPageX =>
    show ((((operandByte PROGMEM x).setWidth 16 : U16).setWidth 8 + x.1.cpu.X : U8).setWidth 16) = _
    rw [hlow, effectiveAddress, zp_index, setWidth_eq_ofNat, BitVec.toNat_add]
  case zeroPageY =>
    show ((((operandByte PROGMEM x).setWidth 16 : U16).setWidth 8 + x.1.cpu.Y : U8).setWidth 16) = _
    rw [hlow, effectiveAddress, zp_index, setWidth_eq_ofNat, BitVec.toNat_add]
  case absolute => exact (hword rfl).2
  case absoluteX => exact congrArg (· + x.1.cpu.X.setWidth 16) (hword rfl).2
  case absoluteY => exact congrArg (· + x.1.cpu.Y.setWidth 16) (hword rfl).2
  case indirectX =>
    have hmeets : WrapsAlike PROGMEM x.2
      (((operandByte PROGMEM x).setWidth 16 : U16).toNat + x.1.cpu.X.toNat) := hX rfl
    rw [hval] at hmeets
    have hpointer := pointer_eq PROGMEM (by omega) hmeets
    rw [← setWidth_add_eq_ofNat, BitVec.ofNat_add, BitVec.ofNat_toNat, BitVec.ofNat_toNat,
      BitVec.setWidth_eq, BitVec.setWidth_eq] at hpointer
    show (busSpace PROGMEM b).pointer x.2
      (((operandByte PROGMEM x).setWidth 16 : U16).setWidth 8 + x.1.cpu.X) = _
    rw [hlow]
    exact hpointer
  case indirectY =>
    show (busSpace PROGMEM b).pointer x.2
      (((operandByte PROGMEM x).setWidth 16 : U16).setWidth 8) + x.1.cpu.Y.setWidth 16 = _
    rw [hr.base_indirectY PROGMEM hmode]
    rfl

/-- **And so is the byte.** -/
theorem Regular.value (hm : i.mode.HasAddress) :
    (busSpace PROGMEM b).value i.mode.isa (lineAt PROGMEM i x).arg (ref x) =
      peek PROGMEM x.2 (effectiveAddress PROGMEM i.mode x) := by
  have haddress := hr.address PROGMEM hm
  unfold lineAt at haddress ⊢
  cases hmode : i.mode <;> rw [hmode] at hm haddress
  case implied | accumulator | relative | indirect => exact absurd hm (by decide)
  case immediate => exact BitVec.setWidth_setWidth_of_le _ (by decide)
  all_goals exact congrArg (peek PROGMEM x.2) (haddress nofun)

end Line

/-! ## Registers and flags -/

theorem isa_compared (cpu : Olc6502) (r : Reg) (M : U8) :
    (cpu.compared r M).isa = { cpu.isa with P := cpu.isa.P.compare (cpu.reg r) M } := by
  unfold Isa.Status.compare Isa.Status.nz
  rw [sub_eq_zero_beq]
  rfl

/-- The adder, in the manual's words. -/
theorem isa_added (cpu : Olc6502) (M : U8) : (cpu.added 3 M).isa = cpu.isa.add M := by
  obtain ⟨hA, hC, hV, hZ, hN⟩ := Olc6502.added_spec cpu M
  have hlt := cpu.A.isLt
  have hM := M.isLt
  have hcarry := cpu.PS.C.toNat_le
  have hsum : (cpu.added 3 M).A = .ofNat 8 (cpu.A.toNat + M.toNat + cpu.PS.C.toNat) :=
    BitVec.eq_of_toNat_eq (by rw [hA, BitVec.toNat_ofNat])
  have hC' : (cpu.added 3 M).PS.C = decide (256 ≤ cpu.A.toNat + M.toNat + cpu.PS.C.toNat) := by
    cases h : (cpu.added 3 M).PS.C <;> rw [h] at hC <;> simp at hC ⊢ <;> omega
  have hV' : (cpu.added 3 M).PS.V = decide
      (cpu.A.toInt + M.toInt + cpu.PS.C.toNat < -128 ∨
        128 ≤ cpu.A.toInt + M.toInt + cpu.PS.C.toNat) := by
    rw [Bool.eq_iff_iff, hV, decide_eq_true_iff]
    omega
  have hcpu : (cpu.added 3 M).isa =
      { cpu.isa with
        A := (cpu.added 3 M).A
        P := { cpu.isa.P with
          N := (cpu.added 3 M).PS.N
          V := (cpu.added 3 M).PS.V
          Z := (cpu.added 3 M).PS.Z
          C := (cpu.added 3 M).PS.C } } := rfl
  rw [hcpu, hN, hZ, hC', hV', hsum]
  rfl

/-- The group shifts as its mnemonic says. -/
theorem shiftResult_op {i : Ins} (hg : i.group = .shift) (C : Bool) (v : U8) :
    shiftResult (fieldAaa i.opcode) C v = i.op.shift C v := by
  have hall : ∀ (C : Bool) (v : U8),
      shiftResult 0 C v = Isa.Op.asl.shift C v ∧ shiftResult 1 C v = Isa.Op.rol.shift C v ∧
      shiftResult 2 C v = Isa.Op.lsr.shift C v ∧ shiftResult 3 C v = Isa.Op.ror.shift C v := by
    decide +kernel
  obtain ⟨hasl, hrol, hlsr, hror⟩ := hall C v
  cases i <;> first | exact hasl | exact hrol | exact hlsr | exact hror | cases hg

theorem isa_shifted {i : Ins} (hg : i.group = .shift) (cpu : Olc6502) (v : U8) :
    (cpu.shifted (fieldAaa i.opcode) v).isa =
      { cpu.isa with
        P := { cpu.isa.P.nz (i.op.shift cpu.PS.C v).1 with C := (i.op.shift cpu.PS.C v).2 } } := by
  simp only [Olc6502.shifted, shiftResult_op hg, and_0x80_ne_zero]
  rfl

/-! ## The stack and the jumps -/

/-- The CPU after an instruction of the stack, a jump or a return, as the code leaves it. -/
def Ins.controlCpu? (i : Ins) (x : Machine b) : Option Olc6502 :=
  let cpu := x.1.cpu
  let pull := fun SP => peek PROGMEM x.2 (stackAddress SP)
  match i with
  | .nop => some (cpu.advanced 1)
  | .jmpAbs | .jmpInd => some { cpu with PC := codePc PROGMEM i x, PS.I := cpu.iNxt }
  | .jsr => some { cpu with PC := codePc PROGMEM i x, PS.I := cpu.iNxt, SP := cpu.SP - 1 - 1 }
  | .rts => some { cpu with PC := codePc PROGMEM i x, PS.I := cpu.iNxt, SP := cpu.SP + 1 + 1 }
  | .brk => some { cpu with
      PC := codePc PROGMEM i x, PS.I := true, iNxt := true, SP := cpu.SP - 1 - 1 - 1 }
  | .rti => some { cpu with
      PC := codePc PROGMEM i x
      SP := cpu.SP + 1 + 1 + 1
      PS := .ofValue ({ cpu.PS with I := cpu.iNxt }.value ||| (pull (cpu.SP + 1) &&& 0xCF))
      iNxt := codeINxt PROGMEM i x }
  | .pha | .php => some { cpu.advanced 1 with SP := cpu.SP - 1 }
  | .pla => some { (cpu.advanced 1).updated .A (pull (cpu.SP + 1)) with SP := cpu.SP + 1 }
  | .plp => some { cpu.advanced 1 with
      SP := cpu.SP + 1
      PS := .ofValue ({ cpu.PS with I := cpu.iNxt }.value |||
        (pulledStatus PROGMEM x &&& 0xCF &&& 0xFB))
      iNxt := codeINxt PROGMEM i x }
  | _ => none

theorem stepOf_control {i : Ins} {x : Machine b} (h : At PROGMEM i x) {cpu : Olc6502}
    (hc : i.controlCpu? PROGMEM x = some cpu) : (stepOf PROGMEM x).1.cpu = cpu := by
  have hpc := stepOf_pc PROGMEM h
  rw [stepOf_arms PROGMEM h] at hpc ⊢
  cases i <;> cases hc
  case brk =>
    exact congrArg (fun pc : U16 => ({ x.1.cpu with
      PC := pc, PS.I := true, iNxt := true, SP := x.1.cpu.SP - 1 - 1 - 1 } : Olc6502)) hpc
  all_goals rfl

/-! ## The CPU after an instruction -/

section After

variable {i : Ins} {x : Machine b} (h : At PROGMEM i x)
  (hr : Regular PROGMEM (lineAt PROGMEM i x) (ref x))
include h hr

theorem Regular.after_effect {e : Effect} (he : i.effect? = some e) :
    (stepOf PROGMEM x).1.cpu.isa =
      (busSpace PROGMEM b).after i.mode.isa (lineAt PROGMEM i x).arg (ref x) i.op := by
  rw [stepOf_effect PROGMEM h he]
  unfold Effect.codeCpu
  rcases i.effect_address he with ⟨r, f, rfl⟩ | hm
  · simp only [Olc6502.advanced_eq, Olc6502.updated_eq]
    cases i <;> cases he <;> rfl
  · have hv := hr.value PROGMEM hm
    generalize peek PROGMEM x.2 (effectiveAddress PROGMEM i.mode x) = v at hv ⊢
    subst hv
    simp only [Olc6502.advanced_eq, Olc6502.updated_eq]
    cases i <;> cases he <;> rfl

theorem Regular.after_adc (hg : i.group = .adc) :
    (stepOf PROGMEM x).1.cpu.isa =
      (busSpace PROGMEM b).after i.mode.isa (lineAt PROGMEM i x).arg (ref x) i.op := by
  have hop := hr.op
  have hm : i.mode.HasAddress := by cases i <;> first | decide | cases hg
  have hv := hr.value PROGMEM hm
  rw [stepOf_adc PROGMEM h hg, Olc6502.advanced_eq, ← hv]
  cases i <;> first
    | exact absurd hg (by decide)
    | exact absurd hop id
    | exact isa_added (x.1.cpu.past _) _

theorem Regular.after_cmp {r : Reg} (hc : i.comparand? = some r) :
    (stepOf PROGMEM x).1.cpu.isa =
      (busSpace PROGMEM b).after i.mode.isa (lineAt PROGMEM i x).arg (ref x) i.op := by
  have hop := hr.op
  have hm : i.mode.HasAddress := by cases i <;> first | decide | cases hc
  have hv := hr.value PROGMEM hm
  have hdecoded : i.decodedMode = i.mode := by
    rcases i.decodedMode_cases with ⟨him, -, rfl | rfl⟩ | ⟨heq, -⟩
    · exact absurd rfl hop
    · exact absurd rfl hop
    · exact heq
  rw [(stepOf_cmp PROGMEM h hc).1, hdecoded, isa_compared, ← hv]
  cases i <;> cases hc <;> rfl

theorem Regular.after_shift (hg : i.group = .shift) :
    (stepOf PROGMEM x).1.cpu.isa =
      (busSpace PROGMEM b).after i.mode.isa (lineAt PROGMEM i x).arg (ref x) i.op := by
  by_cases hacc : i.mode = .accumulator
  · obtain ⟨op, hop⟩ : ∃ op, i.shiftOp? = some op := by
      rcases i.accumulator_cases hacc with rfl | rfl | rfl | rfl <;> exact ⟨_, rfl⟩
    rw [(stepOf_shiftA PROGMEM h hop hacc).cpu, ← shiftResult_eq hop, shiftResult_op hg]
    rcases i.accumulator_cases hacc with rfl | rfl | rfl | rfl <;> rfl
  · have hm : i.mode.HasAddress := by
      cases i <;> first | decide | exact absurd rfl hacc | cases hg
    have hv := hr.value PROGMEM hm
    rw [(stepOf_shift PROGMEM h hg hacc).1, isa_shifted hg, Olc6502.advanced_eq, ← hv]
    cases i <;> first | exact absurd hg (by decide) | exact absurd rfl hacc | rfl

theorem Regular.after_incDec {f : U8 → U8} (hf : i.counted? = some f) :
    (stepOf PROGMEM x).1.cpu.isa =
      (busSpace PROGMEM b).after i.mode.isa (lineAt PROGMEM i x).arg (ref x) i.op := by
  have hop := hr.op
  have hA : x.1.cpu.A =
      (busSpace PROGMEM b).value i.mode.isa (lineAt PROGMEM i x).arg (ref x) := by
    cases i <;> cases hf <;> exact hop
  rw [(stepOf_incDec PROGMEM h hf).1, hA]
  cases i <;> cases hf <;> rfl

theorem Regular.after_flag {f : Olc6502 → Olc6502} (hf : i.codeFlagSet? = some f) :
    (stepOf PROGMEM x).1.cpu.isa =
      (busSpace PROGMEM b).after i.mode.isa (lineAt PROGMEM i x).arg (ref x) i.op := by
  have hop := hr.op
  rw [(stepOf_flag PROGMEM h hf).cpu]
  cases i <;> cases hf <;> first | rfl | exact absurd hop id

theorem Regular.after_bit (hi : i.IsBit) :
    (stepOf PROGMEM x).1.cpu.isa =
      (busSpace PROGMEM b).after i.mode.isa (lineAt PROGMEM i x).arg (ref x) i.op := by
  have hop := hr.op
  have hm : i.mode.HasAddress := by rcases hi with rfl | rfl <;> decide
  have hv := hr.value PROGMEM hm
  rw [(stepOf_bit PROGMEM h hi).1, ← hv, (bitOred_eq_iff _ _).mpr]
  · rcases hi with rfl | rfl <;> rfl
  · rcases hi with rfl | rfl <;> exact hop

theorem Regular.after_control {cpu : Olc6502} (hc : i.controlCpu? PROGMEM x = some cpu) :
    (stepOf PROGMEM x).1.cpu.isa =
      (busSpace PROGMEM b).after i.mode.isa (lineAt PROGMEM i x).arg (ref x) i.op := by
  have hop := hr.op
  have hword := hr.word PROGMEM
  have hdown : ∀ SP : U8, SP - 1 - 1 = SP - 2 ∧ SP - 1 - 1 - 1 = SP - 3 := fun SP =>
    ⟨by bv_omega, by bv_omega⟩
  have hup : ∀ SP : U8, SP + 1 + 1 = SP + 2 ∧ SP + 1 + 1 + 1 = SP + 3 := fun SP =>
    ⟨by bv_omega, by bv_omega⟩
  obtain ⟨hdown₂, hdown₃⟩ := hdown x.1.cpu.SP
  obtain ⟨hup₂, hup₃⟩ := hup x.1.cpu.SP
  rw [stepOf_control PROGMEM h hc]
  cases i <;> cases hc
  case nop | pha | php => rfl
  case pla =>
    rw [Olc6502.updated_eq]
    rfl
  case jmpAbs => exact Isa.Cpu.ext rfl rfl rfl rfl rfl (hword rfl).2.symm
  case jmpInd =>
    refine Isa.Cpu.ext rfl rfl rfl rfl rfl ?_
    show _ = (busSpace PROGMEM b).wordInPage x.2 ((busSpace PROGMEM b).word x.2 (operandAt x))
    rw [(hword rfl).2, wordInPage_eq]
    rfl
  case jsr => exact Isa.Cpu.ext rfl rfl rfl hdown₂ rfl (hword rfl).2.symm
  case rts =>
    refine Isa.Cpu.ext rfl rfl rfl hup₂ rfl ?_
    show M6502.word _ (peek PROGMEM x.2 (stackAddress (x.1.cpu.SP + 1 + 1))) + 1 = Isa.word _ _ + 1
    rw [isa_word, hup₂]
    rfl
  case brk =>
    refine Isa.Cpu.ext rfl rfl rfl hdown₃ rfl ?_
    -- the pushes go to RAM and the vector is in ROM
    have hrom := peekWord_rom PROGMEM x.2 ((busSpace PROGMEM b).store x.2
      ((busSpace PROGMEM b).writes .implied (lineAt PROGMEM .brk x).arg (ref x) .brk))
      (show 0x8000 ≤ irqVector.toNat by decide)
    exact hrom.trans (peekWord_of_meets PROGMEM (irqVector_meets PROGMEM _)).2.symm
  case rti =>
    obtain ⟨hpulls, hI⟩ := hop
    obtain ⟨hN, hV, hD, hZ, hC⟩ := (sameFlags_or_iff (f := { x.1.cpu.PS with I := x.1.cpu.iNxt })
      (sameFlags_mask (m := 0xCF) (pulledStatus PROGMEM x) ⟨rfl, rfl, rfl, rfl, rfl⟩)).mpr hpulls
    refine Isa.Cpu.ext rfl rfl rfl hup₃ (Isa.Status.ext hN hV hD ?_ hZ hC) ?_
    · exact (bitField_and_four (pulledStatus PROGMEM x)).trans hI.symm
    · show M6502.word (peek PROGMEM x.2 (stackAddress (x.1.cpu.SP + 1 + 1)))
        (peek PROGMEM x.2 (stackAddress (x.1.cpu.SP + 1 + 1 + 1))) = Isa.word _ _
      rw [isa_word, hup₃, hup₂]
      rfl
  case plp =>
    obtain ⟨hpulls, hI⟩ := hop
    obtain ⟨hN, hV, hD, hZ, hC⟩ := (sameFlags_or_iff (f := { x.1.cpu.PS with I := x.1.cpu.iNxt })
      (sameFlags_plp (pulledStatus PROGMEM x))).mpr hpulls
    refine Isa.Cpu.ext rfl rfl rfl rfl (Isa.Status.ext hN hV hD ?_ hZ hC) rfl
    refine (codeINxt_plp PROGMEM x).trans ?_
    show ((pulledStatus PROGMEM x).getLsbD 2 && x.1.cpu.iNxt) = _
    exact Bool.and_eq_left_iff_imp.mpr hI

theorem Regular.after_branch (hb : i.group = .branch) :
    (stepOf PROGMEM x).1.cpu.isa =
      (busSpace PROGMEM b).after i.mode.isa (lineAt PROGMEM i x).arg (ref x) i.op := by
  have htwo : x.1.cpu.PC + 1 + 1 = x.1.cpu.PC + 2 := BitVec.add_assoc _ 1 1
  have hpc := stepOf_pc PROGMEM h
  have hcpu : (stepOf PROGMEM x).1.cpu =
      { x.1.cpu with PC := codePc PROGMEM i x, PS.I := x.1.cpu.iNxt } := by
    rw [← hpc, stepOf_branch PROGMEM h hb]
    unfold branchResult
    dsimp only
    split <;> rfl
  have htaken : i.op.taken x.1.cpu.status = i.branchTaken x.1.cpu.PS := by
    cases i <;> rfl
  have hafter : (busSpace PROGMEM b).after i.mode.isa (lineAt PROGMEM i x).arg (ref x) i.op =
      if i.op.taken x.1.cpu.status then
        { x.1.cpu.isa with PC := x.1.cpu.PC + 2 + (operandByte PROGMEM x).signExtend 16 }
      else { x.1.cpu.isa with PC := x.1.cpu.PC + 2 } := by
    cases i <;> first | rfl | cases hb
  have hcode : codePc PROGMEM i x = if i.branchTaken x.1.cpu.PS then
      x.1.cpu.PC + 1 + 1 + (operandByte PROGMEM x).signExtend 16 else x.1.cpu.PC + 1 + 1 := by
    cases i <;> first | rfl | cases hb
  rw [hcpu, hafter, hcode, htaken, htwo]
  split <;> rfl

/-- **The registers and flags are those of the manual.** -/
theorem Regular.after :
    (stepOf PROGMEM x).1.cpu.isa =
      (busSpace PROGMEM b).after i.mode.isa (lineAt PROGMEM i x).arg (ref x) i.op := by
  have hop := hr.op
  have heffect := fun e he => hr.after_effect PROGMEM h (e := e) he
  have hcmp := fun r hc => hr.after_cmp PROGMEM h (r := r) hc
  have hincDec := fun f hf => hr.after_incDec PROGMEM h (f := f) hf
  have hflag := fun f hf => hr.after_flag PROGMEM h (f := f) hf
  have hcontrol : ∀ cpu : Olc6502, i.controlCpu? PROGMEM x = some cpu → _ :=
    fun _ hc => hr.after_control PROGMEM h hc
  cases i
  case tsx | txs => exact absurd hop id
  case bitZp => exact hr.after_bit PROGMEM h (.inl rfl)
  case bitAbs => exact hr.after_bit PROGMEM h (.inr rfl)
  all_goals first
    | exact hr.after_branch PROGMEM h rfl
    | exact hr.after_shift PROGMEM h rfl
    | exact hr.after_adc PROGMEM h rfl
    | exact heffect _ rfl
    | exact hcmp _ rfl
    | exact hincDec _ rfl
    | exact hflag _ rfl
    | exact hcontrol _ rfl

end After

/-! ## Stores -/

theorem bytes_of_word (w : U16) :
    (w >>> 8).setWidth 8 = w.extractLsb' 8 8 ∧ w.setWidth 8 = w.extractLsb' 0 8 := by
  constructor
  · apply BitVec.eq_of_toNat_eq
    rw [BitVec.extractLsb'_toNat, BitVec.toNat_setWidth, BitVec.toNat_ushiftRight]
  · apply BitVec.eq_of_toNat_eq
    rw [BitVec.extractLsb'_toNat, BitVec.toNat_setWidth, Nat.shiftRight_zero]

theorem pushedStatus_isa (cpu : Olc6502) : pushedStatus cpu = cpu.status.pushed := by
  have hall : ∀ C Z I D B U V N : Bool,
      BitVec.ofBoolListLE [C, Z, I, D, B, U, V, N] ||| 0x30 =
        BitVec.ofBoolListLE [C, Z, I, D, true, true, V, N] := by
    decide
  exact hall _ _ _ _ _ _ _ _

section Writes

variable {i : Ins} {x : Machine b} (hr : Regular PROGMEM (lineAt PROGMEM i x) (ref x))
include hr

/-- **What is stored is what the manual has stored**, at the same addresses and in order. -/
theorem Regular.writes :
    (busSpace PROGMEM b).writes i.mode.isa (lineAt PROGMEM i x).arg (ref x) i.op =
      i.writes PROGMEM x := by
  have hop := hr.op
  cases hs : i.store? with
  | some f =>
    have hm : i.mode.HasAddress ∧ i.mode ≠ .immediate := by
      cases i <;> first | decide | cases hs
    have haddress := hr.address PROGMEM hm.1 hm.2
    have hvalue := hr.value PROGMEM hm.1
    have hpushed : i.pushed x.1.cpu = [] := by
      cases i <;> first | rfl | cases hs
    have hstored : (busSpace PROGMEM b).writes i.mode.isa (lineAt PROGMEM i x).arg (ref x) i.op =
        [((busSpace PROGMEM b).address i.mode.isa (lineAt PROGMEM i x).arg (ref x),
          f x.1.cpu ((busSpace PROGMEM b).value i.mode.isa (lineAt PROGMEM i x).arg (ref x)))] := by
      cases i <;> cases hs <;> first
        | rfl
        | exact congrArg (fun r : U8 × Bool => [(_, r.1)]) (shiftResult_op rfl _ _).symm
        | exact congrArg (fun v : U8 => [(_, v + 1)]) hop.symm
        | exact congrArg (fun v : U8 => [(_, v - 1)]) hop.symm
    rw [hstored, hvalue, haddress, Ins.writes, hs, hpushed]
    rfl
  | none =>
    have hlast : x.1.cpu.PC + 1 + 2 - 1 = x.1.cpu.PC + 2 := by bv_omega
    have hnext : x.1.cpu.PC + 1 + 1 = x.1.cpu.PC + 2 := by bv_omega
    obtain ⟨hhigh, hlow⟩ := bytes_of_word (x.1.cpu.PC + 2)
    have hdown : x.1.cpu.SP - 1 - 1 = x.1.cpu.SP - 2 := by bv_omega
    rw [Ins.writes, hs, List.nil_append]
    cases i
    case txs => exact absurd hop id
    case jsr =>
      simp only [Ins.pushed, stackWrites, hlast, hhigh, hlow]
      rfl
    case brk =>
      simp only [Ins.pushed, stackWrites, hnext, hhigh, hlow, hdown, pushedStatus_isa]
      rfl
    case php =>
      simp only [Ins.pushed, stackWrites, pushedStatus_isa]
      rfl
    all_goals first | rfl | cases hs

end Writes

/-! ## Steps -/

/-- A regular line stores to the memory array only. -/
theorem Regular.store_lt {i : Ins} {x : Machine b}
    (hr : Regular PROGMEM (lineAt PROGMEM i x) (ref x)) (hs : i.store?.isSome) :
    (effectiveAddress PROGMEM i.mode x).toNat < 0x8000 := by
  have hm : i.mode.HasAddress ∧ i.mode ≠ .immediate := by
    cases i <;> first | decide | cases hs
  have hstore := hr.store (by cases i <;> first | rfl | cases hs)
    (by cases i <;> first | exact absurd hs (by decide) | exact nofun)
  rw [← hr.address PROGMEM hm.1 hm.2]
  exact hstore

theorem Regular.writes_lt {i : Ins} {x : Machine b}
    (hr : Regular PROGMEM (lineAt PROGMEM i x) (ref x)) {w : U16 × U8}
    (hw : w ∈ i.writes PROGMEM x) : w.1.toNat < 0x8000 := by
  unfold Ins.writes at hw
  rcases List.mem_append.mp hw with h | h
  · cases hs : i.store? with
    | none =>
      rw [hs] at h
      cases h
    | some f =>
      rw [hs] at h
      obtain rfl := List.mem_singleton.mp h
      exact hr.store_lt PROGMEM (by rw [hs]; rfl)
  · exact Nat.lt_trans (stackWrites_lt h) (by decide)

theorem store_eq_pokes {ws : List (U16 × U8)} (h : ∀ w ∈ ws, w.1.toNat < 0x8000)
    (mem : Memory b) : (busSpace PROGMEM b).store mem ws = pokes mem ws := by
  induction ws generalizing mem with
  | nil => rw [Isa.Space.store, pokes, List.foldl_nil, List.foldl_nil]
  | cons w ws ih =>
    obtain ⟨hw, hws⟩ := List.forall_mem_cons.mp h
    have hwrite : (busSpace PROGMEM b).write mem w.1 w.2 = poke mem w.1 w.2 :=
      storeByte_eq mem w.2 hw
    unfold Isa.Space.store pokes at ih ⊢
    rw [List.foldl_cons, List.foldl_cons, hwrite]
    exact ih hws _

/-- **Where the manual's next line is regular, the code executes it as the manual has it**: it
    stays inside its arrays, makes the same stores, and ends in the state of the manual. -/
theorem step_refines {x : Machine b} {l : Isa.Line}
    (hl : (busSpace PROGMEM b).line? (ref x) = some l) (hr : Regular PROGMEM l (ref x)) :
    StepSafe PROGMEM x ∧ ref (stepOf PROGMEM x) = (busSpace PROGMEM b).exec₁ l (ref x) ∧
      stepWrites PROGMEM x = (busSpace PROGMEM b).writes l.mode l.arg (ref x) l.op := by
  obtain ⟨i, hat, rfl⟩ := at_of_line PROGMEM hl
  have hwrites : (busSpace PROGMEM b).writes i.mode.isa (lineAt PROGMEM i x).arg (ref x) i.op =
    i.writes PROGMEM x := hr.writes PROGMEM
  refine ⟨(stepSafe_iff PROGMEM hat).mpr ⟨fun hm => (hr.word PROGMEM hm).1, fun hs => ?_⟩, ?_, ?_⟩
  · exact storeInBounds_of_lt (hr.store_lt PROGMEM hs)
  · refine Isa.State.ext (hr.after PROGMEM hat) ?_
    show (stepOf PROGMEM x).2 = (busSpace PROGMEM b).store x.2 _
    rw [stepOf_mem PROGMEM hat, ← store_eq_pokes PROGMEM fun w hw => hr.writes_lt PROGMEM hw,
      ← hwrites]
    rfl
  · rw [stepWrites_at PROGMEM hat]
    exact hwrites.symm

end M6502
