import Mathlib.Logic.Function.Basic

/-!
# The 6502 without its decimal mode

The instruction set as its manual has it, but for the decimal mode: `D` is a flag like any other,
and `ADC` and `SBC` are binary whatever it is. Over any address space: registers and flags
(`Cpu`), the 56 operations and their addressing modes, the table of the 151 opcodes, what an
instruction computes (`Space.after`), what it stores and in which order (`Space.writes`), and
what it costs (`Space.cycles`). A word is two bytes of the address space, pointers wrap around in
page zero, and the one quirk is the manual's own: an indirect jump takes both bytes of its
pointer from one page.

Nothing here is about any implementation. `Space.step` is total where the opcode is one of the
151, and everything else is read off it.
-/

set_option autoImplicit false

namespace Lib.Isa

abbrev Byte := BitVec 8
abbrev Addr := BitVec 16

/-! ## State -/

@[ext] structure Status where
  N : Bool
  V : Bool
  D : Bool
  I : Bool
  Z : Bool
  C : Bool
deriving DecidableEq, Repr

/-- The status as it is pushed: bits 4 and 5 are set. -/
def Status.pushed (P : Status) : Byte :=
  BitVec.ofBoolListLE [P.C, P.Z, P.I, P.D, true, true, P.V, P.N]

/-- The status pulled from the stack. -/
def Status.ofByte (v : Byte) : Status where
  N := v.getLsbD 7
  V := v.getLsbD 6
  D := v.getLsbD 3
  I := v.getLsbD 2
  Z := v.getLsbD 1
  C := v.getLsbD 0

/-- `Z` and `N` from a byte. -/
def Status.nz (P : Status) (v : Byte) : Status := { P with Z := v == 0, N := v.getLsbD 7 }

@[ext] structure Cpu where
  A : Byte
  X : Byte
  Y : Byte
  SP : Byte
  P : Status
  PC : Addr
deriving DecidableEq, Repr

/-- An address space: what is read at an address, and what a store leaves. -/
structure Space (M : Type) where
  read : M → Addr → Byte
  write : M → Addr → Byte → M

@[ext] structure State (M : Type) where
  cpu : Cpu
  mem : M

def word (low high : Byte) : Addr := high ++ low

/-- The cell of page one `SP` stands for. -/
def stack (SP : Byte) : Addr := 0x0100 + SP.setWidth 16

/-! ## Operations and modes -/

inductive Mode
  | implied | accumulator | immediate | relative | zeroPage | zeroPageX | zeroPageY
  | absolute | absoluteX | absoluteY | indirect | indirectX | indirectY
deriving DecidableEq, Repr

def Mode.length : Mode → Nat
  | .implied | .accumulator => 1
  | .immediate | .relative | .zeroPage | .zeroPageX | .zeroPageY | .indirectX | .indirectY => 2
  | .absolute | .absoluteX | .absoluteY | .indirect => 3

inductive Op
  | lda | ldx | ldy | sta | stx | sty
  | tax | tay | txa | tya | tsx | txs
  | pha | pla | php | plp
  | and | ora | eor | bit | adc | sbc | cmp | cpx | cpy
  | inc | inx | iny | dec | dex | dey
  | asl | lsr | rol | ror
  | jmp | jsr | rts | brk | rti
  | bpl | bmi | bvc | bvs | bcc | bcs | bne | beq
  | clc | sec | cli | sei | clv | cld | sed | nop
deriving DecidableEq, Repr

/-- The operation stores a byte at its address. -/
def Op.stores : Op → Bool
  | .sta | .stx | .sty | .inc | .dec | .asl | .lsr | .rol | .ror => true
  | _ => false

/-- It reads that byte first. -/
def Op.modifies : Op → Bool
  | .inc | .dec | .asl | .lsr | .rol | .ror => true
  | _ => false

def Op.isBranch : Op → Bool
  | .bpl | .bmi | .bvc | .bvs | .bcc | .bcs | .bne | .beq => true
  | _ => false

/-- The flag a branch tests, at the value it tests for. -/
def Op.taken : Op → Status → Bool
  | .bpl, P => !P.N
  | .bmi, P => P.N
  | .bvc, P => !P.V
  | .bvs, P => P.V
  | .bcc, P => !P.C
  | .bcs, P => P.C
  | .bne, P => !P.Z
  | .beq, P => P.Z
  | _, _ => false

/-- The documented cycles of an operation that is not a branch. An index costs one more where it
    leads to another page, and always where the instruction stores. -/
def Op.cycles (op : Op) (m : Mode) (crossed : Bool) : Nat :=
  match op with
  | .brk => 7
  | .jsr | .rts | .rti => 6
  | .pla | .plp => 4
  | .pha | .php => 3
  | .jmp => if m = .indirect then 5 else 3
  | op =>
    match m with
    | .implied | .accumulator | .immediate | .relative => 2
    | .zeroPage => if op.modifies then 5 else 3
    | .zeroPageX | .zeroPageY => if op.modifies then 6 else 4
    | .absolute | .indirect => if op.modifies then 6 else 4
    | .absoluteX | .absoluteY =>
      if op.modifies then 7 else if op.stores || crossed then 5 else 4
    | .indirectX => 6
    | .indirectY => if op.stores || crossed then 6 else 5

/-- The opcodes, row by row. -/
def opcodes : List (Byte × Op × Mode) :=
  [(0x00, .brk, .implied), (0x01, .ora, .indirectX), (0x05, .ora, .zeroPage),
   (0x06, .asl, .zeroPage), (0x08, .php, .implied), (0x09, .ora, .immediate),
   (0x0A, .asl, .accumulator), (0x0D, .ora, .absolute), (0x0E, .asl, .absolute),
   (0x10, .bpl, .relative), (0x11, .ora, .indirectY), (0x15, .ora, .zeroPageX),
   (0x16, .asl, .zeroPageX), (0x18, .clc, .implied), (0x19, .ora, .absoluteY),
   (0x1D, .ora, .absoluteX), (0x1E, .asl, .absoluteX),
   (0x20, .jsr, .absolute), (0x21, .and, .indirectX), (0x24, .bit, .zeroPage),
   (0x25, .and, .zeroPage), (0x26, .rol, .zeroPage), (0x28, .plp, .implied),
   (0x29, .and, .immediate), (0x2A, .rol, .accumulator), (0x2C, .bit, .absolute),
   (0x2D, .and, .absolute), (0x2E, .rol, .absolute),
   (0x30, .bmi, .relative), (0x31, .and, .indirectY), (0x35, .and, .zeroPageX),
   (0x36, .rol, .zeroPageX), (0x38, .sec, .implied), (0x39, .and, .absoluteY),
   (0x3D, .and, .absoluteX), (0x3E, .rol, .absoluteX),
   (0x40, .rti, .implied), (0x41, .eor, .indirectX), (0x45, .eor, .zeroPage),
   (0x46, .lsr, .zeroPage), (0x48, .pha, .implied), (0x49, .eor, .immediate),
   (0x4A, .lsr, .accumulator), (0x4C, .jmp, .absolute), (0x4D, .eor, .absolute),
   (0x4E, .lsr, .absolute),
   (0x50, .bvc, .relative), (0x51, .eor, .indirectY), (0x55, .eor, .zeroPageX),
   (0x56, .lsr, .zeroPageX), (0x58, .cli, .implied), (0x59, .eor, .absoluteY),
   (0x5D, .eor, .absoluteX), (0x5E, .lsr, .absoluteX),
   (0x60, .rts, .implied), (0x61, .adc, .indirectX), (0x65, .adc, .zeroPage),
   (0x66, .ror, .zeroPage), (0x68, .pla, .implied), (0x69, .adc, .immediate),
   (0x6A, .ror, .accumulator), (0x6C, .jmp, .indirect), (0x6D, .adc, .absolute),
   (0x6E, .ror, .absolute),
   (0x70, .bvs, .relative), (0x71, .adc, .indirectY), (0x75, .adc, .zeroPageX),
   (0x76, .ror, .zeroPageX), (0x78, .sei, .implied), (0x79, .adc, .absoluteY),
   (0x7D, .adc, .absoluteX), (0x7E, .ror, .absoluteX),
   (0x81, .sta, .indirectX), (0x84, .sty, .zeroPage), (0x85, .sta, .zeroPage),
   (0x86, .stx, .zeroPage), (0x88, .dey, .implied), (0x8A, .txa, .implied),
   (0x8C, .sty, .absolute), (0x8D, .sta, .absolute), (0x8E, .stx, .absolute),
   (0x90, .bcc, .relative), (0x91, .sta, .indirectY), (0x94, .sty, .zeroPageX),
   (0x95, .sta, .zeroPageX), (0x96, .stx, .zeroPageY), (0x98, .tya, .implied),
   (0x99, .sta, .absoluteY), (0x9A, .txs, .implied), (0x9D, .sta, .absoluteX),
   (0xA0, .ldy, .immediate), (0xA1, .lda, .indirectX), (0xA2, .ldx, .immediate),
   (0xA4, .ldy, .zeroPage), (0xA5, .lda, .zeroPage), (0xA6, .ldx, .zeroPage),
   (0xA8, .tay, .implied), (0xA9, .lda, .immediate), (0xAA, .tax, .implied),
   (0xAC, .ldy, .absolute), (0xAD, .lda, .absolute), (0xAE, .ldx, .absolute),
   (0xB0, .bcs, .relative), (0xB1, .lda, .indirectY), (0xB4, .ldy, .zeroPageX),
   (0xB5, .lda, .zeroPageX), (0xB6, .ldx, .zeroPageY), (0xB8, .clv, .implied),
   (0xB9, .lda, .absoluteY), (0xBA, .tsx, .implied), (0xBC, .ldy, .absoluteX),
   (0xBD, .lda, .absoluteX), (0xBE, .ldx, .absoluteY),
   (0xC0, .cpy, .immediate), (0xC1, .cmp, .indirectX), (0xC4, .cpy, .zeroPage),
   (0xC5, .cmp, .zeroPage), (0xC6, .dec, .zeroPage), (0xC8, .iny, .implied),
   (0xC9, .cmp, .immediate), (0xCA, .dex, .implied), (0xCC, .cpy, .absolute),
   (0xCD, .cmp, .absolute), (0xCE, .dec, .absolute),
   (0xD0, .bne, .relative), (0xD1, .cmp, .indirectY), (0xD5, .cmp, .zeroPageX),
   (0xD6, .dec, .zeroPageX), (0xD8, .cld, .implied), (0xD9, .cmp, .absoluteY),
   (0xDD, .cmp, .absoluteX), (0xDE, .dec, .absoluteX),
   (0xE0, .cpx, .immediate), (0xE1, .sbc, .indirectX), (0xE4, .cpx, .zeroPage),
   (0xE5, .sbc, .zeroPage), (0xE6, .inc, .zeroPage), (0xE8, .inx, .implied),
   (0xE9, .sbc, .immediate), (0xEA, .nop, .implied), (0xEC, .cpx, .absolute),
   (0xED, .sbc, .absolute), (0xEE, .inc, .absolute),
   (0xF0, .beq, .relative), (0xF1, .sbc, .indirectY), (0xF5, .sbc, .zeroPageX),
   (0xF6, .inc, .zeroPageX), (0xF8, .sed, .implied), (0xF9, .sbc, .absoluteY),
   (0xFD, .sbc, .absoluteX), (0xFE, .inc, .absoluteX)]

def decode (v : Byte) : Option (Op × Mode) := (opcodes.find? fun e => e.1 == v).map (·.2)

/-! ## Arithmetic -/

/-- `v` in `A`, and the flags from it. -/
def Cpu.loadA (cpu : Cpu) (v : Byte) : Cpu := { cpu with A := v, P := cpu.P.nz v }
def Cpu.loadX (cpu : Cpu) (v : Byte) : Cpu := { cpu with X := v, P := cpu.P.nz v }
def Cpu.loadY (cpu : Cpu) (v : Byte) : Cpu := { cpu with Y := v, P := cpu.P.nz v }

/-- `v` and the carry added to `A`, in binary: `D` is not looked at. -/
def Cpu.add (cpu : Cpu) (v : Byte) : Cpu :=
  let sum := cpu.A.toNat + v.toNat + cpu.P.C.toNat
  let signed := cpu.A.toInt + v.toInt + cpu.P.C.toNat
  { cpu.loadA (.ofNat 8 sum) with
    P := { cpu.P.nz (.ofNat 8 sum) with
      C := decide (256 ≤ sum)
      V := decide (signed < -128 ∨ 128 ≤ signed) } }

/-- A register compared with `v`. -/
def Status.compare (P : Status) (r v : Byte) : Status :=
  { P.nz (r - v) with C := decide (v.toNat ≤ r.toNat) }

/-- A shift of `v`: the byte, and the bit shifted out. -/
def Op.shift (op : Op) (C : Bool) (v : Byte) : Byte × Bool :=
  match op with
  | .asl => (v <<< 1, v.getLsbD 7)
  | .rol => ((v <<< 1) ||| (if C then 0x01 else 0x00), v.getLsbD 7)
  | .lsr => (v >>> 1, v.getLsbD 0)
  | .ror => ((v >>> 1) ||| (if C then 0x80 else 0x00), v.getLsbD 0)
  | _ => (v, C)

/-! ## Operands -/

section Exec

variable {M : Type} (S : Space M)

/-- The word at an address. -/
def Space.word (mem : M) (a : Addr) : Addr := Isa.word (S.read mem a) (S.read mem (a + 1))

/-- The word at `v` in page zero, wrapping around. -/
def Space.pointer (mem : M) (v : Byte) : Addr :=
  Isa.word (S.read mem (v.setWidth 16)) (S.read mem ((v + 1).setWidth 16))

/-- The word at an address, its second byte from the same page. -/
def Space.wordInPage (mem : M) (a : Addr) : Addr :=
  Isa.word (S.read mem a)
    (S.read mem (a.extractLsb' 8 8 ++ (a.extractLsb' 0 8 + 1)))

/-- What is written after the opcode: a byte, a word, or for a branch its target. -/
def Space.operand (m : Mode) (s : State M) : Addr :=
  let p := s.cpu.PC
  match m with
  | .implied | .accumulator => 0
  | .relative => p + 2 + (S.read s.mem (p + 1)).signExtend 16
  | .immediate | .zeroPage | .zeroPageX | .zeroPageY | .indirectX | .indirectY =>
    (S.read s.mem (p + 1)).setWidth 16
  | .absolute | .absoluteX | .absoluteY | .indirect => S.word s.mem (p + 1)

variable (m : Mode) (arg : Addr) (s : State M)

/-- The address an index register is added to. -/
def Space.base : Addr :=
  match m with
  | .indirectY => S.pointer s.mem (arg.setWidth 8)
  | _ => arg

/-- The address the instruction works on. -/
def Space.address : Addr :=
  match m with
  | .zeroPageX => (arg.setWidth 8 + s.cpu.X).setWidth 16
  | .zeroPageY => (arg.setWidth 8 + s.cpu.Y).setWidth 16
  | .absoluteX => arg + s.cpu.X.setWidth 16
  | .absoluteY => arg + s.cpu.Y.setWidth 16
  | .indirectX => S.pointer s.mem (arg.setWidth 8 + s.cpu.X)
  | .indirectY => S.pointer s.mem (arg.setWidth 8) + s.cpu.Y.setWidth 16
  | _ => arg

/-- The byte the instruction works on. -/
def Space.value : Byte :=
  match m with
  | .accumulator => s.cpu.A
  | .immediate => arg.setWidth 8
  | m => S.read s.mem (S.address m arg s)

/-- The byte `k` cells above the stack pointer. -/
def Space.pulled (k : Nat) : Byte := S.read s.mem (stack (s.cpu.SP + .ofNat 8 k))

/-! ## Execution -/

/-- The bytes an instruction stores, in order. -/
def Space.writes (op : Op) : List (Addr × Byte) :=
  let cpu := s.cpu
  let ea := S.address m arg s
  let v := S.value m arg s
  let next := cpu.PC + 2
  match op with
  | .sta => [(ea, cpu.A)]
  | .stx => [(ea, cpu.X)]
  | .sty => [(ea, cpu.Y)]
  | .inc => [(ea, v + 1)]
  | .dec => [(ea, v - 1)]
  | .asl | .lsr | .rol | .ror =>
    if m = .accumulator then [] else [(ea, (op.shift cpu.P.C v).1)]
  | .pha => [(stack cpu.SP, cpu.A)]
  | .php => [(stack cpu.SP, cpu.P.pushed)]
  | .jsr =>
    [(stack cpu.SP, next.extractLsb' 8 8), (stack (cpu.SP - 1), next.extractLsb' 0 8)]
  | .brk =>
    [(stack cpu.SP, next.extractLsb' 8 8), (stack (cpu.SP - 1), next.extractLsb' 0 8),
     (stack (cpu.SP - 2), cpu.P.pushed)]
  | _ => []

/-- The memory after stores. -/
def Space.store (mem : M) (ws : List (Addr × Byte)) : M :=
  ws.foldl (fun mem w => S.write mem w.1 w.2) mem

/-- The registers and flags after an instruction. The vector of a break is read after its
    pushes. -/
def Space.after (op : Op) : Cpu :=
  let cpu := s.cpu
  let v := S.value m arg s
  let next := { cpu with PC := cpu.PC + .ofNat 16 m.length }
  match op with
  | .lda => next.loadA v
  | .ldx => next.loadX v
  | .ldy => next.loadY v
  | .sta | .stx | .sty | .nop => next
  | .tax => next.loadX cpu.A
  | .tay => next.loadY cpu.A
  | .txa => next.loadA cpu.X
  | .tya => next.loadA cpu.Y
  | .tsx => next.loadX cpu.SP
  | .txs => { next with SP := cpu.X }
  | .pha | .php => { next with SP := cpu.SP - 1 }
  | .pla => { next.loadA (S.pulled s 1) with SP := cpu.SP + 1 }
  | .plp => { next with SP := cpu.SP + 1, P := .ofByte (S.pulled s 1) }
  | .and => next.loadA (cpu.A &&& v)
  | .ora => next.loadA (cpu.A ||| v)
  | .eor => next.loadA (cpu.A ^^^ v)
  | .bit =>
    { next with P := { cpu.P with Z := cpu.A &&& v == 0, N := v.getLsbD 7, V := v.getLsbD 6 } }
  | .adc => next.add v
  | .sbc => next.add (~~~v)
  | .cmp => { next with P := cpu.P.compare cpu.A v }
  | .cpx => { next with P := cpu.P.compare cpu.X v }
  | .cpy => { next with P := cpu.P.compare cpu.Y v }
  | .inc => { next with P := cpu.P.nz (v + 1) }
  | .dec => { next with P := cpu.P.nz (v - 1) }
  | .inx => next.loadX (cpu.X + 1)
  | .iny => next.loadY (cpu.Y + 1)
  | .dex => next.loadX (cpu.X - 1)
  | .dey => next.loadY (cpu.Y - 1)
  | .asl | .lsr | .rol | .ror =>
    let r := op.shift cpu.P.C v
    { next with
      A := if m = .accumulator then r.1 else cpu.A
      P := { cpu.P.nz r.1 with C := r.2 } }
  | .jmp => { cpu with PC := if m = .indirect then S.wordInPage s.mem arg else arg }
  | .jsr => { cpu with PC := arg, SP := cpu.SP - 2 }
  | .rts => { cpu with PC := Isa.word (S.pulled s 1) (S.pulled s 2) + 1, SP := cpu.SP + 2 }
  | .brk =>
    { cpu with
      PC := S.word (S.store s.mem (S.writes m arg s op)) 0xFFFE
      SP := cpu.SP - 3
      P.I := true }
  | .rti =>
    { cpu with
      PC := Isa.word (S.pulled s 2) (S.pulled s 3)
      SP := cpu.SP + 3
      P := .ofByte (S.pulled s 1) }
  | .bpl | .bmi | .bvc | .bvs | .bcc | .bcs | .bne | .beq =>
    if op.taken cpu.P then { cpu with PC := arg } else next
  | .clc => { next with P.C := false }
  | .sec => { next with P.C := true }
  | .cli => { next with P.I := false }
  | .sei => { next with P.I := true }
  | .clv => { next with P.V := false }
  | .cld => { next with P.D := false }
  | .sed => { next with P.D := true }

def Space.exec (op : Op) : State M := ⟨S.after m arg s op, S.store s.mem (S.writes m arg s op)⟩

/-- The indexed address is on another page than the one the index is added to. -/
def Space.crossed : Bool := (S.base m arg s).toNat / 256 != (S.address m arg s).toNat / 256

/-- The documented cycles. -/
def Space.cycles (op : Op) : Nat :=
  if op.isBranch then
    if op.taken s.cpu.P then
      if arg.toNat / 256 = (s.cpu.PC + 2).toNat / 256 then 3 else 4
    else 2
  else op.cycles m (S.crossed m arg s)

end Exec

/-! ## Steps -/

/-- An instruction as it is written. -/
structure Line where
  op : Op
  mode : Mode
  arg : Addr
deriving DecidableEq, Repr

section Step

variable {M : Type} (S : Space M)

/-- The instruction at `PC`, if there is one. -/
def Space.line? (s : State M) : Option Line :=
  (decode (S.read s.mem s.cpu.PC)).map fun e => ⟨e.1, e.2, S.operand e.2 s⟩

def Space.exec₁ (l : Line) (s : State M) : State M := S.exec l.mode l.arg s l.op

def Space.step (s : State M) : Option (State M) := (S.line? s).map fun l => S.exec₁ l s

end Step

end Lib.Isa
