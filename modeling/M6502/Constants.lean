import M6502.Memory

/-!
# The opcode table (`include/olc6502_constants.h`)

The 151 opcodes the header names, and the vectors. `switch (opcode)` on the named
constants is a match on `Ins` after `Ins.ofOpcode?`, which answers `none` at the 105
bytes the header does not name.
-/

set_option autoImplicit false

namespace M6502

def resetVector : U16 := 0xFFFC
def irqVector : U16 := 0xFFFE
def stackBase : U16 := 0x0100

/-- The opcodes named `INS_*`. -/
inductive Ins
  | ldaIm | ldaZp | ldaZpx | ldaAbs | ldaAbsx | ldaAbsy | ldaIndx | ldaIndy
  | ldxIm | ldxZp | ldxZpy | ldxAbs | ldxAbsy
  | ldyIm | ldyZp | ldyZpx | ldyAbs | ldyAbsx
  | staZp | staZpx | staAbs | staAbsx | staAbsy | staIndx | staIndy
  | stxZp | stxZpy | stxAbs
  | styZp | styZpx | styAbs
  | tsx | txs | pha | pla | php | plp
  | jmpAbs | jmpInd
  | jsr | rts
  | andIm | andZp | andZpx | andAbs | andAbsx | andAbsy | andIndx | andIndy
  | oraIm | oraZp | oraZpx | oraAbs | oraAbsx | oraAbsy | oraIndx | oraIndy
  | eorIm | eorZp | eorZpx | eorAbs | eorAbsx | eorAbsy | eorIndx | eorIndy
  | bitZp | bitAbs
  | tax | tay | txa | tya | inx | iny | dey | dex
  | decZp | decZpx | decAbs | decAbsx
  | incZp | incZpx | incAbs | incAbsx
  | beq | bne | bcs | bcc | bmi | bpl | bvc | bvs | clc | sec | cld | sed | cli | sei | clv
  | adcIm | adcZp | adcZpx | adcAbs | adcAbsx | adcAbsy | adcIndx | adcIndy
  | sbcIm | sbcAbs | sbcZp | sbcZpx | sbcAbsx | sbcAbsy | sbcIndx | sbcIndy
  | cmpIm | cmpZp | cmpZpx | cmpAbs | cmpAbsx | cmpAbsy | cmpIndx | cmpIndy
  | cpxIm | cpyIm | cpxZp | cpyZp | cpxAbs | cpyAbs
  | aslA | aslZp | aslZpx | aslAbs | aslAbsx
  | lsrA | lsrZp | lsrZpx | lsrAbs | lsrAbsx
  | rolA | rolZp | rolZpx | rolAbs | rolAbsx
  | rorA | rorZp | rorZpx | rorAbs | rorAbsx
  | nop | brk | rti
deriving DecidableEq

/-- The byte each name is defined as. -/
def Ins.opcode : Ins → U8
  | .ldaIm => 0xA9 | .ldaZp => 0xA5 | .ldaZpx => 0xB5 | .ldaAbs => 0xAD | .ldaAbsx => 0xBD
  | .ldaAbsy => 0xB9 | .ldaIndx => 0xA1 | .ldaIndy => 0xB1
  | .ldxIm => 0xA2 | .ldxZp => 0xA6 | .ldxZpy => 0xB6 | .ldxAbs => 0xAE | .ldxAbsy => 0xBE
  | .ldyIm => 0xA0 | .ldyZp => 0xA4 | .ldyZpx => 0xB4 | .ldyAbs => 0xAC | .ldyAbsx => 0xBC
  | .staZp => 0x85 | .staZpx => 0x95 | .staAbs => 0x8D | .staAbsx => 0x9D | .staAbsy => 0x99
  | .staIndx => 0x81 | .staIndy => 0x91
  | .stxZp => 0x86 | .stxZpy => 0x96 | .stxAbs => 0x8E
  | .styZp => 0x84 | .styZpx => 0x94 | .styAbs => 0x8C | .tsx => 0xBA | .txs => 0x9A
  | .pha => 0x48 | .pla => 0x68 | .php => 0x08 | .plp => 0x28
  | .jmpAbs => 0x4C | .jmpInd => 0x6C | .jsr => 0x20 | .rts => 0x60
  | .andIm => 0x29 | .andZp => 0x25 | .andZpx => 0x35 | .andAbs => 0x2D | .andAbsx => 0x3D
  | .andAbsy => 0x39 | .andIndx => 0x21 | .andIndy => 0x31
  | .oraIm => 0x09 | .oraZp => 0x05 | .oraZpx => 0x15 | .oraAbs => 0x0D | .oraAbsx => 0x1D
  | .oraAbsy => 0x19 | .oraIndx => 0x01 | .oraIndy => 0x11
  | .eorIm => 0x49 | .eorZp => 0x45 | .eorZpx => 0x55 | .eorAbs => 0x4D | .eorAbsx => 0x5D
  | .eorAbsy => 0x59 | .eorIndx => 0x41 | .eorIndy => 0x51
  | .bitZp => 0x24 | .bitAbs => 0x2C | .tax => 0xAA | .tay => 0xA8 | .txa => 0x8A
  | .tya => 0x98 | .inx => 0xE8 | .iny => 0xC8 | .dey => 0x88 | .dex => 0xCA
  | .decZp => 0xC6 | .decZpx => 0xD6 | .decAbs => 0xCE | .decAbsx => 0xDE
  | .incZp => 0xE6 | .incZpx => 0xF6 | .incAbs => 0xEE | .incAbsx => 0xFE | .beq => 0xF0
  | .bne => 0xD0 | .bcs => 0xB0 | .bcc => 0x90 | .bmi => 0x30 | .bpl => 0x10
  | .bvc => 0x50 | .bvs => 0x70 | .clc => 0x18 | .sec => 0x38 | .cld => 0xD8
  | .sed => 0xF8 | .cli => 0x58 | .sei => 0x78 | .clv => 0xB8
  | .adcIm => 0x69 | .adcZp => 0x65 | .adcZpx => 0x75 | .adcAbs => 0x6D | .adcAbsx => 0x7D
  | .adcAbsy => 0x79 | .adcIndx => 0x61 | .adcIndy => 0x71
  | .sbcIm => 0xE9 | .sbcAbs => 0xED | .sbcZp => 0xE5 | .sbcZpx => 0xF5 | .sbcAbsx => 0xFD
  | .sbcAbsy => 0xF9 | .sbcIndx => 0xE1 | .sbcIndy => 0xF1
  | .cmpIm => 0xC9 | .cmpZp => 0xC5 | .cmpZpx => 0xD5 | .cmpAbs => 0xCD | .cmpAbsx => 0xDD
  | .cmpAbsy => 0xD9 | .cmpIndx => 0xC1 | .cmpIndy => 0xD1 | .cpxIm => 0xE0 | .cpyIm => 0xC0
  | .cpxZp => 0xE4 | .cpyZp => 0xC4 | .cpxAbs => 0xEC | .cpyAbs => 0xCC
  | .aslA => 0x0A | .aslZp => 0x06 | .aslZpx => 0x16 | .aslAbs => 0x0E | .aslAbsx => 0x1E
  | .lsrA => 0x4A | .lsrZp => 0x46 | .lsrZpx => 0x56 | .lsrAbs => 0x4E | .lsrAbsx => 0x5E
  | .rolA => 0x2A | .rolZp => 0x26 | .rolZpx => 0x36 | .rolAbs => 0x2E | .rolAbsx => 0x3E
  | .rorA => 0x6A | .rorZp => 0x66 | .rorZpx => 0x76 | .rorAbs => 0x6E | .rorAbsx => 0x7E
  | .nop => 0xEA | .brk => 0x00 | .rti => 0x40

def Ins.all : List Ins :=
  [.ldaIm, .ldaZp, .ldaZpx, .ldaAbs, .ldaAbsx, .ldaAbsy, .ldaIndx, .ldaIndy, .ldxIm, .ldxZp,
   .ldxZpy, .ldxAbs, .ldxAbsy, .ldyIm, .ldyZp, .ldyZpx, .ldyAbs, .ldyAbsx, .staZp, .staZpx,
   .staAbs, .staAbsx, .staAbsy, .staIndx, .staIndy, .stxZp, .stxZpy, .stxAbs, .styZp, .styZpx,
   .styAbs, .tsx, .txs, .pha, .pla, .php, .plp, .jmpAbs, .jmpInd, .jsr, .rts, .andIm, .andZp,
   .andZpx, .andAbs, .andAbsx, .andAbsy, .andIndx, .andIndy, .oraIm, .oraZp, .oraZpx, .oraAbs,
   .oraAbsx, .oraAbsy, .oraIndx, .oraIndy, .eorIm, .eorZp, .eorZpx, .eorAbs, .eorAbsx, .eorAbsy,
   .eorIndx, .eorIndy, .bitZp, .bitAbs, .tax, .tay, .txa, .tya, .inx, .iny, .dey, .dex, .decZp,
   .decZpx, .decAbs, .decAbsx, .incZp, .incZpx, .incAbs, .incAbsx, .beq, .bne, .bcs, .bcc, .bmi,
   .bpl, .bvc, .bvs, .clc, .sec, .cld, .sed, .cli, .sei, .clv, .adcIm, .adcZp, .adcZpx, .adcAbs,
   .adcAbsx, .adcAbsy, .adcIndx, .adcIndy, .sbcIm, .sbcAbs, .sbcZp, .sbcZpx, .sbcAbsx, .sbcAbsy,
   .sbcIndx, .sbcIndy, .cmpIm, .cmpZp, .cmpZpx, .cmpAbs, .cmpAbsx, .cmpAbsy, .cmpIndx, .cmpIndy,
   .cpxIm, .cpyIm, .cpxZp, .cpyZp, .cpxAbs, .cpyAbs, .aslA, .aslZp, .aslZpx, .aslAbs, .aslAbsx,
   .lsrA, .lsrZp, .lsrZpx, .lsrAbs, .lsrAbsx, .rolA, .rolZp, .rolZpx, .rolAbs, .rolAbsx, .rorA,
   .rorZp, .rorZpx, .rorAbs, .rorAbsx, .nop, .brk, .rti]

/-- The name of an opcode byte, if the header gives it one. -/
def Ins.ofOpcode? (opcode : U8) : Option Ins := Ins.all.find? fun i => i.opcode == opcode

theorem Ins.mem_all (i : Ins) : i ∈ Ins.all := by
  cases i <;> decide +kernel

theorem Ins.opcode_of_ofOpcode? {opcode : U8} {i : Ins} (h : Ins.ofOpcode? opcode = some i) :
    opcode = i.opcode := by
  have := List.find?_some h
  exact (beq_iff_eq.mp this).symm

/-- The header gives no byte two names. -/
theorem Ins.ofOpcode?_opcode (i : Ins) : Ins.ofOpcode? i.opcode = some i := by
  have hall : ∀ i ∈ Ins.all, Ins.ofOpcode? i.opcode = some i := by decide +kernel
  exact hall i i.mem_all

end M6502
