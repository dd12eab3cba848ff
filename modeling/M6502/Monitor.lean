import M6502.Lib.IsaRun
import M6502.Wozmon

/-!
# The monitor (`custom_wozmon.s`)

The program from `.org $ff00` on, line by line under the source's labels, and `IN` and the cells
of page zero it works on. `monitorCode` is its assembly. The `.org $8000` part is the Fibonacci
program without its last branch, and is not modelled.
-/

set_option autoImplicit false

namespace M6502

open Lib Isa

namespace Monitor

/-! ## Variables -/

def XAML : Addr := 0x24
def XAMH : Addr := 0x25
def STL : Addr := 0x26
def STH : Addr := 0x27
def L : Addr := 0x28
def H : Addr := 0x29
def YSAV : Addr := 0x2A
def MODE : Addr := 0x2B

/-! ## Labels -/

def IRQ : Addr := 0xFF00
def RESET : Addr := 0xFF03
def NOTCR : Addr := 0xFF05
def ESCAPE : Addr := 0xFF10
def GETLINE : Addr := 0xFF15
def BACKSPACE : Addr := 0xFF1C
def NEXTCHAR : Addr := 0xFF1F
def SETBLOCK : Addr := 0xFF38
def SETSTOR : Addr := 0xFF39
def BLSKIP : Addr := 0xFF3C
def NEXTITEM : Addr := 0xFF3D
def NEXTHEX : Addr := 0xFF58
def DIG : Addr := 0xFF67
def HEXSHIFT : Addr := 0xFF6D
def NOTHEX : Addr := 0xFF78
def TONEXTITEM : Addr := 0xFF8A
def RUN : Addr := 0xFF8D
def NOTSTOR : Addr := 0xFF90
def SETADR : Addr := 0xFF94
def NXTPRNT : Addr := 0xFF9D
def PRDATA : Addr := 0xFFB3
def XAMNEXT : Addr := 0xFFBD
def MOD8CHK : Addr := 0xFFCF
def PRBYTE : Addr := 0xFFD5
def PRHEX : Addr := 0xFFDE
def ECHO : Addr := 0xFFE8

/-! ## The program -/

/-- What prints a byte, label by label. -/
def printing : List (Addr × List Line) :=
  [(PRBYTE, [.imp .pha, .acc .lsr, .acc .lsr, .acc .lsr, .acc .lsr, .abs .jsr PRHEX, .imp .pla]),
   (PRHEX, [.imm .and 0x0F, .imm .ora 0x30, .imm .cmp 0x3A, .br .bcc ECHO, .imm .adc 0x06]),
   (ECHO, [.imp .pha, .abs .sta aciaData, .imp .pla, .imp .rts])]

/-- The loop over the bytes examined, and what it calls. -/
def examining : List (Addr × List Line) :=
  [(NXTPRNT, [.br .bne PRDATA, .imm .lda 0x0D, .abs .jsr ECHO, .zp .lda XAMH, .abs .jsr PRBYTE,
     .zp .lda XAML, .abs .jsr PRBYTE, .imm .lda 0x3A, .abs .jsr ECHO]),
   (PRDATA, [.imm .lda 0x20, .abs .jsr ECHO, .indX .lda XAML, .abs .jsr PRBYTE]),
   (XAMNEXT, [.zp .stx MODE, .zp .lda XAML, .zp .cmp L, .zp .lda XAMH, .zp .sbc H,
     .br .bcs TONEXTITEM, .zp .inc XAML, .br .bne MOD8CHK, .zp .inc XAMH]),
   (MOD8CHK, [.zp .lda XAML, .imm .and 0x07, .br .bpl NXTPRNT])] ++ printing

/-- The program. -/
def blocks : List (Addr × List Line) :=
  [(IRQ, [.abs .jmp IRQ]),
   (RESET, [.imm .lda 0x1B]),
   (NOTCR, [.imm .cmp 0x08, .br .beq BACKSPACE, .imm .cmp 0x1B, .br .beq ESCAPE, .imp .iny,
     .br .bpl NEXTCHAR]),
   (ESCAPE, [.imm .lda 0x5C, .abs .jsr ECHO]),
   (GETLINE, [.imm .lda 0x0D, .abs .jsr ECHO, .imm .ldy 0x01]),
   (BACKSPACE, [.imp .dey, .br .bmi GETLINE]),
   (NEXTCHAR, [.abs .lda aciaStatus, .imm .and 0x08, .br .beq NEXTCHAR, .abs .lda aciaData,
     .absY .sta inBuffer, .abs .jsr ECHO, .imm .cmp 0x0D, .br .bne NOTCR, .imm .ldy 0xFF,
     .imm .lda 0x00, .imp .tax]),
   (SETBLOCK, [.acc .asl]),
   (SETSTOR, [.acc .asl, .zp .sta MODE]),
   (BLSKIP, [.imp .iny]),
   (NEXTITEM, [.absY .lda inBuffer, .imm .cmp 0x0D, .br .beq GETLINE, .imm .cmp 0x2E,
     .br .bcc BLSKIP, .br .beq SETBLOCK, .imm .cmp 0x3A, .br .beq SETSTOR, .imm .cmp 0x52,
     .br .beq RUN, .zp .stx L, .zp .stx H, .zp .sty YSAV]),
   (NEXTHEX, [.absY .lda inBuffer, .imm .eor 0x30, .imm .cmp 0x0A, .br .bcc DIG, .imm .adc 0x88,
     .imm .cmp 0xFA, .br .bcc NOTHEX]),
   (DIG, [.acc .asl, .acc .asl, .acc .asl, .acc .asl, .imm .ldx 0x04]),
   (HEXSHIFT, [.acc .asl, .zp .rol L, .zp .rol H, .imp .dex, .br .bne HEXSHIFT, .imp .iny,
     .br .bne NEXTHEX]),
   (NOTHEX, [.zp .cpy YSAV, .br .beq ESCAPE, .zp .bit MODE, .br .bvc NOTSTOR, .zp .lda L,
     .indX .sta STL, .zp .inc STL, .br .bne NEXTITEM, .zp .inc STH]),
   (TONEXTITEM, [.abs .jmp NEXTITEM]),
   (RUN, [.ind .jmp XAML]),
   (NOTSTOR, [.br .bmi XAMNEXT, .imm .ldx 0x02]),
   (SETADR, [.zpX .lda (L - 1), .zpX .sta (STL - 1), .zpX .sta (XAML - 1), .imp .dex,
     .br .bne SETADR])] ++ examining

def lines : List Line := blocks.flatMap (·.2)

/-- The lines, each with its address: of the program, and of its last parts. -/
def code : List (Addr × Line) := listing IRQ lines
def examineCode : List (Addr × Line) := listing NXTPRNT (examining.flatMap (·.2))
def printCode : List (Addr × Line) := listing PRBYTE (printing.flatMap (·.2))

/-- The bytes the assembler makes of them, from `.org $ff00` on. -/
def monitorCode : List U8 := assemble IRQ lines

/-- Each block stands where its label says. -/
example :
    (blocks.scanl (fun a bl => a + (bl.2.map fun l => l.mode.length).sum) IRQ.toNat).dropLast =
    blocks.map fun bl => bl.1.toNat := by
  decide +kernel

end Monitor

end M6502
