import M6502.Lib.IsaRun
import M6502.Memory

/-!
# The program in the image (`program.h`, `fibonacci.s`)

The bytes of `PROGMEM`, and the lines they are the assembly of, under the source's labels.
-/

set_option autoImplicit false

namespace M6502

open Lib Isa

namespace Fibonacci

/-! ## The image -/

/-- The first bytes of `PROGMEM`. -/
def programBytes : List U8 :=
  [0xA2, 0x01, 0x86, 0x00, 0x38, 0xA0, 0x0D, 0x98, 0xE9, 0x03, 0xA8, 0x18, 0xA9, 0x02, 0x85, 0x01,
   0xA6, 0x01, 0x65, 0x00, 0x85, 0x01, 0x86, 0x00, 0x88, 0xD0, 0xF5, 0x8A, 0xC9, 0xE9, 0xF0, 0x01,
   0x00, 0x4C, 0x21, 0x80]

/-- The last six: the vectors of NMI, RESET and IRQ. -/
def vectors : List U8 := [0x21, 0x80, 0x00, 0x80, 0x21, 0x80]

/-- `PROGMEM`; the bytes between are zero. -/
def program : Progmem := fun i =>
  if 0x7FFA ≤ i.val then vectors.getD (i - 0x7FFA) 0 else programBytes.getD i 0

/-! ## The program -/

def start : Addr := 0x8000
def loop : Addr := 0x8010
def compare : Addr := 0x801B
def irq : Addr := 0x8021

/-- The lines up to the subtraction, from there to `loop`, and from `loop` on. -/
def before : List Line :=
  [.imm .ldx 0x01, .zp .stx 0x00, .imp .sec, .imm .ldy 0x0D, .imp .tya]
def after : List Line := [.imp .tay, .imp .clc, .imm .lda 0x02, .zp .sta 0x01]
def rest : List Line :=
  [.zp .ldx 0x01, .zp .adc 0x00, .zp .sta 0x01, .zp .stx 0x00, .imp .dey, .br .bne loop,
   .imp .txa, .imm .cmp 0xE9, .br .beq irq, .imp .brk]

/-- All but the last, `JMP irq`. -/
def lines : List Line := before ++ [.imm .sbc 0x03] ++ after ++ rest

def code : List (Addr × Line) := listing start lines

/-- The image is the assembly. -/
example : assemble start (lines ++ [.abs .jmp irq]) = programBytes := by decide +kernel

end Fibonacci

end M6502
