import M6502.System

/-!
# The monitor and its host (`main.c`, `custom_wozmon.s`)

The host hands the monitor a character through two memory cells: it stores the character in
`ACIA_DATA` and then a status byte in `ACIA_STATUS`. The monitor waits for it in a loop at
`NEXTCHAR`. Neither side acknowledges anything to the other.
-/

set_option autoImplicit false

namespace M6502

variable {b : Build}

def aciaData : U16 := 0x4100
def aciaStatus : U16 := 0x4101

/-- The two stores `wozmon_command` makes for a character to write. -/
def postCharacter (mem : Memory b) (c : U8) : Option (Memory b) := do
  let mem ← busWriteByte mem aciaData c
  busWriteByte mem aciaStatus 0x10

/-- `IN` -/
def inBuffer : U16 := 0x0200

/-- `NEXTCHAR`, assembled. -/
def nextChar : List U8 :=
  [0xAD, 0x01, 0x41,   -- LDA ACIA_STATUS
   0x29, 0x08,         -- AND #$08
   0xF0, 0xF9,         -- BEQ NEXTCHAR
   0xAD, 0x00, 0x41,   -- LDA ACIA_DATA
   0x99, 0x00, 0x02]   -- STA IN,Y

end M6502
