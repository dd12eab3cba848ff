import M6502.Memory

/-!
# The 74LS138 address decoder (`ti74ls138.h`, `ti74ls138.c`)

The decoder turns a 16-bit bus address into an index of the memory array or of the
program image. The chip-enable line it latches in `dev->CE` is read by nothing but the
switch that follows, so it is a value returned here and not a state.
-/

set_option autoImplicit false

namespace M6502

/-- `ce_lines_t` -/
inductive CeLine
  | cpuRam | ppu | expansion | sram | prgRom0 | prgRom1 | prgRom2 | prgRom3
deriving DecidableEq, Repr

/-- `(ce_lines_t)address_bits`, the value kept by the three-bit field `CE`. -/
def CeLine.ofBits (address_bits : U16) : CeLine :=
  match address_bits.toNat with
  | 0 => .cpuRam
  | 1 => .ppu
  | 2 => .expansion
  | 3 => .sram
  | 4 => .prgRom0
  | 5 => .prgRom1
  | 6 => .prgRom2
  | _ => .prgRom3

def chipSelectCpuRam (virtual_address : U16) : U16 := virtual_address &&& 0x07FF

def chipSelectPpu (virtual_address : U16) : U16 := (virtual_address &&& 0x2007) - 0x2000

def chipSelectApu (virtual_address : U16) : U16 := virtual_address - 0x4000

def chipSelectExpansionRom (virtual_address : U16) : U16 :=
  if virtual_address ≥ 0x4000 ∧ virtual_address ≤ 0x401F then chipSelectApu virtual_address
  else virtual_address - 0x4000

def chipSelectSram (virtual_address : U16) : U16 := virtual_address - 0x6000

def chipSelectPrgRom (virtual_address : U16) : U16 := virtual_address - 0x8000

/-- The line enabled by `decode_address`, and the hardware address it returns. -/
structure Decoded where
  CE : CeLine
  hwAddr : U16
deriving DecidableEq

def decodeAddress (b : Build) (emulated_address : U16) : Decoded :=
  let CE := CeLine.ofBits ((emulated_address >>> 13) &&& 0x07)
  { CE
    hwAddr := match CE with
      | .cpuRam => chipSelectCpuRam emulated_address
      | .ppu => chipSelectPpu emulated_address + BitVec.ofNat 16 m6502RamSize
      | .expansion =>
        chipSelectExpansionRom emulated_address
          + BitVec.ofNat 16 (m6502RamSize + ppuRegistersSize)
      | .sram =>
        chipSelectSram emulated_address
          + BitVec.ofNat 16 (m6502RamSize + ppuRegistersSize + expansionRomSize b)
      | .prgRom0 | .prgRom1 | .prgRom2 | .prgRom3 => chipSelectPrgRom emulated_address }

/-- `(high << 8) | low` -/
def word (low high : U8) : U16 := (high.setWidth 16 <<< 8) ||| low.setWidth 16

section Bus

variable {b : Build} (PROGMEM : Progmem)

def busWriteByte (mem : Memory b) (address : U16) (value : U8) : Option (Memory b) :=
  memorySet mem (decodeAddress b address).hwAddr value

def busReadByte (mem : Memory b) (address : U16) : Option U8 :=
  let read_addr := (decodeAddress b address).hwAddr
  if address ≥ 0x8000 then progmemGet PROGMEM read_addr.toNat else memoryGet mem read_addr

def busWriteWord (mem : Memory b) (address value : U16) : Option (Memory b) := do
  let write_addr := (decodeAddress b address).hwAddr
  let mem ← memorySet mem write_addr (value.setWidth 8)
  memorySet mem (write_addr + 1) ((value >>> 8).setWidth 8)

def busReadWord (mem : Memory b) (address : U16) : Option U16 := do
  let read_addr := (decodeAddress b address).hwAddr
  if address ≥ 0x8000 then
    let low ← progmemGet PROGMEM read_addr.toNat
    let high ← progmemGet PROGMEM (read_addr.toNat + 1)
    return word low high
  else
    let low ← memoryGet mem read_addr
    let high ← memoryGet mem (read_addr + 1)
    return word low high

end Bus

end M6502
