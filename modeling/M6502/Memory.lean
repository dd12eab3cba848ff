import Mathlib.Logic.Function.Basic

/-!
# The memory behind the bus (`memory.h`, `memory.c`)

One array holds CPU RAM, the PPU registers, the expansion area and the SRAM; how long it
is depends on a build macro. Indexing it past its end is undefined in C, so an access
here answers `none` there.
-/

set_option autoImplicit false

namespace M6502

/-- `uint8_t` -/
abbrev U8 := BitVec 8
/-- `uint16_t` -/
abbrev U16 := BitVec 16

/-- A build of the program: whether `NES_USE_EXPANSION_ROM` is defined. -/
structure Build where
  nesUseExpansionRom : Bool
deriving DecidableEq

def memoryMaxSize : Nat := 1024 * 64
def m6502RamSize : Nat := 0x800
def ppuRegistersSize : Nat := 0x8
def expansionRomSize (b : Build) : Nat := if b.nesUseExpansionRom then 0x2000 else 0x0000
def sramSize : Nat := 0x2000
def totalMemorySize (b : Build) : Nat :=
  m6502RamSize + ppuRegistersSize + expansionRomSize b + sramSize

/-- `memory_t` -/
@[ext] structure Memory (b : Build) where
  data : Fin (totalMemorySize b) → U8

variable {b : Build}

/-- `memory_init`: the status it returns, and the memory it leaves. -/
def memoryInit (mem : Memory b) : Int × Memory b :=
  if totalMemorySize b > memoryMaxSize then (-1, mem) else (0, ⟨fun _ => 0⟩)

def memoryGet (mem : Memory b) (address : U16) : Option U8 :=
  if h : address.toNat < totalMemorySize b then some (mem.data ⟨address.toNat, h⟩) else none

def memorySet (mem : Memory b) (address : U16) (value : U8) : Option (Memory b) :=
  if h : address.toNat < totalMemorySize b then
    some ⟨Function.update mem.data ⟨address.toNat, h⟩ value⟩
  else none

/-- `PROGMEM` (`program.h`): the 32 KiB program image, a constant of the build. -/
abbrev Progmem := Fin 32768 → U8

def progmemGet (PROGMEM : Progmem) (i : Nat) : Option U8 :=
  if h : i < 32768 then some (PROGMEM ⟨i, h⟩) else none

theorem totalMemorySize_eq (b : Build) : totalMemorySize b = 0x2808 + expansionRomSize b := by
  simp only [totalMemorySize, m6502RamSize, ppuRegistersSize, sramSize]
  omega

theorem expansionRomSize_le (b : Build) : expansionRomSize b ≤ 0x2000 := by
  unfold expansionRomSize
  split <;> omega

/-- Both builds fit the memory, so initialisation always succeeds. -/
theorem memoryInit_eq (mem : Memory b) : memoryInit mem = (0, ⟨fun _ => 0⟩) := by
  have hle := expansionRomSize_le b
  have heq := totalMemorySize_eq b
  unfold memoryInit
  rw [if_neg (by unfold memoryMaxSize; omega)]

end M6502
