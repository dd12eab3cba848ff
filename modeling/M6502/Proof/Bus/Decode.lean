import M6502.Ti74ls138

/-!
# What the decoder answers, in arithmetic

The decoder masks, shifts and subtracts on 16-bit words. `cellIndex` says the same thing
in natural-number arithmetic, one line per device, and `decodeAddress_hwAddr` is the one
place the two are compared. Every later fact about the bus is read off `cellIndex`.

The bus operations then split into a total part and a bounds condition:

* a byte read is always in bounds, so it is a function (`peek`, `busReadByte_eq`);
* a byte write is in bounds below `0x8000 + totalMemorySize` (`StoreInBounds`, `poke`);
* a word read is in bounds unless the cell after its first one does not exist
  (`WordInBounds`, `peekWord`).
-/

set_option autoImplicit false

namespace M6502

variable {b : Build}

/-- The array index each device's addresses are sent to. From `0x8000` on it indexes
    `PROGMEM` for reads, and the memory array for writes. -/
def cellIndex (b : Build) (a : U16) : Nat :=
  if a.toNat < 0x2000 then a.toNat % 0x800
  else if a.toNat < 0x4000 then 0x800 + a.toNat % 8
  else if a.toNat < 0x6000 then 0x808 + (a.toNat - 0x4000)
  else if a.toNat < 0x8000 then 0x808 + expansionRomSize b + (a.toNat - 0x6000)
  else a.toNat - 0x8000

theorem toNat_ofNat_address {a : Nat} (h : a < 0x10000) : (BitVec.ofNat 16 a).toNat = a := by
  rw [BitVec.toNat_ofNat]
  omega

/-- RAM is not mirrored below `0x800`. -/
theorem cellIndex_ram {a : Nat} (h : a < 0x800) : cellIndex b (.ofNat 16 a) = a := by
  unfold cellIndex
  rw [toNat_ofNat_address (by omega), if_pos (by omega)]
  omega

/-! ## The decoder, device by device -/

theorem toNat_addressBits (a : U16) : ((a >>> 13) &&& 0x07).toNat = a.toNat / 0x2000 := by
  have h := a.isLt
  rw [BitVec.toNat_and, BitVec.toNat_ushiftRight, Nat.shiftRight_eq_div_pow]
  have hmask : (0x07 : U16).toNat = 2 ^ 3 - 1 := rfl
  rw [hmask, Nat.and_two_pow_sub_one_eq_mod]
  omega

theorem toNat_chipSelectCpuRam (a : U16) : (chipSelectCpuRam a).toNat = a.toNat % 0x800 := by
  unfold chipSelectCpuRam
  rw [BitVec.toNat_and]
  exact Nat.and_two_pow_sub_one_eq_mod _ 11

/-- Masking with `0x2007` keeps bit 13 and the register number. -/
theorem toNat_chipSelectPpu {a : U16} (h : 0x2000 ≤ a.toNat) (h' : a.toNat < 0x4000) :
    (chipSelectPpu a).toNat = a.toNat % 8 := by
  -- the quotient and the remainder by 2^13 are masked with 1 and with 7
  have hdiv : (a.toNat &&& 0x2007) / 2 ^ 13 = 1 := by
    rw [Nat.and_div_two_pow, show a.toNat / 2 ^ 13 = 1 by omega]
    rfl
  have hmod : (a.toNat &&& 0x2007) % 2 ^ 13 = a.toNat % 8 := by
    rw [Nat.and_mod_two_pow, show 0x2007 % 2 ^ 13 = 2 ^ 3 - 1 from rfl,
      Nat.and_two_pow_sub_one_eq_mod]
    omega
  have hand : a.toNat &&& 0x2007 = 0x2000 + a.toNat % 8 := by omega
  unfold chipSelectPpu
  have hval : (a &&& 0x2007).toNat = 0x2000 + a.toNat % 8 := by
    rw [BitVec.toNat_and]; exact hand
  bv_omega

theorem toNat_chipSelectExpansionRom {a : U16} (h : 0x4000 ≤ a.toNat) :
    (chipSelectExpansionRom a).toNat = a.toNat - 0x4000 := by
  unfold chipSelectExpansionRom chipSelectApu
  split <;> bv_omega

theorem decodeAddress_hwAddr (b : Build) (a : U16) :
    (decodeAddress b a).hwAddr.toNat = cellIndex b a := by
  have hlt := a.isLt
  have hexp := expansionRomSize_le b
  have hbits := toNat_addressBits a
  unfold decodeAddress cellIndex CeLine.ofBits
  simp only [hbits, m6502RamSize, ppuRegistersSize]
  by_cases h1 : a.toNat < 0x2000
  · rw [show a.toNat / 0x2000 = 0 by omega, if_pos h1]
    exact toNat_chipSelectCpuRam a
  rw [if_neg h1]
  by_cases h2 : a.toNat < 0x4000
  · rw [show a.toNat / 0x2000 = 1 by omega, if_pos h2]
    have := toNat_chipSelectPpu (by omega) h2
    bv_omega
  rw [if_neg h2]
  by_cases h3 : a.toNat < 0x6000
  · rw [show a.toNat / 0x2000 = 2 by omega, if_pos h3]
    have := toNat_chipSelectExpansionRom (a := a) (by omega)
    bv_omega
  rw [if_neg h3]
  by_cases h4 : a.toNat < 0x8000
  · rw [show a.toNat / 0x2000 = 3 by omega, if_pos h4]
    dsimp only [chipSelectSram]
    bv_omega
  rw [if_neg h4]
  -- the four PRG ROM lines share one case of the switch
  have hrom : (chipSelectPrgRom a).toNat = a.toNat - 0x8000 := by
    unfold chipSelectPrgRom
    bv_omega
  obtain h | h | h | h : a.toNat / 0x2000 = 4 ∨ a.toNat / 0x2000 = 5 ∨
      a.toNat / 0x2000 = 6 ∨ a.toNat / 0x2000 = 7 := by omega
  all_goals rw [h]; exact hrom

end M6502
