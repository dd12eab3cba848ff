import M6502.Proof.Bus.Access

/-!
# A word access against two byte accesses

The word operations decode once and add one to the index. That is what two byte accesses
do wherever adjacent addresses decode to adjacent cells (`cellIndex_succ`), which fails at
three kinds of address:

* the last byte of a CPU RAM mirror, where the index runs on into the PPU registers
  (`RamSeam`);
* the last register of a PPU mirror, where it runs on into the APU (`PpuSeam`);
* the end of an array, where there is no next cell (`WordInBounds`).
-/

set_option autoImplicit false

namespace M6502

variable {b : Build}

/-! ## Where adjacent addresses decode to adjacent cells -/

/-- The last byte of a CPU RAM mirror, but for the one before the PPU. -/
def RamSeam (a : U16) : Prop := a = 0x07FF ∨ a = 0x0FFF ∨ a = 0x17FF

/-- The last register of a PPU mirror, but for the one before the APU. -/
def PpuSeam (a : U16) : Prop := 0x2000 ≤ a.toNat ∧ a.toNat < 0x3FFF ∧ a.toNat % 8 = 7

instance (a : U16) : Decidable (RamSeam a) := inferInstanceAs (Decidable (_ ∨ _ ∨ _))

instance (a : U16) : Decidable (PpuSeam a) := inferInstanceAs (Decidable (_ ∧ _ ∧ _))

theorem cellIndex_ramSeam {a : U16} (h : RamSeam a) :
    cellIndex b a = 0x7FF ∧ cellIndex b (a + 1) = 0 := by
  rcases h with rfl | rfl | rfl <;> exact ⟨rfl, rfl⟩

theorem cellIndex_ppuSeam {a : U16} (h : PpuSeam a) :
    cellIndex b a = 0x807 ∧ cellIndex b (a + 1) = 0x800 := by
  obtain ⟨h2, h3, h7⟩ := h
  have hsucc : (a + 1).toNat = a.toNat + 1 := by bv_omega
  unfold cellIndex
  rw [hsucc]
  constructor
  · rw [if_neg (by omega), if_pos (by omega), h7]
  · rw [if_neg (by omega), if_pos (by omega)]
    omega

theorem cellIndex_succ {a : U16} (ha : a.toNat < 0x7FFF) (hw : WordInBounds b a)
    (hram : ¬ RamSeam a) (hppu : ¬ PpuSeam a) : cellIndex b (a + 1) = cellIndex b a + 1 := by
  have hsucc : (a + 1).toNat = a.toNat + 1 := by bv_omega
  have hseams : ¬ (a.toNat = 0x07FF ∨ a.toNat = 0x0FFF ∨ a.toNat = 0x17FF) := by
    intro h
    refine hram ?_
    rcases h with h | h | h
    · exact Or.inl (BitVec.eq_of_toNat_eq h)
    · exact Or.inr (Or.inl (BitVec.eq_of_toNat_eq h))
    · exact Or.inr (Or.inr (BitVec.eq_of_toNat_eq h))
  unfold PpuSeam at hppu
  unfold WordInBounds at hw
  unfold cellIndex expansionRomSize
  rw [hsucc]
  cases hb : b.nesUseExpansionRom <;> grind

/-! ## Word reads -/

theorem word_toNat (low high : U8) : (word low high).toNat = low.toNat + 256 * high.toNat := by
  have hl := low.isLt
  have hh := high.isLt
  unfold word
  rw [BitVec.toNat_or, BitVec.toNat_shiftLeft, BitVec.toNat_setWidth, BitVec.toNat_setWidth,
    Nat.mod_eq_of_lt (by omega : high.toNat < 2 ^ 16),
    Nat.mod_eq_of_lt (by omega : low.toNat < 2 ^ 16), Nat.shiftLeft_eq,
    Nat.mod_eq_of_lt (by omega), ← Nat.shiftLeft_eq, ← Nat.shiftLeft_add_eq_or_of_lt hl,
    Nat.shiftLeft_eq]
  omega

theorem word_inj {low high low' high' : U8} :
    word low high = word low' high' ↔ low = low' ∧ high = high' := by
  have hl := low.isLt
  have hl' := low'.isLt
  rw [← BitVec.toNat_inj, ← BitVec.toNat_inj, ← BitVec.toNat_inj, word_toNat, word_toNat]
  omega

/-- A word is its two bytes. -/
theorem word_bytes (w : U16) : word (w.setWidth 8) ((w >>> 8).setWidth 8) = w := by
  apply BitVec.eq_of_toNat_eq
  have hlt := w.isLt
  rw [word_toNat, BitVec.toNat_setWidth, BitVec.toNat_setWidth, BitVec.toNat_ushiftRight,
    Nat.shiftRight_eq_div_pow]
  omega

/-- The second byte a word read takes: from the next cell, whatever address that has. -/
def secondByte (PROGMEM : Progmem) (mem : Memory b) (a : U16) : U8 :=
  if a.toNat < 0x8000 then mem.view (cellIndex b a + 1) else peek PROGMEM mem (a + 1)

theorem memoryGet_eq_view (mem : Memory b) {address : U16}
    (h : address.toNat < totalMemorySize b) :
    memoryGet mem address = some (mem.view address.toNat) := by
  unfold memoryGet Memory.view
  rw [dif_pos h, dif_pos h]

theorem progmemGet_eq_peek (PROGMEM : Progmem) (mem : Memory b) {a : U16}
    (h : 0x8000 ≤ a.toNat) :
    progmemGet PROGMEM (a.toNat - 0x8000) = some (peek PROGMEM mem a) := by
  have hlt := a.isLt
  unfold progmemGet peek
  rw [dif_pos (by omega), dif_neg (by omega)]

theorem busReadWord_val (PROGMEM : Progmem) (mem : Memory b) {a : U16} (h : WordInBounds b a) :
    busReadWord PROGMEM mem a = some (word (peek PROGMEM mem a) (secondByte PROGMEM mem a)) := by
  unfold busReadWord secondByte
  by_cases hlow : a.toNat < 0x8000
  · have hidx := (wordInBounds_low hlow).mp h
    have hsucc := toNat_hwAddr_succ b a
    have hfirst := decodeAddress_hwAddr b a
    rw [if_neg (by rw [ge_iff_toNat]; omega), if_pos hlow, peek_eq_view _ _ hlow,
      memoryGet_eq_view _ (by omega), memoryGet_eq_view _ (by omega), hsucc, hfirst]
    rfl
  · have hlt := a.isLt
    have hne := h.1
    have hnext : (a + 1).toNat = a.toNat + 1 := by bv_omega
    have hfirst := decodeAddress_hwAddr b a
    rw [cellIndex_rom (Nat.le_of_not_lt hlow)] at hfirst
    rw [if_pos (by rw [ge_iff_toNat]; omega), if_neg hlow]
    simp only [hfirst]
    rw [show a.toNat - 0x8000 + 1 = (a + 1).toNat - 0x8000 by omega,
      progmemGet_eq_peek PROGMEM mem (by omega), progmemGet_eq_peek PROGMEM mem (by omega)]
    rfl

theorem busReadWord_none (PROGMEM : Progmem) (mem : Memory b) {a : U16} (h : ¬ WordInBounds b a) :
    busReadWord PROGMEM mem a = none := by
  rw [busReadWord_eq, if_neg h]

theorem busReadByte_view (PROGMEM : Progmem) (mem : Memory b) {a : U16} (ha : a.toNat < 0x8000) :
    busReadByte PROGMEM mem a = some (mem.view (cellIndex b a)) := by
  rw [busReadByte_eq, peek_eq_view _ _ ha]

/-- A word read answers what the two byte reads do. -/
def WordReadAgrees (PROGMEM : Progmem) (mem : Memory b) (a : U16) : Prop :=
  ∃ w low high, busReadWord PROGMEM mem a = some w ∧ busReadByte PROGMEM mem a = some low ∧
    busReadByte PROGMEM mem (a + 1) = some high ∧ w.toNat = low.toNat + 256 * high.toNat

theorem wordReadAgrees_iff_secondByte (PROGMEM : Progmem) (mem : Memory b) (a : U16) :
    WordReadAgrees PROGMEM mem a ↔
      WordInBounds b a ∧ secondByte PROGMEM mem a = peek PROGMEM mem (a + 1) := by
  unfold WordReadAgrees
  rw [busReadByte_eq, busReadByte_eq]
  by_cases hw : WordInBounds b a
  · rw [busReadWord_val PROGMEM mem hw]
    constructor
    · rintro ⟨w, low, high, hword, hlow, hhigh, heq⟩
      obtain rfl := Option.some.inj hword
      obtain rfl := Option.some.inj hlow
      obtain rfl := Option.some.inj hhigh
      rw [word_toNat] at heq
      exact ⟨hw, BitVec.eq_of_toNat_eq (by omega)⟩
    · rintro ⟨-, heq⟩
      exact ⟨_, _, _, rfl, rfl, rfl, by rw [word_toNat, heq]⟩
  · rw [busReadWord_none PROGMEM mem hw]
    constructor
    · rintro ⟨w, low, high, hword, -⟩
      cases hword
    · rintro ⟨h, -⟩
      exact absurd h hw

/-- Where a word read agrees with two byte reads: in bounds, and at a seam only if the cell it
    runs on into holds the byte of the cell the next address names. -/
def WordReadMeets (PROGMEM : Progmem) (mem : Memory b) (a : U16) : Prop :=
  WordInBounds b a ∧
    (RamSeam a → busReadByte PROGMEM mem 0x2000 = busReadByte PROGMEM mem 0x0000) ∧
    (PpuSeam a → busReadByte PROGMEM mem 0x4000 = busReadByte PROGMEM mem 0x2000)

theorem ramSeam_lt {a : U16} (h : RamSeam a) : a.toNat < 0x2000 := by
  rcases h with rfl | rfl | rfl <;> decide

theorem ppuSeam_lt {a : U16} (h : PpuSeam a) : a.toNat < 0x4000 := Nat.lt_trans h.2.1 (by decide)

theorem wordReadAgrees_iff (PROGMEM : Progmem) (mem : Memory b) (a : U16) :
    WordReadAgrees PROGMEM mem a ↔ WordReadMeets PROGMEM mem a := by
  have hstart : (cellIndex b 0x0000 = 0) ∧ (cellIndex b 0x2000 = 0x800) ∧
      (cellIndex b 0x4000 = 0x808) := ⟨rfl, rfl, rfl⟩
  rw [wordReadAgrees_iff_secondByte]
  unfold WordReadMeets
  rw [busReadByte_view _ _ (by decide), busReadByte_view _ _ (by decide),
    busReadByte_view _ _ (by decide), hstart.1, hstart.2.1, hstart.2.2]
  refine and_congr_right fun hw => ?_
  by_cases hram : RamSeam a
  · have hnppu : ¬ PpuSeam a := fun h => by
      have := ramSeam_lt hram
      have := h.1
      omega
    obtain ⟨hc, hc'⟩ := cellIndex_ramSeam (b := b) hram
    have hlt := ramSeam_lt hram
    have hnext : (a + 1).toNat < 0x8000 := by bv_omega
    rw [secondByte, if_pos (by omega), peek_eq_view _ _ hnext, hc, hc']
    exact ⟨fun h => ⟨fun _ => congrArg some h, fun h' => absurd h' hnppu⟩,
      fun h => Option.some.inj (h.1 hram)⟩
  by_cases hppu : PpuSeam a
  · obtain ⟨hc, hc'⟩ := cellIndex_ppuSeam (b := b) hppu
    have hlt := ppuSeam_lt hppu
    have hnext : (a + 1).toNat < 0x8000 := by bv_omega
    rw [secondByte, if_pos (by omega), peek_eq_view _ _ hnext, hc, hc']
    exact ⟨fun h => ⟨fun h' => absurd h' hram, fun _ => congrArg some h⟩,
      fun h => Option.some.inj (h.2 hppu)⟩
  · refine iff_of_true ?_ ⟨fun h => absurd h hram, fun h => absurd h hppu⟩
    by_cases hlow : a.toNat < 0x8000
    · have hne := hw.2.1
      have hnext : (a + 1).toNat < 0x8000 := by bv_omega
      rw [secondByte, if_pos hlow, peek_eq_view _ _ hnext,
        cellIndex_succ (by omega) hw hram hppu]
    · rw [secondByte, if_neg hlow]

/-! ## Word writes -/

theorem memorySet_eq (mem : Memory b) (address : U16) (v : U8) :
    memorySet mem address v =
      if address.toNat < totalMemorySize b then some (pokeCell mem address.toNat v) else none := by
  unfold memorySet pokeCell
  split <;> rfl

/-- A word write is a byte write and a write to the next cell. -/
theorem busWriteWord_eq (mem : Memory b) (a w : U16) :
    busWriteWord mem a w =
      if cellIndex b a + 1 < totalMemorySize b then
        some (pokeCell (poke mem a (w.setWidth 8)) (cellIndex b a + 1) ((w >>> 8).setWidth 8))
      else none := by
  unfold busWriteWord
  dsimp only
  rw [memorySet_eq, decodeAddress_hwAddr]
  by_cases h : cellIndex b a < totalMemorySize b
  · rw [if_pos h]
    show memorySet _ _ _ = _
    rw [memorySet_eq, toNat_hwAddr_succ]
    rfl
  · rw [if_neg h, if_neg (by omega)]
    rfl

/-- A word write leaves the memory the two byte writes leave. -/
def WordWriteAgrees (mem : Memory b) (a w : U16) : Prop :=
  ∃ mem', busWriteWord mem a w = some mem' ∧
    (busWriteByte mem a (.ofNat 8 (w.toNat % 256))).bind
      (fun mem => busWriteByte mem (a + 1) (.ofNat 8 (w.toNat / 256))) = some mem'

theorem ofNat_low (w : U16) : BitVec.ofNat 8 (w.toNat % 256) = w.setWidth 8 := by
  apply BitVec.eq_of_toNat_eq
  rw [BitVec.toNat_ofNat, BitVec.toNat_setWidth]
  omega

theorem ofNat_high (w : U16) : BitVec.ofNat 8 (w.toNat / 256) = (w >>> 8).setWidth 8 := by
  apply BitVec.eq_of_toNat_eq
  rw [BitVec.toNat_ofNat, BitVec.toNat_setWidth, BitVec.toNat_ushiftRight,
    Nat.shiftRight_eq_div_pow]

/-- Where a word write agrees with two byte writes: in bounds, and at a seam only if the cell
    it runs on into and the cell the next address names hold the high byte already. -/
def WordWriteMeets (PROGMEM : Progmem) (mem : Memory b) (a w : U16) : Prop :=
  WordInBounds b a ∧
    (RamSeam a → busReadByte PROGMEM mem 0x2000 = some (.ofNat 8 (w.toNat / 256)) ∧
      busReadByte PROGMEM mem 0x0000 = some (.ofNat 8 (w.toNat / 256))) ∧
    (PpuSeam a → busReadByte PROGMEM mem 0x4000 = some (.ofNat 8 (w.toNat / 256)) ∧
      busReadByte PROGMEM mem 0x2000 = some (.ofNat 8 (w.toNat / 256)))

/-- In bounds, the two sides differ in the cell the second byte goes to and in nothing else. -/
theorem wordWriteAgrees_iff_cells (mem : Memory b) {a w : U16} (ha : a.toNat < 0x7FFF)
    (hw : WordInBounds b a) :
    WordWriteAgrees mem a w ↔
      pokeCell (poke mem a (w.setWidth 8)) (cellIndex b a + 1) ((w >>> 8).setWidth 8) =
        pokeCell (poke mem a (w.setWidth 8)) (cellIndex b (a + 1)) ((w >>> 8).setWidth 8) := by
  have hlow : a.toNat < 0x8000 := by omega
  have hnext : (a + 1).toNat < 0x8000 := by bv_omega
  have hidx := (wordInBounds_low hlow).mp hw
  unfold WordWriteAgrees
  rw [busWriteWord_eq, if_pos hidx, ofNat_low, ofNat_high, busWriteByte_eq,
    if_pos (storeInBounds_of_lt hlow), Option.bind_some, busWriteByte_eq,
    if_pos (storeInBounds_of_lt hnext)]
  constructor
  · rintro ⟨mem', hword, hbytes⟩
    exact (Option.some.inj hword).trans (Option.some.inj hbytes).symm
  · intro heq
    exact ⟨_, rfl, congrArg some heq.symm⟩

/-- At a seam the two cells differ, so both must hold the byte already. -/
theorem wordWriteAgrees_seam (mem : Memory b) {a w : U16} {c c' d : Nat} (ha : a.toNat < 0x7FFF)
    (hw : WordInBounds b a) (hc : cellIndex b a = c) (hd : c + 1 = d)
    (hc' : cellIndex b (a + 1) = c') (hlt : c' < c) :
    WordWriteAgrees mem a w ↔
      mem.view d = (w >>> 8).setWidth 8 ∧ mem.view c' = (w >>> 8).setWidth 8 := by
  have hidx := (wordInBounds_low (by omega)).mp hw
  rw [hc] at hidx
  rw [wordWriteAgrees_iff_cells mem ha hw, hc, hc', hd,
    pokeCell_eq_pokeCell_iff _ _ (by omega) (by omega) (by omega),
    view_poke _ _ (storeInBounds_of_lt (by omega)), hc,
    Function.update_of_ne (by omega), Function.update_of_ne (by omega)]

theorem wordWriteAgrees_iff (PROGMEM : Progmem) (mem : Memory b) {a w : U16}
    (ha : a.toNat < 0x7FFF) :
    WordWriteAgrees mem a w ↔ WordWriteMeets PROGMEM mem a w := by
  have hstart : (cellIndex b 0x0000 = 0) ∧ (cellIndex b 0x2000 = 0x800) ∧
      (cellIndex b 0x4000 = 0x808) := ⟨rfl, rfl, rfl⟩
  unfold WordWriteMeets
  rw [busReadByte_view _ _ (by decide), busReadByte_view _ _ (by decide),
    busReadByte_view _ _ (by decide), hstart.1, hstart.2.1, hstart.2.2, ofNat_high,
    Option.some_inj, Option.some_inj, Option.some_inj]
  by_cases hw : WordInBounds b a
  · rw [and_iff_right hw]
    by_cases hram : RamSeam a
    · have hnppu : ¬ PpuSeam a := fun h => by
        have := ramSeam_lt hram
        have := h.1
        omega
      obtain ⟨hc, hc'⟩ := cellIndex_ramSeam (b := b) hram
      rw [wordWriteAgrees_seam mem ha hw hc rfl hc' (by decide)]
      exact ⟨fun h => ⟨fun _ => h, fun h' => absurd h' hnppu⟩, fun h => h.1 hram⟩
    by_cases hppu : PpuSeam a
    · obtain ⟨hc, hc'⟩ := cellIndex_ppuSeam (b := b) hppu
      rw [wordWriteAgrees_seam mem ha hw hc rfl hc' (by decide)]
      exact ⟨fun h => ⟨fun h' => absurd h' hram, fun _ => h⟩, fun h => h.2 hppu⟩
    · rw [wordWriteAgrees_iff_cells mem ha hw, cellIndex_succ ha hw hram hppu]
      exact iff_of_true rfl ⟨fun h => absurd h hram, fun h => absurd h hppu⟩
  · refine iff_of_false ?_ fun h => hw h.1
    rintro ⟨mem', hword, -⟩
    have hidx := fun h => hw ((wordInBounds_low (b := b) (a := a) (by omega)).mpr h)
    rw [busWriteWord_eq, if_neg hidx] at hword
    cases hword

/-- **A word access is two byte accesses exactly if** it is in bounds, and at a seam the cells
    that differ hold the same byte: for reads the byte read, for writes the byte written. -/
theorem wordAccess_iff (b : Build) (PROGMEM : Progmem) (mem : Memory b) (a : U16) :
    (WordReadAgrees PROGMEM mem a ↔ WordReadMeets PROGMEM mem a) ∧
      (a.toNat < 0x8000 → (a + 1).toNat < 0x8000 → ∀ w : U16,
        (WordWriteAgrees mem a w ↔ WordWriteMeets PROGMEM mem a w)) := by
  refine ⟨wordReadAgrees_iff PROGMEM mem a, fun ha hnext w => ?_⟩
  exact wordWriteAgrees_iff PROGMEM mem (by bv_omega)

/-- At the end of PPU space and the start of the APU, where the cells are adjacent. -/
theorem wordAccess_iff_3fff :
    WordWriteAgrees (⟨fun _ => 0⟩ : Memory ⟨false⟩) 0x3FFF 0x1234 ↔
      WordWriteMeets (fun _ => 0) (⟨fun _ => 0⟩ : Memory ⟨false⟩) 0x3FFF 0x1234 :=
  (wordAccess_iff ⟨false⟩ (fun _ => 0) ⟨fun _ => 0⟩ 0x3FFF).2 (by decide) (by decide) 0x1234

/-- Reading the word at `0x07FF` runs on into the PPU. -/
theorem not_wordAccess :
    ¬ (∀ (b : Build) (PROGMEM : Progmem) (mem : Memory b) (a : U16),
      WordReadAgrees PROGMEM mem a ∧
        (a.toNat < 0x8000 → (a + 1).toNat < 0x8000 → ∀ w, WordWriteAgrees mem a w)) := by
  intro h
  -- PPU register 0 holds 5, every other cell 0
  obtain ⟨w, low, high, hword, hlow, hhigh, heq⟩ :=
    (h ⟨false⟩ (fun _ => 0) ⟨fun i => if i.val = 0x800 then 5 else 0⟩ 0x07FF).1
  have hw : busReadWord (fun _ => 0)
      (⟨fun i => if i.val = 0x800 then 5 else 0⟩ : Memory ⟨false⟩) 0x07FF = some 0x0500 := by
    decide
  have hl : busReadByte (fun _ => 0)
      (⟨fun i => if i.val = 0x800 then 5 else 0⟩ : Memory ⟨false⟩) 0x07FF = some 0 := by
    decide
  have hh : busReadByte (fun _ => 0)
      (⟨fun i => if i.val = 0x800 then 5 else 0⟩ : Memory ⟨false⟩) (0x07FF + 1) = some 0 := by
    decide
  obtain rfl := Option.some.inj (hw.symm.trans hword)
  obtain rfl := Option.some.inj (hl.symm.trans hlow)
  obtain rfl := Option.some.inj (hh.symm.trans hhigh)
  revert heq
  decide

end M6502
