import M6502.Proof.Bus.Decode

/-!
# The bus operations, with their bounds split off

Each operation of `ti74ls138.c` is `none` where it would index past an array. This file
says exactly where that is, and gives the value it computes elsewhere as a total function.

* a byte read never leaves the arrays (`busReadByte_eq`), so `peek` is all there is to it;
* a byte write leaves them from `0x8000 + totalMemorySize` on (`busWriteByte_eq`);
* a word read leaves them where the cell after its first one does not exist: at the end of
  either array (`busReadWord_eq`).
-/

set_option autoImplicit false

namespace M6502

variable {b : Build}

/-! ## Where an index is in bounds -/

theorem cellIndex_lt {a : U16} (h : a.toNat < 0x8000) : cellIndex b a < totalMemorySize b := by
  rw [totalMemorySize_eq]
  unfold cellIndex
  split
  · omega
  split
  · omega
  split <;> omega

theorem cellIndex_rom {a : U16} (h : 0x8000 ≤ a.toNat) : cellIndex b a = a.toNat - 0x8000 := by
  unfold cellIndex
  rw [if_neg (by omega), if_neg (by omega), if_neg (by omega), if_neg (by omega)]

theorem cellIndex_lt_last (b : Build) (a : U16) : cellIndex b a < 0xFFFF := by
  have htot := totalMemorySize_eq b
  have hexp := expansionRomSize_le b
  have hlt := a.isLt
  by_cases h : a.toNat < 0x8000
  · have := cellIndex_lt (b := b) h
    omega
  · rw [cellIndex_rom (Nat.le_of_not_lt h)]
    omega

/-- A byte write at `a` stays inside the memory array. -/
def StoreInBounds (b : Build) (a : U16) : Prop := a.toNat < 0x8000 + totalMemorySize b

instance (b : Build) (a : U16) : Decidable (StoreInBounds b a) :=
  inferInstanceAs (Decidable (_ < _))

theorem cellIndex_lt_iff {a : U16} : cellIndex b a < totalMemorySize b ↔ StoreInBounds b a := by
  unfold StoreInBounds
  by_cases h : a.toNat < 0x8000
  · exact iff_of_true (cellIndex_lt h) (by omega)
  · rw [cellIndex_rom (by omega)]
    omega

theorem storeInBounds_of_lt {a : U16} (h : a.toNat < 0x8000) : StoreInBounds b a :=
  cellIndex_lt_iff.mp (cellIndex_lt h)

/-- A word read at `a` stays inside the array its device is in: `a` is neither the last
    address of PRG ROM nor one whose cell is the last of the memory array. -/
def WordInBounds (b : Build) (a : U16) : Prop :=
  a.toNat ≠ 0xFFFF ∧ a.toNat ≠ 0x7FFF ∧ (b.nesUseExpansionRom = false → a.toNat ≠ 0x5FFF)

instance (b : Build) (a : U16) : Decidable (WordInBounds b a) :=
  inferInstanceAs (Decidable (_ ∧ _))

theorem wordInBounds_low {a : U16} (h : a.toNat < 0x8000) :
    WordInBounds b a ↔ cellIndex b a + 1 < totalMemorySize b := by
  rw [totalMemorySize_eq]
  unfold WordInBounds cellIndex expansionRomSize
  cases b.nesUseExpansionRom <;> grind

theorem wordInBounds_rom {a : U16} (h : 0x8000 ≤ a.toNat) :
    WordInBounds b a ↔ cellIndex b a + 1 < 32768 := by
  have := a.isLt
  rw [cellIndex_rom h]
  unfold WordInBounds
  omega

/-! ## Byte reads -/

/-- The byte the bus answers at `a`. -/
def peek (PROGMEM : Progmem) (mem : Memory b) (a : U16) : U8 :=
  if h : a.toNat < 0x8000 then mem.data ⟨cellIndex b a, cellIndex_lt h⟩
  else PROGMEM ⟨a.toNat - 0x8000, by omega⟩

theorem ge_iff_toNat {a : U16} : a ≥ 0x8000 ↔ 0x8000 ≤ a.toNat := Iff.rfl

theorem memoryGet_hwAddr (mem : Memory b) (a : U16) :
    memoryGet mem (decodeAddress b a).hwAddr =
      if h : cellIndex b a < totalMemorySize b then some (mem.data ⟨cellIndex b a, h⟩)
      else none := by
  unfold memoryGet
  simp only [decodeAddress_hwAddr]

theorem busReadByte_eq (PROGMEM : Progmem) (mem : Memory b) (a : U16) :
    busReadByte PROGMEM mem a = some (peek PROGMEM mem a) := by
  unfold busReadByte peek
  by_cases h : a.toNat < 0x8000
  · rw [dif_pos h, if_neg (by rw [ge_iff_toNat]; omega), memoryGet_hwAddr,
      dif_pos (cellIndex_lt h)]
  · have := a.isLt
    rw [dif_neg h, if_pos (by rw [ge_iff_toNat]; omega)]
    simp only [progmemGet, decodeAddress_hwAddr, cellIndex_rom (b := b) (Nat.le_of_not_lt h)]
    rw [dif_pos (by omega)]

theorem peek_low (PROGMEM : Progmem) (mem : Memory b) {a : U16} (h : a.toNat < 0x8000) :
    peek PROGMEM mem a = mem.data ⟨cellIndex b a, cellIndex_lt h⟩ := dif_pos h

/-- What PRG ROM answers does not depend on the memory array. -/
theorem peek_rom (PROGMEM : Progmem) (mem mem' : Memory b) {a : U16} (h : 0x8000 ≤ a.toNat) :
    peek PROGMEM mem a = peek PROGMEM mem' a := by
  unfold peek
  rw [dif_neg (by omega), dif_neg (by omega)]

/-! ## The memory array as a store over all indices -/

/-- The byte at an index, `0` past the end. -/
def Memory.view (mem : Memory b) (i : Nat) : U8 :=
  if h : i < totalMemorySize b then mem.data ⟨i, h⟩ else 0

theorem Memory.view_inj {mem mem' : Memory b} (h : mem.view = mem'.view) : mem = mem' := by
  ext i : 2
  have hi := congrFun h i.val
  unfold Memory.view at hi
  rw [dif_pos i.isLt, dif_pos i.isLt] at hi
  exact hi

theorem peek_eq_view (PROGMEM : Progmem) (mem : Memory b) {a : U16} (h : a.toNat < 0x8000) :
    peek PROGMEM mem a = mem.view (cellIndex b a) := by
  rw [peek_low _ _ h, Memory.view, dif_pos (cellIndex_lt h)]

/-- The memory with one cell changed, where there is such a cell. -/
def pokeCell (mem : Memory b) (i : Nat) (v : U8) : Memory b :=
  if h : i < totalMemorySize b then ⟨Function.update mem.data ⟨i, h⟩ v⟩ else mem

theorem view_pokeCell (mem : Memory b) {i : Nat} (v : U8) (h : i < totalMemorySize b) :
    (pokeCell mem i v).view = Function.update mem.view i v := by
  unfold pokeCell
  rw [dif_pos h]
  funext j
  by_cases hj : j = i
  · subst hj
    rw [Function.update_self, Memory.view, dif_pos h]
    exact Function.update_self _ _ _
  · rw [Function.update_of_ne hj]
    unfold Memory.view
    by_cases hlt : j < totalMemorySize b
    · rw [dif_pos hlt, dif_pos hlt]
      exact Function.update_of_ne (fun hf => hj (Fin.mk.inj hf)) _ _
    · rw [dif_neg hlt, dif_neg hlt]

theorem pokeCell_eq_self_iff (mem : Memory b) {i : Nat} (v : U8) (h : i < totalMemorySize b) :
    pokeCell mem i v = mem ↔ mem.view i = v := by
  constructor
  · intro heq
    rw [← heq, view_pokeCell _ _ h, Function.update_self]
  · rintro rfl
    apply Memory.view_inj
    rw [view_pokeCell _ _ h, Function.update_eq_self]

/-- Storing one byte in either of two cells comes to the same only if both hold it already. -/
theorem pokeCell_eq_pokeCell_iff (mem : Memory b) {i j : Nat} (v : U8)
    (hi : i < totalMemorySize b) (hj : j < totalMemorySize b) (hne : i ≠ j) :
    pokeCell mem i v = pokeCell mem j v ↔ mem.view i = v ∧ mem.view j = v := by
  constructor
  · intro heq
    have hview := congrArg Memory.view heq
    rw [view_pokeCell _ _ hi, view_pokeCell _ _ hj] at hview
    have hati := congrFun hview i
    have hatj := congrFun hview j
    rw [Function.update_self, Function.update_of_ne hne] at hati
    rw [Function.update_self, Function.update_of_ne (Ne.symm hne)] at hatj
    exact ⟨hati.symm, hatj⟩
  · rintro ⟨hvi, hvj⟩
    rw [(pokeCell_eq_self_iff mem v hi).mpr hvi, (pokeCell_eq_self_iff mem v hj).mpr hvj]

/-! ## Byte writes -/

/-- The memory a byte write at `a` leaves, where it is in bounds. -/
def poke (mem : Memory b) (a : U16) (v : U8) : Memory b := pokeCell mem (cellIndex b a) v

theorem busWriteByte_eq (mem : Memory b) (a : U16) (v : U8) :
    busWriteByte mem a v = if StoreInBounds b a then some (poke mem a v) else none := by
  unfold busWriteByte memorySet poke pokeCell
  simp only [decodeAddress_hwAddr, cellIndex_lt_iff]
  split <;> rfl

theorem view_poke (mem : Memory b) {a : U16} (v : U8) (h : StoreInBounds b a) :
    (poke mem a v).view = Function.update mem.view (cellIndex b a) v :=
  view_pokeCell mem v (cellIndex_lt_iff.mpr h)

theorem peek_poke_same (PROGMEM : Progmem) (mem : Memory b) {a a' : U16} (v : U8)
    (h' : a'.toNat < 0x8000) (hc : cellIndex b a = cellIndex b a') :
    peek PROGMEM (poke mem a v) a' = v := by
  have hlt : cellIndex b a < totalMemorySize b := hc ▸ cellIndex_lt h'
  rw [peek_eq_view _ _ h', view_poke _ _ (cellIndex_lt_iff.mp hlt), hc, Function.update_self]

theorem peek_poke_of_ne (PROGMEM : Progmem) (mem : Memory b) {a a' : U16} (v : U8)
    (hc : a'.toNat < 0x8000 → cellIndex b a ≠ cellIndex b a') :
    peek PROGMEM (poke mem a v) a' = peek PROGMEM mem a' := by
  by_cases h' : a'.toNat < 0x8000
  · rw [peek_eq_view _ _ h', peek_eq_view _ _ h']
    by_cases ha : StoreInBounds b a
    · rw [view_poke _ _ ha, Function.update_of_ne (Ne.symm (hc h'))]
    · unfold poke pokeCell
      rw [dif_neg (fun hlt => ha (cellIndex_lt_iff.mp hlt))]
  · exact peek_rom _ _ _ (Nat.le_of_not_lt h')

/-! ## Word reads -/

/-- The word the bus answers at `a`, where it is in bounds. -/
def peekWord (PROGMEM : Progmem) (mem : Memory b) (a : U16) : U16 :=
  (busReadWord PROGMEM mem a).getD 0

/-- The cell after the one decoded. It is found by adding one to the index, not by decoding. -/
theorem toNat_hwAddr_succ (b : Build) (a : U16) :
    ((decodeAddress b a).hwAddr + 1).toNat = cellIndex b a + 1 := by
  have := decodeAddress_hwAddr b a
  have := cellIndex_lt_last b a
  bv_omega

theorem busReadWord_isSome (PROGMEM : Progmem) (mem : Memory b) (a : U16) :
    (busReadWord PROGMEM mem a).isSome ↔ WordInBounds b a := by
  have hlt := a.isLt
  unfold busReadWord
  by_cases h : a.toNat < 0x8000
  · have hidx := cellIndex_lt (b := b) h
    have hsucc := toNat_hwAddr_succ b a
    rw [if_neg (by rw [ge_iff_toNat]; omega), memoryGet_hwAddr, dif_pos hidx, wordInBounds_low h]
    simp only [memoryGet, hsucc]
    by_cases hs : cellIndex b a + 1 < totalMemorySize b <;> simp [hs]
  · have hrom := cellIndex_rom (b := b) (Nat.le_of_not_lt h)
    rw [if_pos (by rw [ge_iff_toNat]; omega), wordInBounds_rom (Nat.le_of_not_lt h)]
    simp only [progmemGet, decodeAddress_hwAddr, hrom]
    by_cases hs : a.toNat - 0x8000 + 1 < 32768
    · simp [hs, show a.toNat - 0x8000 < 32768 by omega]
    · simp [hs, show a.toNat - 0x8000 < 32768 by omega]

theorem busReadWord_eq (PROGMEM : Progmem) (mem : Memory b) (a : U16) :
    busReadWord PROGMEM mem a =
      if WordInBounds b a then some (peekWord PROGMEM mem a) else none := by
  have hiff := busReadWord_isSome PROGMEM mem a
  unfold peekWord
  cases h : busReadWord PROGMEM mem a with
  | none => rw [if_neg (by rw [← hiff, h]; simp)]
  | some w => rw [if_pos (by rw [← hiff, h]; rfl), Option.getD_some]

end M6502
