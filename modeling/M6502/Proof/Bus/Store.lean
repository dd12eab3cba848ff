import M6502.Lib.Cells
import M6502.Proof.Bus.Access

/-!
# The bus as a store

Below `0x8000` the bus is meant to be a store whose cells are named through mirrors:
`SameCell` is that naming, stated on addresses alone. The decoder's own naming is equality
of `cellIndex`. In a build with the expansion ROM the two agree (`cellIndex_eq_iff`). In
the default build the expansion area is given no cells of its own and lands on the SRAM's,
so each address from `0x4000` on shares its cell with its `twin`.
-/

set_option autoImplicit false

namespace M6502

open Lib

variable {b : Build}

/-! ## Naming cells -/

/-- Two addresses below `0x8000` name the same cell: both CPU RAM and equal modulo the
    mirror, both PPU and the same register, or the same address further up. -/
def SameCell (a a' : U16) : Prop :=
  (a.toNat < 0x2000 ∧ a'.toNat < 0x2000 ∧ a.toNat % 0x800 = a'.toNat % 0x800) ∨
  (0x2000 ≤ a.toNat ∧ a.toNat < 0x4000 ∧ 0x2000 ≤ a'.toNat ∧ a'.toNat < 0x4000 ∧
    a.toNat % 8 = a'.toNat % 8) ∨
  (0x4000 ≤ a.toNat ∧ a.toNat < 0x8000 ∧ a = a')

instance (a a' : U16) : Decidable (SameCell a a') := inferInstanceAs (Decidable (_ ∨ _ ∨ _))

/-- The address at the same offset in the other of the expansion and the SRAM area. -/
def twin (a : U16) : U16 := if a.toNat < 0x6000 then a + 0x2000 else a - 0x2000

/-- The addresses the decoder sends to the cell of `a`. -/
def DecodedTogether (b : Build) (x a : U16) : Prop :=
  SameCell x a ∨ (b.nesUseExpansionRom = false ∧ 0x4000 ≤ a.toNat ∧ x = twin a)

instance (b : Build) (x a : U16) : Decidable (DecodedTogether b x a) :=
  inferInstanceAs (Decidable (_ ∨ _))

theorem cellIndex_eq_iff {x a : U16} (hx : x.toNat < 0x8000) (ha : a.toNat < 0x8000) :
    cellIndex b x = cellIndex b a ↔ DecodedTogether b x a := by
  have heq : x = a ↔ x.toNat = a.toNat := BitVec.toNat_inj.symm
  have htwin : 0x4000 ≤ a.toNat → (x = twin a ↔
      x.toNat = if a.toNat < 0x6000 then a.toNat + 0x2000 else a.toNat - 0x2000) := by
    intro h4
    unfold twin
    split <;> bv_omega
  unfold DecodedTogether SameCell cellIndex expansionRomSize
  rw [heq]
  by_cases h4 : 0x4000 ≤ a.toNat
  · rw [htwin h4]
    cases b.nesUseExpansionRom <;> grind
  · cases b.nesUseExpansionRom <;> grind

/-! ## Sequences of writes -/

/-- A sequence of `bus_write_byte` calls. -/
def busWriteBytes (mem : Memory b) (ws : List (U16 × U8)) : Option (Memory b) :=
  ws.foldlM (fun mem w => busWriteByte mem w.1 w.2) mem

theorem busWriteBytes_view : ∀ (ws : List (U16 × U8)) (mem : Memory b),
    (∀ w ∈ ws, w.1.toNat < 0x8000) →
    ∃ mem', busWriteBytes mem ws = some mem' ∧ mem'.view = writeAll (cellIndex b) mem.view ws
  | [], mem, _ => ⟨mem, rfl, rfl⟩
  | w :: ws, mem, h => by
    obtain ⟨hw, hws⟩ := List.forall_mem_cons.mp h
    obtain ⟨mem', hmem', hview⟩ := busWriteBytes_view ws (poke mem w.1 w.2) hws
    refine ⟨mem', ?_, ?_⟩
    · unfold busWriteBytes
      rw [List.foldlM_cons, busWriteByte_eq, if_pos (storeInBounds_of_lt hw)]
      exact hmem'
    · rw [hview, view_poke _ _ (storeInBounds_of_lt hw)]
      rfl

/-! ## The store law -/

/-- What the store law has the bus answer at `a` after the writes `ws`. -/
def storeLaw (PROGMEM : Progmem) (mem : Memory b) (ws : List (U16 × U8)) (a : U16) : Option U8 :=
  match lastWrite (fun x => SameCell x a) ws with
  | some w => some w.2
  | none => busReadByte PROGMEM mem a

/-- What the decoder has it answer: the value of the last write sent to the same cell. -/
theorem busReadByte_after {PROGMEM : Progmem} {mem mem' : Memory b} {ws : List (U16 × U8)}
    {a : U16} (hws : ∀ w ∈ ws, w.1.toNat < 0x8000) (ha : a.toNat < 0x8000)
    (hview : mem'.view = writeAll (cellIndex b) mem.view ws) :
    busReadByte PROGMEM mem' a =
      match lastWrite (fun x => DecodedTogether b x a) ws with
      | some w => some w.2
      | none => busReadByte PROGMEM mem a := by
  have hname : lastWrite (fun x => cellIndex b x = cellIndex b a) ws =
      lastWrite (fun x => DecodedTogether b x a) ws :=
    lastWrite_congr fun w hw => cellIndex_eq_iff (hws w hw) ha
  rw [busReadByte_eq, busReadByte_eq, peek_eq_view _ _ ha, peek_eq_view _ _ ha, hview,
    writeAll_apply, hname]
  cases lastWrite (fun x => DecodedTogether b x a) ws <;> rfl

theorem sameCell_high {x a : U16} (h4 : 0x4000 ≤ a.toNat) (h : SameCell x a) : x = a := by
  rcases h with h | h | h
  · omega
  · omega
  · exact h.2.2

/-- Apart from the twins, the decoder names cells as the store does. -/
theorem decodedTogether_iff_sameCell {x a : U16}
    (h : b.nesUseExpansionRom = true ∨ a.toNat < 0x4000) :
    DecodedTogether b x a ↔ SameCell x a := by
  refine or_iff_left ?_
  rintro ⟨hb, h4, -⟩
  rcases h with h | h
  · rw [hb] at h
    cases h
  · omega

/-- Where the two areas share cells, the decoder sends to the cell of `a` just `a` and its
    twin. -/
theorem decodedTogether_iff_twin {x a : U16} (hb : b.nesUseExpansionRom = false)
    (h4 : 0x4000 ≤ a.toNat) (ha : a.toNat < 0x8000) :
    DecodedTogether b x a ↔ x = a ∨ x = twin a := by
  constructor
  · rintro (h | ⟨-, -, h⟩)
    · exact Or.inl (sameCell_high h4 h)
    · exact Or.inr h
  · rintro (rfl | h)
    · exact Or.inl (Or.inr (Or.inr ⟨h4, ha, rfl⟩))
    · exact Or.inr ⟨hb, h4, h⟩

/-- The last write to `a` or to its twin is to `a`, or there is none, or it stores the byte
    the law expects at `a` anyway. -/
def TwinHarmless (PROGMEM : Progmem) (mem : Memory b) (ws : List (U16 × U8)) (a : U16) : Prop :=
  ∀ w, lastWrite (fun x => x = a ∨ x = twin a) ws = some w →
    w.1 = twin a → some w.2 = storeLaw PROGMEM mem ws a

/-- Among writes to an address and its twin, the law is kept exactly if the twin is harmless. -/
theorem storeLaw_iff_twinHarmless (PROGMEM : Progmem) (mem : Memory b) (ws : List (U16 × U8))
    {a : U16} (h4 : 0x4000 ≤ a.toNat) (ha : a.toNat < 0x8000) :
    (match lastWrite (fun x => x = a ∨ x = twin a) ws with
      | some w => some w.2
      | none => busReadByte PROGMEM mem a) = storeLaw PROGMEM mem ws a ↔
        TwinHarmless PROGMEM mem ws a := by
  have hsame : ∀ x, SameCell x a → x = a ∨ x = twin a := fun x hx => Or.inl (sameCell_high h4 hx)
  unfold TwinHarmless
  cases hlast : lastWrite (fun x => x = a ∨ x = twin a) ws with
  | none =>
    rw [storeLaw, lastWrite_none_of_imp hsame hlast]
    refine iff_of_true rfl ?_
    intro w hw
    cases hw
  | some w =>
    constructor
    · intro heq v hv _
      obtain rfl := Option.some.inj hv
      exact heq
    · intro h
      rcases lastWrite_spec hlast with hw | hw
      · have hq : SameCell w.1 a := Or.inr (Or.inr ⟨hw ▸ h4, hw ▸ ha, hw⟩)
        rw [storeLaw, lastWrite_of_imp hsame hlast hq]
      · exact h w rfl hw

/-- **After any writes below `0x8000`, a read obeys the store law exactly if** the build has
    the expansion ROM, or the address is below `0x4000`, or its twin did no harm. -/
theorem busReadByte_storeLaw_iff (b : Build) (PROGMEM : Progmem) (mem : Memory b)
    (ws : List (U16 × U8)) (a : U16) (hws : ∀ w ∈ ws, w.1.toNat < 0x8000)
    (ha : a.toNat < 0x8000) :
    ∃ mem', busWriteBytes mem ws = some mem' ∧
      (busReadByte PROGMEM mem' a = storeLaw PROGMEM mem ws a ↔
        b.nesUseExpansionRom = true ∨ a.toNat < 0x4000 ∨ TwinHarmless PROGMEM mem ws a) := by
  obtain ⟨mem', hmem', hview⟩ := busWriteBytes_view ws mem hws
  refine ⟨mem', hmem', ?_⟩
  rw [busReadByte_after hws ha hview, ← or_assoc]
  -- either the decoder and the store name cells alike, or `a` has a twin
  by_cases hsep : b.nesUseExpansionRom = true ∨ a.toNat < 0x4000
  · have hname : lastWrite (fun x => DecodedTogether b x a) ws =
        lastWrite (fun x => SameCell x a) ws :=
      lastWrite_congr fun w _ => decodedTogether_iff_sameCell hsep
    rw [hname]
    exact iff_of_true rfl (Or.inl hsep)
  · obtain ⟨hb, h4⟩ := not_or.mp hsep
    have h4 : 0x4000 ≤ a.toNat := Nat.le_of_not_lt h4
    have hname : lastWrite (fun x => DecodedTogether b x a) ws =
        lastWrite (fun x => x = a ∨ x = twin a) ws :=
      lastWrite_congr fun w _ => decodedTogether_iff_twin (Bool.eq_false_iff.mpr hb) h4 ha
    rw [hname, storeLaw_iff_twinHarmless PROGMEM mem ws h4 ha]
    exact (or_iff_right hsep).symm

/-- In the build with the expansion ROM, a write to the PPU is read back through a mirror. -/
theorem busReadByte_storeLaw_iff_ppu :
    ∃ mem', busWriteBytes (⟨fun _ => 0⟩ : Memory ⟨true⟩) [(0x2002, 7), (0x0002, 9)] = some mem' ∧
      (busReadByte (fun _ => 0) mem' 0x200A =
          storeLaw (fun _ => 0) (⟨fun _ => 0⟩ : Memory ⟨true⟩) [(0x2002, 7), (0x0002, 9)] 0x200A ↔
        (⟨true⟩ : Build).nesUseExpansionRom = true ∨ (0x200A : U16).toNat < 0x4000 ∨
          TwinHarmless (fun _ => 0) (⟨fun _ => 0⟩ : Memory ⟨true⟩)
            [(0x2002, 7), (0x0002, 9)] 0x200A) :=
  busReadByte_storeLaw_iff ⟨true⟩ (fun _ => 0) ⟨fun _ => 0⟩ [(0x2002, 7), (0x0002, 9)] 0x200A
    (List.forall_mem_cons.mpr ⟨by decide, List.forall_mem_singleton.mpr (by decide)⟩) (by decide)

/-- In the default build a write to SRAM at `0x6000` is read back in the APU at `0x4000`. -/
theorem not_storeLaw_default :
    ¬ ∀ (b : Build) (PROGMEM : Progmem) (mem : Memory b) (ws : List (U16 × U8)) (a : U16),
      (∀ w ∈ ws, w.1.toNat < 0x8000) → a.toNat < 0x8000 →
      ∃ mem', busWriteBytes mem ws = some mem' ∧
        busReadByte PROGMEM mem' a = storeLaw PROGMEM mem ws a := by
  intro h
  obtain ⟨mem', hmem', hread⟩ := h ⟨false⟩ (fun _ => 0) ⟨fun _ => 0⟩ [(0x6000, 5)] 0x4000
    (List.forall_mem_singleton.mpr (by decide)) (by decide)
  have hval : (busWriteBytes (⟨fun _ => 0⟩ : Memory ⟨false⟩) [(0x6000, 5)]).bind
      (fun mem' => busReadByte (fun _ => 0) mem' 0x4000) = some 5 := rfl
  rw [hmem', Option.bind_some, hread] at hval
  revert hval
  decide

end M6502
