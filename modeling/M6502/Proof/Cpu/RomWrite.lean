import M6502.Proof.Bus.Word
import M6502.Proof.Cpu.Stack

/-!
# Writes to PRG ROM

Reads from `0x8000` on go to `PROGMEM`; writes have no such test, and go to the cell of the
memory array at the same offset. Every cell of the array is what some address below
`0x8000` names (`cellIndex_surj`), so a write to PRG ROM is unseen exactly if it leaves the
array as it was (`sameBelowRom_iff`): if there is a cell at that offset and it holds the
byte already.
-/

set_option autoImplicit false

namespace M6502

variable {b : Build} (PROGMEM : Progmem)

/-- No byte read below `0x8000` tells the two memories apart. -/
def SameBelowRom (mem mem' : Memory b) : Prop :=
  ∀ a : U16, a.toNat < 0x8000 → busReadByte PROGMEM mem' a = busReadByte PROGMEM mem a

theorem cellIndex_surj {i : Nat} (h : i < totalMemorySize b) :
    ∃ a : U16, a.toNat < 0x8000 ∧ cellIndex b a = i := by
  have htot := totalMemorySize_eq b
  have hexp := expansionRomSize_le b
  by_cases h1 : i < 0x800
  · refine ⟨.ofNat 16 i, ?_, ?_⟩
    · rw [BitVec.toNat_ofNat]
      omega
    · unfold cellIndex
      rw [BitVec.toNat_ofNat, if_pos (by omega)]
      omega
  by_cases h2 : i < 0x808
  · refine ⟨.ofNat 16 (0x2000 + (i - 0x800)), ?_, ?_⟩
    · rw [BitVec.toNat_ofNat]
      omega
    · unfold cellIndex
      rw [BitVec.toNat_ofNat, if_neg (by omega), if_pos (by omega)]
      omega
  · -- without the expansion ROM every cell from here on is also an address below `0x6000`
    have hval := toNat_ofNat_address (show 0x4000 + (i - 0x808) < 0x10000 by omega)
    refine ⟨.ofNat 16 (0x4000 + (i - 0x808)), ?_, ?_⟩
    · omega
    · unfold cellIndex
      rw [hval, if_neg (by omega), if_neg (by omega)]
      by_cases h3 : 0x4000 + (i - 0x808) < 0x6000
      · rw [if_pos h3]
        omega
      · have hfull : expansionRomSize b = 0x2000 := by
          by_cases hb : b.nesUseExpansionRom = true
          · exact if_pos hb
          · have h0 : expansionRomSize b = 0 := if_neg hb
            omega
        rw [if_neg h3, if_pos (by omega), hfull]
        omega

theorem sameBelowRom_iff {mem mem' : Memory b} : SameBelowRom PROGMEM mem mem' ↔ mem' = mem := by
  constructor
  · intro h
    apply Memory.view_inj
    funext i
    by_cases hi : i < totalMemorySize b
    · obtain ⟨a, ha, rfl⟩ := cellIndex_surj hi
      have hread := h a ha
      rw [busReadByte_view _ _ ha, busReadByte_view _ _ ha] at hread
      exact Option.some.inj hread
    · unfold Memory.view
      rw [dif_neg hi, dif_neg hi]
  · rintro rfl a _
    rfl

/-- There is a cell at index `i`, and it holds `v`. -/
def AlreadyHolds (mem : Memory b) (i : Nat) (v : U8) : Prop :=
  i < totalMemorySize b ∧ mem.view i = v

/-! ## The bus -/

theorem romWriteByte_iff (mem : Memory b) {a : U16} (v : U8) (ha : 0x8000 ≤ a.toNat) :
    (∃ mem', busWriteByte mem a v = some mem' ∧ SameBelowRom PROGMEM mem mem') ↔
      AlreadyHolds mem (a.toNat - 0x8000) v := by
  have hcell := cellIndex_rom (b := b) ha
  have hlt := cellIndex_lt_iff (b := b) (a := a)
  rw [hcell] at hlt
  unfold AlreadyHolds
  rw [busWriteByte_eq]
  unfold poke
  rw [hcell, hlt]
  constructor
  · rintro ⟨mem', hmem', hsame⟩
    obtain rfl := (sameBelowRom_iff PROGMEM).mp hsame
    by_cases hs : StoreInBounds b a
    · rw [if_pos hs] at hmem'
      exact ⟨hs, (pokeCell_eq_self_iff _ v (hlt.mpr hs)).mp (Option.some.inj hmem')⟩
    · rw [if_neg hs] at hmem'
      cases hmem'
  · rintro ⟨hs, hv⟩
    refine ⟨mem, ?_, (sameBelowRom_iff PROGMEM).mpr rfl⟩
    rw [if_pos hs, (pokeCell_eq_self_iff mem v (hlt.mpr hs)).mpr hv]

theorem romWriteWord_iff (mem : Memory b) {a : U16} (w : U16) (ha : 0x8000 ≤ a.toNat) :
    (∃ mem', busWriteWord mem a w = some mem' ∧ SameBelowRom PROGMEM mem mem') ↔
      AlreadyHolds mem (a.toNat - 0x8000) (w.setWidth 8) ∧
        AlreadyHolds mem (a.toNat - 0x8000 + 1) ((w >>> 8).setWidth 8) := by
  have hcell := cellIndex_rom (b := b) ha
  unfold AlreadyHolds
  rw [busWriteWord_eq]
  unfold poke
  rw [hcell]
  by_cases hlt : a.toNat - 0x8000 + 1 < totalMemorySize b
  · have hlt' : a.toNat - 0x8000 < totalMemorySize b := by omega
    rw [if_pos hlt]
    constructor
    · rintro ⟨mem', hmem', hsame⟩
      obtain rfl := (sameBelowRom_iff PROGMEM).mp hsame
      have hview := congrArg Memory.view (Option.some.inj hmem')
      rw [view_pokeCell _ _ hlt, view_pokeCell _ _ hlt'] at hview
      have hlow := congrFun hview (a.toNat - 0x8000)
      have hhigh := congrFun hview (a.toNat - 0x8000 + 1)
      rw [Function.update_of_ne (by omega), Function.update_self] at hlow
      rw [Function.update_self] at hhigh
      exact ⟨⟨hlt', hlow.symm⟩, hlt, hhigh.symm⟩
    · rintro ⟨⟨-, hlow⟩, -, hhigh⟩
      refine ⟨mem, ?_, (sameBelowRom_iff PROGMEM).mpr rfl⟩
      rw [(pokeCell_eq_self_iff mem _ hlt').mpr hlow, (pokeCell_eq_self_iff mem _ hlt).mpr hhigh]
  · rw [if_neg hlt]
    refine iff_of_false ?_ fun h => hlt h.2.1
    rintro ⟨mem', hmem', -⟩
    cases hmem'

/-! ## Instructions -/

/-- The store of an instruction leaves the memory as it was exactly if the byte write does. -/
theorem romStore_iff (mem : Memory b) {a : U16} (v : U8) (ha : 0x8000 ≤ a.toNat) :
    StoreInBounds b a ∧ poke mem a v = mem ↔ AlreadyHolds mem (a.toNat - 0x8000) v := by
  have hlt := cellIndex_lt_iff (b := b) (a := a)
  unfold AlreadyHolds poke
  rw [cellIndex_rom ha] at hlt ⊢
  rw [← hlt]
  exact and_congr_right fun h => pokeCell_eq_self_iff mem v h

/-- Of the instructions with an effective address, `JSR` stores nothing there and the others
    push nothing. -/
theorem store_or_push {i : Ins} {x : Machine b}
    (ha : 0x8000 ≤ (effectiveAddress PROGMEM i.mode x).toNat) (cpu : Olc6502) :
    i.store? = none ∧ (i.pushed cpu).length ≤ 256 ∨ i.pushed cpu = [] := by
  cases i
  case jsr => exact Or.inl ⟨rfl, show 2 ≤ 256 by decide⟩
  case brk | pha | php | txs => exact absurd ha (show ¬ 0x8000 ≤ (0 : U16).toNat by decide)
  all_goals exact Or.inr rfl

theorem romInstruction_iff {i : Ins} {x : Machine b} (h : At PROGMEM i x)
    (ha : 0x8000 ≤ (effectiveAddress PROGMEM i.mode x).toNat) :
    (∃ y, instructionOn PROGMEM x = some y ∧ SameBelowRom PROGMEM x.2 y.2) ↔
      (i.mode.HasOperandWord → WordInBounds b (operandAt x)) ∧
        (∀ f, i.store? = some f →
          AlreadyHolds x.2 ((effectiveAddress PROGMEM i.mode x).toNat - 0x8000)
            (f x.1.cpu (peek PROGMEM x.2 (effectiveAddress PROGMEM i.mode x)))) ∧
        ∀ w ∈ stackWrites x.1.cpu.SP (i.pushed x.1.cpu),
          busReadByte PROGMEM x.2 w.1 = some w.2 := by
  rw [exists_instructionOn_iff, sameBelowRom_iff, stepSafe_iff PROGMEM h, stepOf_mem PROGMEM h,
    and_assoc]
  refine and_congr_right fun _ => ?_
  simp only [busReadByte_eq, Option.some_inj]
  unfold Ins.writes
  rcases store_or_push PROGMEM ha x.1.cpu with ⟨hs, hlen⟩ | hp
  · rw [hs, List.nil_append, pokes_stackWrites_eq_self_iff PROGMEM hlen]
    exact and_congr_left' (iff_of_true (fun hf => by cases hf) (fun f hf => by cases hf))
  · rw [hp]
    cases hs : i.store? with
    | none =>
      refine iff_of_true ⟨(fun hf => by cases hf), rfl⟩ ⟨(fun f hf => by cases hf), ?_⟩
      exact fun w hw => by cases hw
    | some f =>
      have hstore := romStore_iff x.2
        (f x.1.cpu (peek PROGMEM x.2 (effectiveAddress PROGMEM i.mode x))) ha
      constructor
      · rintro ⟨hb, heq⟩
        refine ⟨fun g hg => ?_, fun w hw => by cases hw⟩
        obtain rfl := Option.some.inj hg
        exact hstore.mp ⟨hb rfl, heq⟩
      · rintro ⟨hall, -⟩
        obtain ⟨hb, heq⟩ := hstore.mpr (hall f rfl)
        exact ⟨fun _ => hb, heq⟩

/-- **A write to PRG ROM is unseen below `0x8000` exactly if** the memory array has a cell at
    the same offset, and that cell holds the byte already. So for the byte write, the word
    write and every instruction, at its effective address; what `JSR` writes is its return
    address, to the stack. -/
theorem romWrite_iff (b : Build) (mem : Memory b) (a : U16) (ha : 0x8000 ≤ a.toNat) :
    (∀ v, (∃ mem', busWriteByte mem a v = some mem' ∧ SameBelowRom PROGMEM mem mem') ↔
      AlreadyHolds mem (a.toNat - 0x8000) v) ∧
    (∀ w, (∃ mem', busWriteWord mem a w = some mem' ∧ SameBelowRom PROGMEM mem mem') ↔
      AlreadyHolds mem (a.toNat - 0x8000) (w.setWidth 8) ∧
        AlreadyHolds mem (a.toNat - 0x8000 + 1) ((w >>> 8).setWidth 8)) ∧
    (∀ (i : Ins) (s : Clock), At PROGMEM i (s, mem) →
      effectiveAddress PROGMEM i.mode (s, mem) = a →
      ((∃ y, instructionOn PROGMEM (s, mem) = some y ∧ SameBelowRom PROGMEM mem y.2) ↔
        (i.mode.HasOperandWord → WordInBounds b (operandAt (s, mem))) ∧
          (∀ f, i.store? = some f →
            AlreadyHolds mem (a.toNat - 0x8000) (f s.cpu (peek PROGMEM mem a))) ∧
          ∀ w ∈ stackWrites s.cpu.SP (i.pushed s.cpu),
            busReadByte PROGMEM mem w.1 = some w.2)) := by
  refine ⟨fun v => romWriteByte_iff PROGMEM mem v ha, fun w => romWriteWord_iff PROGMEM mem w ha,
    fun i s hat hea => ?_⟩
  subst hea
  exact romInstruction_iff PROGMEM hat ha

/-- A program image whose first instruction is `STA $8000`. -/
def staProgmem : Progmem := fun i =>
  if i.val = 0 then 0x8D else if i.val = 2 then 0x80 else 0x00

/-- About to execute it with `A = 0`, on a cleared memory. -/
def staState : Machine ⟨false⟩ :=
  ({ cpu := { olc6502Init with PC := 0x8000 }, cycles := ⟨4, false⟩, oopsCycle := false,
     addr := 0, fetched := 0, temp := 0 }, ⟨fun _ => 0⟩)

/-- `STA $8000` where the array already holds `A` at index 0. -/
theorem romWrite_iff_sta :
    (∃ y, instructionOn staProgmem staState = some y ∧
        SameBelowRom staProgmem staState.2 y.2) ↔
      (Ins.staAbs.mode.HasOperandWord → WordInBounds ⟨false⟩ (operandAt staState)) ∧
        (∀ f, Ins.staAbs.store? = some f →
          AlreadyHolds staState.2 ((0x8000 : U16).toNat - 0x8000)
            (f staState.1.cpu (peek staProgmem staState.2 0x8000))) ∧
        ∀ w ∈ stackWrites staState.1.cpu.SP (Ins.staAbs.pushed staState.1.cpu),
          busReadByte staProgmem staState.2 w.1 = some w.2 :=
  (romWrite_iff staProgmem ⟨false⟩ staState.2 0x8000 (by decide)).2.2 .staAbs staState.1
    (by decide) (by decide)

/-- Writing to `0x8000` changes the byte at `0x0000`. -/
theorem not_romWrite :
    ¬ ∀ (b : Build) (PROGMEM : Progmem) (mem : Memory b) (a : U16) (v : U8), 0x8000 ≤ a.toNat →
      ∃ mem', busWriteByte mem a v = some mem' ∧ SameBelowRom PROGMEM mem mem' := by
  intro h
  obtain ⟨mem', hmem', hsame⟩ := h ⟨false⟩ (fun _ => 0) ⟨fun _ => 0⟩ 0x8000 5 (by decide)
  have hval : (busWriteByte (⟨fun _ => 0⟩ : Memory ⟨false⟩) 0x8000 5).bind
      (fun mem' => busReadByte (fun _ => 0) mem' 0x0000) = some 5 := by decide
  rw [hmem', Option.bind_some, hsame 0x0000 (by decide)] at hval
  revert hval
  decide

end M6502
