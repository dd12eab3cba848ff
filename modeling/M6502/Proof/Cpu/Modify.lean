import M6502.Proof.Cpu.Shift

/-!
# Instructions that change a byte in place

A shift or a rotation takes its operand, from `A` or from memory, in the switch, and puts the
result back in a bit-field group; `shift_law` says the two fit together for each of the twenty
opcodes. `INC` and `DEC` are one group, which never reads the byte it is to change: it takes
`A` in its place (`stepOf_incDec`), and so is right exactly where the two are the same
(`incDec_iff`).
-/

set_option autoImplicit false

namespace M6502

open Lib Cpu

variable {b : Build} (PROGMEM : Progmem)

/-- The byte at `ea` becomes `v`, and no other cell changes. -/
structure BytePut (ea : U16) (v : U8) (mem mem' : Memory b) : Prop where
  byte : busReadByte PROGMEM mem' ea = some v
  others : ∀ j, j ≠ cellIndex b ea → mem'.view j = mem.view j

theorem bytePut_poke (mem : Memory b) {ea : U16} (v : U8) (h : ea.toNat < 0x8000) :
    BytePut PROGMEM ea v mem (poke mem ea v) := by
  constructor
  · rw [busReadByte_eq, peek_poke_same PROGMEM mem v h rfl]
  · intro j hj
    rw [view_poke mem v (storeInBounds_of_lt h), Function.update_of_ne hj]

/-- `Z` and `N` set from a byte. -/
def Olc6502.flagged (cpu : Olc6502) (v : U8) : Olc6502 :=
  { cpu with PS := { cpu.PS with Z := v == 0, N := v.getLsbD 7 } }

/-! ## Shifts and rotations -/

inductive ShiftOp
  | asl | lsr | rol | ror

/-- The operation, by mnemonic. -/
def Ins.shiftOp? : Ins → Option ShiftOp
  | .aslA | .aslZp | .aslZpx | .aslAbs | .aslAbsx => some .asl
  | .lsrA | .lsrZp | .lsrZpx | .lsrAbs | .lsrAbsx => some .lsr
  | .rolA | .rolZp | .rolZpx | .rolAbs | .rolAbsx => some .rol
  | .rorA | .rorZp | .rorZpx | .rorAbs | .rorAbsx => some .ror
  | _ => none

/-- The bit shifted in: the carry, or for the plain shifts 0. -/
def ShiftOp.bitIn (op : ShiftOp) (C : Bool) : Bool :=
  match op with
  | .asl | .lsr => false
  | .rol | .ror => C

/-- The operand and the bit shifted in, as nine bits: the byte they are shifted to, and the
    bit shifted out. -/
def ShiftOp.result (op : ShiftOp) (C : Bool) (M : U8) : U8 × Bool :=
  match op with
  | .asl | .rol =>
    let nine : BitVec 9 := M ++ BitVec.ofBool (op.bitIn C)
    (nine.setWidth 8, nine.getLsbD 8)
  | .lsr | .ror =>
    let nine : BitVec 9 := BitVec.ofBool (op.bitIn C) ++ M
    ((nine >>> 1).setWidth 8, nine.getLsbD 0)

/-- The flags after a shift: `C` from the bit shifted out, `Z` and `N` from the byte. -/
def Olc6502.shiftFlagged (cpu : Olc6502) (r : U8 × Bool) : Olc6502 :=
  { cpu with PS.C := r.2 }.flagged r.1

/-- The group computes the nine bits of its mnemonic. -/
theorem shiftResult_eq {i : Ins} {op : ShiftOp} (hop : i.shiftOp? = some op) (C : Bool) (M : U8) :
    shiftResult (fieldAaa i.opcode) C M = op.result C M := by
  have hall : ∀ (C : Bool) (M : U8),
      shiftResult 0 C M = ShiftOp.result .asl C M ∧
      shiftResult 1 C M = ShiftOp.result .rol C M ∧
      shiftResult 2 C M = ShiftOp.result .lsr C M ∧
      shiftResult 3 C M = ShiftOp.result .ror C M := by
    decide +kernel
  obtain ⟨hasl, hrol, hlsr, hror⟩ := hall C M
  cases i <;> cases hop <;> first | exact hasl | exact hrol | exact hlsr | exact hror

/-- A rotation and the one the other way undo each other. -/
theorem rotate_cancel : ∀ (C : Bool) (M : U8),
    ShiftOp.result .ror (ShiftOp.result .rol C M).2 (ShiftOp.result .rol C M).1 = (M, C) ∧
      ShiftOp.result .rol (ShiftOp.result .ror C M).2 (ShiftOp.result .ror C M).1 = (M, C) := by
  decide +kernel

theorem Olc6502.shifted_eq {i : Ins} {op : ShiftOp} (hop : i.shiftOp? = some op) (cpu : Olc6502)
    (M : U8) : cpu.shifted (fieldAaa i.opcode) M = cpu.shiftFlagged (op.result cpu.PS.C M) := by
  simp only [Olc6502.shifted, shiftResult_eq hop, and_0x80_ne_zero]
  rfl

theorem Ins.shiftOp_group {i : Ins} {op : ShiftOp} (hop : i.shiftOp? = some op) :
    i.group = .shift := by
  cases i <;> first | rfl | cases hop

theorem Ins.shiftOp_pushed {i : Ins} {op : ShiftOp} (hop : i.shiftOp? = some op) (cpu : Olc6502) :
    i.pushed cpu = [] := by
  cases i <;> first | rfl | cases hop

theorem Ins.accumulator_cases (i : Ins) (hm : i.mode = .accumulator) :
    i = .aslA ∨ i = .lsrA ∨ i = .rolA ∨ i = .rorA := by
  cases i <;> simp [mode] at hm ⊢

/-- What a shift stores at its effective address. -/
theorem Ins.shiftOp_store {i : Ins} {op : ShiftOp} (hop : i.shiftOp? = some op)
    (hm : i.mode ≠ .accumulator) :
    i.store? = some fun cpu v => (shiftResult (fieldAaa i.opcode) cpu.PS.C v).1 := by
  cases i <;> first | rfl | exact absurd rfl hm | cases hop

/-- What a shift of `A` does: it changes `A` and the flags, and writes nothing. -/
structure ShiftsA (op : ShiftOp) (x y : Machine b) : Prop where
  cpu : y.1.cpu =
    let r := op.result x.1.cpu.PS.C x.1.cpu.A
    { (x.1.cpu.past 1).shiftFlagged r with A := r.1 }
  writes : stepWrites PROGMEM x = []
  mem : y.2 = x.2

/-- What a shift of the byte `M` at `ea` does: it changes that byte and the flags. -/
structure ShiftsByte (i : Ins) (op : ShiftOp) (ea : U16) (M : U8) (x y : Machine b) : Prop where
  cpu : y.1.cpu = (x.1.cpu.past i.mode.length).shiftFlagged (op.result x.1.cpu.PS.C M)
  writes : stepWrites PROGMEM x = [(ea, (op.result x.1.cpu.PS.C M).1)]
  mem : BytePut PROGMEM ea (op.result x.1.cpu.PS.C M).1 x.2 y.2

theorem stepOf_shiftA {i : Ins} {op : ShiftOp} {x : Machine b} (h : At PROGMEM i x)
    (hop : i.shiftOp? = some op) (hm : i.mode = .accumulator) :
    ShiftsA PROGMEM op x (stepOf PROGMEM x) := by
  have hcpu : (stepOf PROGMEM x).1.cpu =
      { (x.1.cpu.advanced 1).shifted (fieldAaa i.opcode) x.1.cpu.A with
        A := (shiftResult (fieldAaa i.opcode) x.1.cpu.PS.C x.1.cpu.A).1 } := by
    rw [stepOf_arms PROGMEM h]
    rcases i.accumulator_cases hm with rfl | rfl | rfl | rfl <;> rfl
  have hwrites : i.writes PROGMEM x = [] := by
    rcases i.accumulator_cases hm with rfl | rfl | rfl | rfl <;> rfl
  obtain ⟨hquiet, hmem⟩ := stepOf_quiet PROGMEM h hwrites
  refine ⟨?_, hquiet, hmem⟩
  rw [hcpu, Olc6502.shifted_eq hop, shiftResult_eq hop]
  rfl

theorem stepOf_shiftByte {i : Ins} {op : ShiftOp} {x : Machine b} (h : At PROGMEM i x)
    (hop : i.shiftOp? = some op) (hm : i.mode ≠ .accumulator)
    (hlow : (effectiveAddress PROGMEM i.mode x).toNat < 0x8000) :
    ShiftsByte PROGMEM i op (effectiveAddress PROGMEM i.mode x)
      (peek PROGMEM x.2 (effectiveAddress PROGMEM i.mode x)) x (stepOf PROGMEM x) := by
  obtain ⟨hcpu, hmem⟩ := stepOf_shift PROGMEM h (Ins.shiftOp_group hop) hm
  rw [shiftResult_eq hop] at hmem
  refine ⟨?_, ?_, ?_⟩
  · rw [hcpu, Olc6502.advanced_eq, Olc6502.shifted_eq hop]
    rfl
  · rw [stepWrites_at PROGMEM h, Ins.writes, Ins.shiftOp_pushed hop, Ins.shiftOp_store hop hm,
      ← shiftResult_eq hop]
    rfl
  · rw [hmem]
    exact bytePut_poke PROGMEM x.2 _ hlow

/-- One of the two is `ROL` and the other `ROR`. -/
def ShiftOp.Undoes (op' op : ShiftOp) : Prop :=
  (op = .rol ∧ op' = .ror) ∨ (op = .ror ∧ op' = .rol)

theorem ShiftOp.Undoes.cancel {op op' : ShiftOp} (h : op'.Undoes op) (C : Bool) (M : U8) :
    op'.result (op.result C M).2 (op.result C M).1 = (M, C) := by
  obtain ⟨hror, hrol⟩ := rotate_cancel C M
  rcases h with ⟨rfl, rfl⟩ | ⟨rfl, rfl⟩
  · exact hror
  · exact hrol

theorem shiftsByte_of_documented {i : Ins} {op : ShiftOp} {ea : U16} {x : Machine b}
    (h : At PROGMEM i x) (hop : i.shiftOp? = some op)
    (hea : documentedAddress PROGMEM i.mode x = some ea) (hlow : ea.toNat < 0x8000) :
    ShiftsByte PROGMEM i op ea (peek PROGMEM x.2 ea) x (stepOf PROGMEM x) := by
  have hm : i.mode ≠ .accumulator := by
    intro hm
    rw [hm] at hea
    cases hea
  obtain rfl := effectiveAddress_of_documented PROGMEM hea
  exact stepOf_shiftByte PROGMEM h hop hm hlow

section Rotate

variable {PROGMEM} {i j : Ins} {op op' : ShiftOp} {x y z : Machine b}
variable (hop : i.shiftOp? = some op) (hop' : j.shiftOp? = some op') (hundo : op'.Undoes op)
variable (h : At PROGMEM i x) (hy : Next PROGMEM x y) (h' : At PROGMEM j y)
variable (hz : Next PROGMEM y z)
include hop hop' hundo h hy h' hz

theorem rotate_A (hm : i.mode = .accumulator) (hm' : j.mode = .accumulator) :
    z.1.cpu.A = x.1.cpu.A ∧ z.1.cpu.PS.C = x.1.cpu.PS.C := by
  have hfirst := (stepOf_shiftA PROGMEM h hop hm).cpu
  have hsecond := (stepOf_shiftA PROGMEM h' hop' hm').cpu
  rw [← (hy.stepOf PROGMEM).1] at hfirst
  rw [← (hz.stepOf PROGMEM).1] at hsecond
  rw [hsecond, hfirst]
  exact Prod.mk.inj (hundo.cancel x.1.cpu.PS.C x.1.cpu.A)

theorem rotate_byte {ea : U16} (hlow : ea.toNat < 0x8000)
    (hea : documentedAddress PROGMEM i.mode x = some ea)
    (hea' : documentedAddress PROGMEM j.mode y = some ea) :
    busReadByte PROGMEM z.2 ea = busReadByte PROGMEM x.2 ea ∧
      z.1.cpu.PS.C = x.1.cpu.PS.C := by
  obtain ⟨hcpu, hmem⟩ := hy.stepOf PROGMEM
  obtain ⟨hcpu', hmem'⟩ := hz.stepOf PROGMEM
  obtain ⟨hfirst, -, hput⟩ := shiftsByte_of_documented PROGMEM h hop hea hlow
  obtain ⟨hsecond, -, hput'⟩ := shiftsByte_of_documented PROGMEM h' hop' hea' hlow
  -- the byte and the carry the second rotation finds are those the first one left
  have hM := hput.byte
  rw [← hmem, busReadByte_eq] at hM
  rw [← hcpu] at hfirst
  have hM' := hput'.byte
  rw [← hmem', Option.some.inj hM, hfirst] at hM'
  rw [← hcpu', Option.some.inj hM, hfirst] at hsecond
  obtain ⟨hv, hC⟩ := Prod.mk.inj (hundo.cancel x.1.cpu.PS.C (peek PROGMEM x.2 ea))
  rw [hM', hsecond, busReadByte_eq]
  exact ⟨congrArg some hv, hC⟩

end Rotate

/-- **Each of the twenty shifts and rotations is the nine-bit one of its mnemonic**, on `A` or
    on the byte at its documented address. **So a rotation and then the one the other way**
    leave the byte and the carry as they were. -/
theorem shift_law (b : Build) (PROGMEM : Progmem) :
    (∀ (i : Ins) (op : ShiftOp) (x y : Machine b), i.shiftOp? = some op →
      i.mode = .accumulator → At PROGMEM i x → instructionOn PROGMEM x = some y →
      ShiftsA PROGMEM op x y) ∧
    (∀ (i : Ins) (op : ShiftOp) (ea : U16) (M : U8) (x y : Machine b), i.shiftOp? = some op →
      At PROGMEM i x → documentedAddress PROGMEM i.mode x = some ea → ea.toNat < 0x8000 →
      busReadByte PROGMEM x.2 ea = some M → instructionOn PROGMEM x = some y →
      ShiftsByte PROGMEM i op ea M x y) ∧
    (∀ (i j : Ins) (op op' : ShiftOp) (x y z : Machine b), i.shiftOp? = some op →
      j.shiftOp? = some op' → op'.Undoes op → At PROGMEM i x → Next PROGMEM x y →
      At PROGMEM j y → Next PROGMEM y z →
      (i.mode = .accumulator → j.mode = .accumulator →
        z.1.cpu.A = x.1.cpu.A ∧ z.1.cpu.PS.C = x.1.cpu.PS.C) ∧
      (∀ ea : U16, ea.toNat < 0x8000 → documentedAddress PROGMEM i.mode x = some ea →
        documentedAddress PROGMEM j.mode y = some ea →
        busReadByte PROGMEM z.2 ea = busReadByte PROGMEM x.2 ea ∧
          z.1.cpu.PS.C = x.1.cpu.PS.C)) := by
  refine ⟨?_, ?_, ?_⟩
  · intro i op x y hop hm h hy
    obtain ⟨-, rfl⟩ := (instructionOn_at PROGMEM h).mp hy
    exact stepOf_shiftA PROGMEM h hop hm
  · intro i op ea M x y hop h hea hlow hM hy
    obtain ⟨-, rfl⟩ := (instructionOn_at PROGMEM h).mp hy
    rw [busReadByte_eq] at hM
    obtain rfl := Option.some.inj hM
    exact shiftsByte_of_documented PROGMEM h hop hea hlow
  · intro i j op op' x y z hop hop' hundo h hy h' hz
    exact ⟨rotate_A hop hop' hundo h hy h' hz, fun ea => rotate_byte hop hop' hundo h hy h' hz⟩

/-- A program image of `ROL $24` and `ROR $24`. -/
def rotateProgmem : Progmem := fun i =>
  match i.val with
  | 0 => 0x26
  | 2 => 0x66
  | _ => 0x24

/-- With the carry set, and a byte that has its highest bit clear. -/
def rotateState : Machine ⟨false⟩ :=
  callStart { olc6502Init with PC := 0x8000, PS := .ofValue 0x01 } false ⟨fun _ => 0x40⟩ 10

theorem shift_law_rotate :
    let y := stepOf rotateProgmem rotateState
    ShiftsByte rotateProgmem .rolZp .rol 0x24 0x40 rotateState y ∧
    busReadByte rotateProgmem (stepOf rotateProgmem y).2 0x24 =
        busReadByte rotateProgmem rotateState.2 0x24 ∧
      (stepOf rotateProgmem y).1.cpu.PS.C = rotateState.1.cpu.PS.C := by
  have hsafe : StepSafe rotateProgmem rotateState := by decide
  have hsafe' : StepSafe rotateProgmem (stepOf rotateProgmem rotateState) := by decide
  obtain ⟨-, hshift, hrotate⟩ := shift_law ⟨false⟩ rotateProgmem
  constructor
  · exact hshift .rolZp .rol 0x24 0x40 rotateState _ rfl (by decide) (by decide) (by decide)
      (by decide) ((instructionOn_eq_some_iff _).mpr ⟨hsafe, rfl⟩)
  · exact (hrotate .rolZp .rorZp .rol .ror rotateState _ _ rfl rfl (.inl ⟨rfl, rfl⟩) (by decide)
      (.of_safe _ hsafe) (by decide) (.of_safe _ hsafe')).2 0x24 (by decide) (by decide) (by decide)

/-! ## Increments and decrements -/

/-- What `INC` and `DEC` make of the byte. -/
def Ins.counted? : Ins → Option (U8 → U8)
  | .incZp | .incZpx | .incAbs | .incAbsx => some fun M => M + 1
  | .decZp | .decZpx | .decAbs | .decAbsx => some fun M => M - 1
  | _ => none

/-- The byte at `ea` becomes `v` and the flags are set from it. -/
structure Counts (i : Ins) (ea : U16) (v : U8) (x y : Machine b) : Prop where
  cpu : y.1.cpu = (x.1.cpu.past i.mode.length).flagged v
  mem : BytePut PROGMEM ea v x.2 y.2

/-- The CPU after the group, with the flags as the code makes them. -/
def Olc6502.codeFlagged (cpu : Olc6502) (v : U8) : Olc6502 :=
  { cpu with PS := { cpu.PS with Z := v == 0, N := v &&& 0x80 != 0 } }

theorem Olc6502.codeFlagged_eq (cpu : Olc6502) (v : U8) : cpu.codeFlagged v = cpu.flagged v := by
  simp only [Olc6502.codeFlagged, Olc6502.flagged, and_0x80_ne_zero]

/-- `INC` and `DEC` store `A` plus or minus one. -/
theorem stepOf_incDec {i : Ins} {f : U8 → U8} {x : Machine b} (h : At PROGMEM i x)
    (hf : i.counted? = some f) :
    (stepOf PROGMEM x).1.cpu = (x.1.cpu.past i.mode.length).flagged (f x.1.cpu.A) ∧
      (stepOf PROGMEM x).2 =
        poke x.2 (effectiveAddress PROGMEM i.mode x) (f x.1.cpu.A) := by
  rw [← Olc6502.codeFlagged_eq, ← Olc6502.advanced_eq, stepOf_mem PROGMEM h, stepOf_arms PROGMEM h]
  cases i <;> cases hf <;> exact ⟨rfl, rfl⟩

theorem Ins.counted_injective {i : Ins} {f : U8 → U8} (hf : i.counted? = some f) {v w : U8}
    (h : f v = f w) : v = w := by
  cases i <;> cases hf <;> bv_omega

/-- **`INC` and `DEC` count the byte at their address exactly if** it is the one in `A`. -/
theorem incDec_iff (b : Build) (PROGMEM : Progmem) (i : Ins) (f : U8 → U8) (ea : U16) (M : U8)
    (x y : Machine b) (hf : i.counted? = some f) (h : At PROGMEM i x)
    (hea : documentedAddress PROGMEM i.mode x = some ea) (hlow : ea.toNat < 0x8000)
    (hM : busReadByte PROGMEM x.2 ea = some M) (hy : instructionOn PROGMEM x = some y) :
    Counts PROGMEM i ea (f M) x y ↔ x.1.cpu.A = M := by
  obtain ⟨-, rfl⟩ := (instructionOn_at PROGMEM h).mp hy
  obtain ⟨hcpu, hmem⟩ := stepOf_incDec PROGMEM h hf
  obtain rfl := effectiveAddress_of_documented PROGMEM hea
  have hput := bytePut_poke PROGMEM x.2 (f x.1.cpu.A) hlow
  rw [← hmem] at hput
  constructor
  · intro hcounts
    have hbyte := hput.byte.symm.trans hcounts.mem.byte
    exact Ins.counted_injective hf (Option.some.inj hbyte)
  · rintro rfl
    exact ⟨hcpu, hput⟩

/-- A program image of `INC $24`. -/
def incProgmem : Progmem := fun i => if i.val = 0 then 0xE6 else 0x24

/-- With `A` in `A` and 5 in every cell. -/
def incState (A : U8) : Machine ⟨false⟩ :=
  callStart { olc6502Init with PC := 0x8000, A := A } false ⟨fun _ => 0x05⟩ 5

theorem incDec_iff_inc :
    Counts incProgmem .incZp 0x24 0x06 (incState 5) (stepOf incProgmem (incState 5)) ↔
      (incState 5).1.cpu.A = 0x05 :=
  incDec_iff ⟨false⟩ incProgmem .incZp _ 0x24 0x05 (incState 5) _ rfl (by decide) (by decide)
    (by decide) (by decide) ((instructionOn_eq_some_iff _).mpr ⟨by decide, rfl⟩)

/-- With 0 in `A`, the 5 becomes a 1. -/
theorem not_incDec :
    ¬ ∀ (b : Build) (PROGMEM : Progmem) (i : Ins) (f : U8 → U8) (ea : U16) (M : U8)
      (x y : Machine b), i.counted? = some f → At PROGMEM i x →
      documentedAddress PROGMEM i.mode x = some ea → ea.toNat < 0x8000 →
      busReadByte PROGMEM x.2 ea = some M → instructionOn PROGMEM x = some y →
      Counts PROGMEM i ea (f M) x y := by
  intro h
  have hstep := h ⟨false⟩ incProgmem .incZp _ 0x24 0x05 (incState 0) _ rfl (by decide) (by decide)
    (by decide) (by decide) ((instructionOn_eq_some_iff _).mpr ⟨by decide, rfl⟩)
  exact absurd hstep.mem.byte (by decide)

end M6502
