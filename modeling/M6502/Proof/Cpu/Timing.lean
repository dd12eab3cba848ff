import M6502.Proof.Cpu.Budget
import M6502.Proof.Cpu.Operand

/-!
# The cycle table

`Ins.documentedCycles` is the timing table of the 6502. The code has no table: the addressing
helper, the case of the switch and the group after it each subtract their share, and
`stepOf_cycles` says that the shares are those of `Ins.ticks`. They add up to the table but
for the fourteen opcodes of `mistimed`.
-/

set_option autoImplicit false

namespace M6502

open Lib Cpu

variable {b : Build} (PROGMEM : Progmem)

/-! ## The table -/

/-- The address an index register is added to. -/
def baseAddress (m : Mode) (x : Machine b) : U16 :=
  match m with
  | .absoluteX | .absoluteY => operandWord PROGMEM x
  | .indirectY => peekWord PROGMEM x.2 ((operandByte PROGMEM x).setWidth 16)
  | m => effectiveAddress PROGMEM m x

/-- The indexed address is on another page than the base. -/
def crossesPage (m : Mode) (x : Machine b) : Bool :=
  (baseAddress PROGMEM m x).toNat / 256 != (effectiveAddress PROGMEM m x).toNat / 256

/-- The instruction reads a byte, changes it and stores it back. -/
def Ins.Modifies (i : Ins) : Prop := i.group = .shift ∨ i.group = .incDec

instance (i : Ins) : Decidable i.Modifies := inferInstanceAs (Decidable (_ ∨ _))

/-- The documented cycles of an opcode that is not a branch. -/
def Ins.documentedCycles (i : Ins) (crossed : Bool) : Nat :=
  match i with
  | .brk => 7
  | .jsr | .rts | .rti => 6
  | .pla | .plp => 4
  | .pha | .php | .jmpAbs => 3
  | i =>
    match i.mode with
    | .implied | .accumulator | .immediate | .relative => 2
    | .zeroPage => if i.Modifies then 5 else 3
    | .zeroPageX | .zeroPageY => if i.Modifies then 6 else 4
    | .absolute => if i.Modifies then 6 else 4
    | .absoluteX | .absoluteY =>
      if i.Modifies then 7 else if i.store?.isSome ∨ crossed then 5 else 4
    | .indirect => 5
    | .indirectX => 6
    | .indirectY => if i.store?.isSome ∨ crossed then 6 else 5

/-- The opcodes whose case or group subtracts too little, or for `CPX #` and `CPY #` too much:
    the group takes their `bbb = 0` for `(zp,X)`. -/
def mistimed : List Ins :=
  [.ldaZp, .adcZpx, .sbcZpx, .cmpZpx, .cpxIm, .cpyIm, .ldaIndx, .staIndx, .andIndx, .oraIndx,
   .eorIndx, .adcIndx, .sbcIndx, .cmpIndx]

/-- The instruction reads an operand and stores nothing. -/
def Ins.Reads (i : Ins) : Prop :=
  i.mode ∉ [.implied, .accumulator, .relative, .indirect] ∧ i.store? = none ∧
    i ≠ .jmpAbs ∧ i ≠ .jsr

instance (i : Ins) : Decidable i.Reads :=
  haveI : Decidable (i.store? = none) :=
    decidable_of_iff (i.store?.isNone) Option.isNone_iff_eq_none
  inferInstanceAs (Decidable (_ ∧ _ ∧ _ ∧ _))

/-! ## What the code subtracts -/

/-- The page test as the code makes it. -/
theorem crossesPage_eq (m : Mode) (x : Machine b) :
    (baseAddress PROGMEM m x &&& 0xFF00 != effectiveAddress PROGMEM m x &&& 0xFF00) =
      crossesPage PROGMEM m x := by
  unfold crossesPage
  rw [Bool.eq_iff_iff, bne_iff_ne, bne_iff_ne, ne_eq, ne_eq, page_eq_iff]

theorem stepOf_cycles {i : Ins} {x : Machine b} (h : At PROGMEM i x) (hb : i.group ≠ .branch) :
    (stepOf PROGMEM x).1.cycles =
      x.1.cycles.subs (1 :: i.ticks false (crossesPage PROGMEM i.mode x)) := by
  rw [stepOf_arms PROGMEM h, ← crossesPage_eq]
  cases i <;> first | exact absurd rfl hb | rfl

/-- What one instruction costs. -/
def cost (x y : Machine b) : Int := x.1.cycles.val - y.1.cycles.val

theorem cost_eq {i : Ins} {x y : Machine b} (h : At PROGMEM i x) (hb : i.group ≠ .branch)
    (hy : instructionOn PROGMEM x = some y) :
    cost x y = 1 + (i.ticks false (crossesPage PROGMEM i.mode x)).sum := by
  obtain ⟨-, rfl⟩ := (instructionOn_eq_some_iff PROGMEM).mp hy
  unfold cost
  rw [stepOf_cycles PROGMEM h hb, Cycles.subs_val, List.sum_cons]
  omega

/-! ## The two tables -/

theorem ticks_eq_iff {i : Ins} (hb : i.group ≠ .branch) (crossed : Bool) :
    1 + (i.ticks false crossed).sum = i.documentedCycles crossed ↔ i ∉ mistimed := by
  have hall : ∀ i ∈ Ins.all, i.group ≠ .branch → ∀ crossed : Bool,
      (1 + (i.ticks false crossed).sum = i.documentedCycles crossed ↔ i ∉ mistimed) := by
    decide +kernel
  exact hall i i.mem_all hb crossed

/-- Two reads in one mode, that cross a page or not alike. -/
theorem ticks_reads_iff {i j : Ins} (hi : i.Reads) (hj : j.Reads) (hm : i.mode = j.mode)
    (crossed : Bool) :
    (i.ticks false crossed).sum = (j.ticks false crossed).sum ↔
      (i ∈ mistimed ↔ j ∈ mistimed) := by
  -- over the table, pair by pair
  have hall : ∀ i ∈ Ins.all, i.Reads → ∀ j ∈ Ins.all, j.Reads → i.mode = j.mode →
      ∀ crossed : Bool, ((i.ticks false crossed).sum = (j.ticks false crossed).sum ↔
        (i ∈ mistimed ↔ j ∈ mistimed)) := by
    decide +kernel
  exact hall i i.mem_all hi j j.mem_all hj hm crossed

theorem Ins.mode_branch {i : Ins} (hb : i.group = .branch) : i.mode = .relative := by
  cases i <;> first | rfl | cases hb

theorem Ins.Reads.not_branch {i : Ins} (h : i.Reads) : i.group ≠ .branch := by
  intro hb
  have hmode := h.1
  rw [Ins.mode_branch hb] at hmode
  exact absurd hmode (by simp)

/-- **An instruction costs what the table says exactly if** it is not one of the fourteen.
    **So two reads in one mode cost the same exactly if** both are among them or neither is. -/
theorem timing_iff (b : Build) (PROGMEM : Progmem) :
    (∀ (i : Ins) (x y : Machine b), i.group ≠ .branch → At PROGMEM i x →
      instructionOn PROGMEM x = some y →
      (cost x y = i.documentedCycles (crossesPage PROGMEM i.mode x) ↔ i ∉ mistimed)) ∧
    (∀ (i j : Ins) (x y x' y' : Machine b), i.Reads → j.Reads → i.mode = j.mode →
      At PROGMEM i x → instructionOn PROGMEM x = some y →
      At PROGMEM j x' → instructionOn PROGMEM x' = some y' →
      crossesPage PROGMEM i.mode x = crossesPage PROGMEM j.mode x' →
      (cost x y = cost x' y' ↔ (i ∈ mistimed ↔ j ∈ mistimed))) := by
  constructor
  · intro i x y hb hat hy
    rw [cost_eq PROGMEM hat hb hy, ← ticks_eq_iff hb (crossesPage PROGMEM i.mode x)]
    omega
  · intro i j x y x' y' hi hj hm hat hy hat' hy' hcross
    rw [cost_eq PROGMEM hat hi.not_branch hy, cost_eq PROGMEM hat' hj.not_branch hy', hcross,
      ← ticks_reads_iff hi hj hm (crossesPage PROGMEM j.mode x')]
    omega

/-- A program image of `LDA $00` and `LDX $00`. -/
def timingProgmem : Progmem := fun i =>
  if i.val = 0 then 0xA5 else if i.val = 2 then 0xA6 else 0x00

def timingState : Machine ⟨false⟩ :=
  (clockStart { olc6502Init with PC := 0x8000 } false 20, ⟨fun _ => 0⟩)

/-- `LDX $00` costs the three cycles of the table. -/
theorem timing_iff_ldx :
    cost (stepOf timingProgmem timingState)
        (stepOf timingProgmem (stepOf timingProgmem timingState)) =
      Ins.documentedCycles .ldxZp (crossesPage timingProgmem Ins.ldxZp.mode
        (stepOf timingProgmem timingState)) ↔ Ins.ldxZp ∉ mistimed :=
  (timing_iff ⟨false⟩ timingProgmem).1 .ldxZp _ _ (by decide) (by decide)
    ((instructionOn_eq_some_iff _).mpr ⟨⟨trivial, trivial, trivial⟩, rfl⟩)

/-- `LDA $00` costs two. -/
theorem not_timing :
    ¬ ∀ (b : Build) (PROGMEM : Progmem) (i : Ins) (x y : Machine b), i.group ≠ .branch →
      At PROGMEM i x → instructionOn PROGMEM x = some y →
      cost x y = i.documentedCycles (crossesPage PROGMEM i.mode x) := by
  intro h
  have hcost := h ⟨false⟩ timingProgmem .ldaZp timingState (stepOf timingProgmem timingState)
    (by decide) (by decide)
    ((instructionOn_eq_some_iff _).mpr ⟨⟨trivial, trivial, trivial⟩, rfl⟩)
  exact absurd hcost (by decide)

end M6502
