import M6502.Lib.Leads
import M6502.Proof.Cpu.Family
import M6502.Proof.Cpu.Nesting

/-!
# Saving and restoring the stack pointer

`TSX` and `TXS` are documented to move the stack pointer to `X` and back. In the code they
move a byte of the stack: `TSX` loads `X` from the cell `SP` points at, and `TXS` stores `X`
there. So in no run is the pair what it is for. `stackPointer_never` also says what is left
of the idiom: `SP` is back exactly if it never went away.
-/

set_option autoImplicit false

namespace M6502

open Lib Cpu

variable {b : Build} (PROGMEM : Progmem)

/-! ## The law -/

/-- `TSX` from `x₀` to `x₁`, any instructions that leave `X` alone up to `x₂`, and `TXS` from
    there to `y`. -/
structure UnwindRun (x₀ x₁ x₂ y : Machine b) : Prop where
  tsx : At PROGMEM .tsx x₀
  save : Next PROGMEM x₀ x₁
  between : ∃ k, Steps (Next PROGMEM) k x₁ x₂
  keeps : x₂.1.cpu.X = x₁.1.cpu.X
  txs : At PROGMEM .txs x₂
  restore : Next PROGMEM x₂ y

/-- The addresses of the bytes an operation reads or writes. -/
def BusOp.addresses : BusOp → List U16
  | .readByte a => [a]
  | .readWord a => [a, a + 1]
  | .writeByte a _ => [a]

/-- The next instruction, once fetched, reads or writes a cell of the stack. -/
def TouchesStack (x : Machine b) : Prop :=
  ∃ o ∈ (execute (opcodeAt PROGMEM x) x.1.afterFetch).trace (busTotal PROGMEM) x.2,
    ∃ a ∈ o.1.addresses, StackCell (cellIndex b a)

/-- What `TSX` and `TXS` are for. -/
structure SavesAndRestores (x₀ x₁ x₂ y : Machine b) : Prop where
  sp : y.1.cpu.SP = x₀.1.cpu.SP
  flags : x₁.1.cpu.PS.Z = (x₀.1.cpu.SP == 0) ∧ x₁.1.cpu.PS.N = x₀.1.cpu.SP.getLsbD 7
  untouched : ¬ TouchesStack PROGMEM x₀ ∧ ¬ TouchesStack PROGMEM x₂
  mem : x₁.2 = x₀.2 ∧ y.2 = x₂.2
  status : y.1.cpu.PS = { x₂.1.cpu.PS with I := x₂.1.cpu.iNxt }

/-! ## What the code computes -/

/-- The cell `SP` points at. -/
def topOfStack (x : Machine b) : U8 := peek PROGMEM x.2 (stackAddress x.1.cpu.SP)

theorem stepOf_tsx {x : Machine b} (h : At PROGMEM .tsx x) :
    (stepOf PROGMEM x).1.cpu = (x.1.cpu.past 1).loaded .X (topOfStack PROGMEM x) ∧
      (stepOf PROGMEM x).2 = x.2 := by
  rw [← Olc6502.updated_eq, stepOf_arms PROGMEM h]
  exact ⟨rfl, rfl⟩

theorem stepOf_txs {x : Machine b} (h : At PROGMEM .txs x) :
    (stepOf PROGMEM x).1.cpu = x.1.cpu.past 1 ∧
      (stepOf PROGMEM x).2 = poke x.2 (stackAddress x.1.cpu.SP) x.1.cpu.X := by
  rw [stepOf_arms PROGMEM h]
  exact ⟨rfl, rfl⟩

theorem tsx_touchesStack {x : Machine b} (h : At PROGMEM .tsx x) : TouchesStack PROGMEM x := by
  have hop : opcodeAt PROGMEM x = Ins.tsx.opcode := h
  unfold TouchesStack
  rw [hop, execute_opcode]
  exact ⟨_, .head _, _, .head _, stackCell_stackAddress x.1.cpu.SP⟩

theorem txs_touchesStack {x : Machine b} (h : At PROGMEM .txs x) : TouchesStack PROGMEM x := by
  have hop : opcodeAt PROGMEM x = Ins.txs.opcode := h
  unfold TouchesStack
  rw [hop, execute_opcode]
  exact ⟨_, .head _, _, .head _, stackCell_stackAddress x.1.cpu.SP⟩

/-- **`TSX` and `TXS` never save and restore `SP`**: both touch the stack. The stack pointer is
    back after the `TXS` exactly if the run in between brought it back, the flags of the `TSX` are
    those of the byte it loaded, and the `TXS` leaves the memory alone exactly if that byte is
    still there. -/
theorem stackPointer_never (b : Build) (PROGMEM : Progmem) (x₀ x₁ x₂ y : Machine b)
    (h : UnwindRun PROGMEM x₀ x₁ x₂ y) :
    ¬ SavesAndRestores PROGMEM x₀ x₁ x₂ y ∧
    (TouchesStack PROGMEM x₀ ∧ TouchesStack PROGMEM x₂) ∧
    (y.1.cpu.SP = x₀.1.cpu.SP ↔ x₂.1.cpu.SP = x₀.1.cpu.SP) ∧
    (x₁.1.cpu.PS.Z = (topOfStack PROGMEM x₀ == 0) ∧
      x₁.1.cpu.PS.N = (topOfStack PROGMEM x₀).getLsbD 7) ∧
    (y.2 = x₂.2 ↔ topOfStack PROGMEM x₂ = topOfStack PROGMEM x₀) := by
  obtain ⟨hcpu, -⟩ := h.save.stepOf PROGMEM
  obtain ⟨hcpu', hmem'⟩ := h.restore.stepOf PROGMEM
  rw [(stepOf_tsx PROGMEM h.tsx).1] at hcpu
  rw [(stepOf_txs PROGMEM h.txs).1] at hcpu'
  have hX : x₂.1.cpu.X = topOfStack PROGMEM x₀ := by
    rw [h.keeps, hcpu]
    rfl
  have hlow : (stackAddress x₂.1.cpu.SP).toNat < 0x8000 :=
    Nat.lt_trans (stackAddress_lt x₂.1.cpu.SP) (by simp)
  have htop : topOfStack PROGMEM x₂ = x₂.2.view (cellIndex b (stackAddress x₂.1.cpu.SP)) :=
    peek_eq_view PROGMEM x₂.2 hlow
  have htsx := tsx_touchesStack PROGMEM h.tsx
  refine ⟨fun hlaw => hlaw.untouched.1 htsx, ⟨htsx, txs_touchesStack PROGMEM h.txs⟩, ?_, ?_, ?_⟩
  · rw [hcpu']
    exact Iff.rfl
  · rw [hcpu]
    exact ⟨rfl, rfl⟩
  · rw [hmem', (stepOf_txs PROGMEM h.txs).2, hX, poke,
      pokeCell_eq_self_iff x₂.2 _ (cellIndex_lt hlow), htop]

/-- A program image of `TSX`, `PHA` and `TXS`. -/
def unwindProgmem : Progmem := fun i =>
  match i.val with
  | 0 => 0xBA
  | 1 => 0x48
  | _ => 0x9A

/-- `k` instructions in, with 0 in every cell of the stack. -/
def unwindAt : Nat → Machine ⟨false⟩
  | 0 => (clockStart { olc6502Init with PC := 0x8000 } false 4, ⟨fun _ => 0x00⟩)
  | k + 1 => stepOf unwindProgmem (unwindAt k)

theorem unwindAt_unwindRun :
    UnwindRun unwindProgmem (unwindAt 0) (unwindAt 1) (unwindAt 2) (unwindAt 3) := by
  refine ⟨?_, .of_safe _ ?_, ⟨1, _, .of_safe _ ?_, rfl⟩, rfl, ?_, .of_safe _ ?_⟩ <;> decide

/-- The byte pushed in between stays on the stack. -/
theorem stackPointer_never_unwind :
    ¬ SavesAndRestores unwindProgmem (unwindAt 0) (unwindAt 1) (unwindAt 2) (unwindAt 3) ∧
      (unwindAt 3).1.cpu.SP ≠ (unwindAt 0).1.cpu.SP := by
  have h := stackPointer_never ⟨false⟩ unwindProgmem _ _ _ _ unwindAt_unwindRun
  exact ⟨h.1, mt h.2.2.1.mp (by decide)⟩

/-- With `SP` at `0xFD` the `TSX` sets the zero flag, from the byte at `0x01FD`. -/
theorem not_stackPointer :
    ¬ ∀ (b : Build) (PROGMEM : Progmem) (x₀ x₁ x₂ y : Machine b),
      UnwindRun PROGMEM x₀ x₁ x₂ y → SavesAndRestores PROGMEM x₀ x₁ x₂ y := by
  intro h
  have hlaw := h ⟨false⟩ unwindProgmem _ _ _ _ unwindAt_unwindRun
  exact absurd hlaw.flags.1 (by decide)

end M6502
