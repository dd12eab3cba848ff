import M6502.Proof.Cpu.Address
import M6502.Proof.Cpu.NextPc
import M6502.Proof.Cpu.Status

/-!
# Loads, stores, logic and transfers

`Ins.effect?` is the reference for 63 opcodes, by mnemonic: the register a load, a logic
operation or a transfer goes to and the function it computes, or the register a store writes.
The code has a hand-written case for each, with its own addressing and its own flags.
`stepOf_effect` compares the two case by case; `family_refines` is what follows on the bus.
-/

set_option autoImplicit false

namespace M6502

open Lib Cpu

variable {b : Build} (PROGMEM : Progmem)

/-! ## The reference -/

/-- What an instruction of the family does, `f` being given the CPU and, for a load, the
    operand. -/
inductive Effect
  | load (r : Reg) (f : Olc6502 → U8 → U8)
  | store (r : Reg)
  | transfer (r : Reg) (f : Olc6502 → U8)

/-- The reference, by mnemonic. -/
def Ins.effect? : Ins → Option Effect
  | .ldaIm | .ldaZp | .ldaZpx | .ldaAbs | .ldaAbsx | .ldaAbsy | .ldaIndx | .ldaIndy =>
    some (.load .A fun _ M => M)
  | .ldxIm | .ldxZp | .ldxZpy | .ldxAbs | .ldxAbsy => some (.load .X fun _ M => M)
  | .ldyIm | .ldyZp | .ldyZpx | .ldyAbs | .ldyAbsx => some (.load .Y fun _ M => M)
  | .andIm | .andZp | .andZpx | .andAbs | .andAbsx | .andAbsy | .andIndx | .andIndy =>
    some (.load .A fun cpu M => cpu.A &&& M)
  | .oraIm | .oraZp | .oraZpx | .oraAbs | .oraAbsx | .oraAbsy | .oraIndx | .oraIndy =>
    some (.load .A fun cpu M => cpu.A ||| M)
  | .eorIm | .eorZp | .eorZpx | .eorAbs | .eorAbsx | .eorAbsy | .eorIndx | .eorIndy =>
    some (.load .A fun cpu M => cpu.A ^^^ M)
  | .staZp | .staZpx | .staAbs | .staAbsx | .staAbsy | .staIndx | .staIndy => some (.store .A)
  | .stxZp | .stxZpy | .stxAbs => some (.store .X)
  | .styZp | .styZpx | .styAbs => some (.store .Y)
  | .tax => some (.transfer .X fun cpu => cpu.A)
  | .txa => some (.transfer .A fun cpu => cpu.X)
  | .tay => some (.transfer .Y fun cpu => cpu.A)
  | .tya => some (.transfer .A fun cpu => cpu.Y)
  | .inx => some (.transfer .X fun cpu => cpu.X + 1)
  | .dex => some (.transfer .X fun cpu => cpu.X - 1)
  | .iny => some (.transfer .Y fun cpu => cpu.Y + 1)
  | .dey => some (.transfer .Y fun cpu => cpu.Y - 1)
  | _ => none

/-- `v` in a register, and `Z` and `N` set from it. -/
def Olc6502.loaded (cpu : Olc6502) (r : Reg) (v : U8) : Olc6502 :=
  { cpu.setReg r v with PS := { cpu.PS with Z := v == 0, N := v.getLsbD 7 } }

/-- The CPU after an instruction of length `n` that does nothing: past the instruction, with
    the pending interrupt flag applied. -/
def Olc6502.past (cpu : Olc6502) (n : Nat) : Olc6502 :=
  { cpu with PC := cpu.PC + .ofNat 16 n, PS.I := cpu.iNxt }

/-- From `x` to `y` the effect is as documented, and nothing else changes. -/
def Refines (e : Effect) (m : Mode) (x y : Machine b) : Prop :=
  let cpu := x.1.cpu
  match e with
  | .load r f => ∃ ea M, documentedAddress PROGMEM m x = some ea ∧
      busReadByte PROGMEM x.2 ea = some M ∧ y.1.cpu = (cpu.past m.length).loaded r (f cpu M) ∧
      stepWrites PROGMEM x = [] ∧ y.2 = x.2
  | .store r => ∃ ea, documentedAddress PROGMEM m x = some ea ∧
      stepWrites PROGMEM x = [(ea, cpu.reg r)] ∧
      busWriteByte x.2 ea (cpu.reg r) = some y.2 ∧ y.1.cpu = cpu.past m.length
  | .transfer r f => y.1.cpu = (cpu.past m.length).loaded r (f cpu) ∧
      stepWrites PROGMEM x = [] ∧ y.2 = x.2

/-! ## What the code computes -/

/-- `Olc6502.past` with the increments of `PC` as the code makes them. -/
def Olc6502.advanced (cpu : Olc6502) (n : Nat) : Olc6502 :=
  { cpu with PC := advance cpu.PC n, PS.I := cpu.iNxt }

theorem Olc6502.advanced_eq (cpu : Olc6502) (m : Mode) :
    cpu.advanced m.length = cpu.past m.length := by
  simp only [Olc6502.advanced, Olc6502.past, advance_length]

/-- `Olc6502.loaded` with the test for `N` as the code makes it. -/
def Olc6502.updated (cpu : Olc6502) (r : Reg) (v : U8) : Olc6502 :=
  { cpu.setReg r v with PS := { cpu.PS with Z := v == 0, N := v &&& 0x80 != 0 } }

theorem Olc6502.updated_eq (cpu : Olc6502) (r : Reg) (v : U8) :
    cpu.updated r v = cpu.loaded r v := by
  simp only [Olc6502.updated, Olc6502.loaded, and_0x80_ne_zero]

/-- The CPU as the code leaves it. -/
def Effect.codeCpu (e : Effect) (m : Mode) (x : Machine b) : Olc6502 :=
  let cpu := x.1.cpu
  match e with
  | .load r f =>
    (cpu.advanced m.length).updated r (f cpu (peek PROGMEM x.2 (effectiveAddress PROGMEM m x)))
  | .store _ => cpu.advanced m.length
  | .transfer r f => (cpu.advanced m.length).updated r (f cpu)

/-- **Each case of the family computes what its mnemonic says.** -/
theorem stepOf_effect {i : Ins} {e : Effect} {x : Machine b} (h : At PROGMEM i x)
    (he : i.effect? = some e) : (stepOf PROGMEM x).1.cpu = e.codeCpu PROGMEM i.mode x := by
  rw [stepOf_arms PROGMEM h]
  cases i <;> cases he <;> rfl

/-- What an instruction of the family stores at its effective address. -/
def Effect.stored? : Effect → Option (Olc6502 → U8 → U8)
  | .store r => some fun cpu _ => cpu.reg r
  | _ => none

theorem Ins.effect_store {i : Ins} {e : Effect} (he : i.effect? = some e) :
    i.store? = e.stored? := by
  cases i <;> cases he <;> rfl

/-- A member of the family touches the stack in no way. -/
theorem Ins.effect_pushed {i : Ins} {e : Effect} (he : i.effect? = some e) (cpu : Olc6502) :
    i.pushed cpu = [] := by
  cases i <;> first | rfl | cases he

/-- But for the transfers, it works on a byte at an address. -/
theorem Ins.effect_address {i : Ins} {e : Effect} (he : i.effect? = some e) :
    (∃ r f, e = .transfer r f) ∨ i.mode.HasAddress := by
  cases i <;> cases he <;> first | exact .inr (by decide) | exact .inl ⟨_, _, rfl⟩

theorem stepWrites_effect {i : Ins} {e : Effect} {x : Machine b} (h : At PROGMEM i x)
    (he : i.effect? = some e) :
    stepWrites PROGMEM x =
      match e with
      | .store r => [(effectiveAddress PROGMEM i.mode x, x.1.cpu.reg r)]
      | _ => [] := by
  rw [stepWrites_at PROGMEM h, Ins.writes, i.effect_store he, i.effect_pushed he]
  cases e <;> rfl

/-- **The family refines its reference**, opcode by opcode. -/
theorem family_refines (b : Build) (PROGMEM : Progmem) (i : Ins) (e : Effect) (x y : Machine b)
    (he : i.effect? = some e) (h : At PROGMEM i x) (hy : instructionOn PROGMEM x = some y) :
    Refines PROGMEM e i.mode x y := by
  obtain ⟨⟨hword, hstore⟩, rfl⟩ := (instructionOn_at PROGMEM h).mp hy
  have hcpu := stepOf_effect PROGMEM h he
  have hwrites := stepWrites_effect PROGMEM h he
  have hmem := stepOf_mem_stepWrites PROGMEM x
  rw [hwrites] at hmem
  cases e with
  | load r f =>
    simp only [Effect.codeCpu, Olc6502.advanced_eq, Olc6502.updated_eq] at hcpu
    rcases i.effect_address he with ⟨_, _, heq⟩ | hea
    · cases heq
    · exact ⟨_, _, documentedAddress_eq PROGMEM hea hword, busReadByte_eq _ _ _, hcpu, hwrites,
        hmem⟩
  | store r =>
    simp only [Effect.codeCpu, Olc6502.advanced_eq] at hcpu
    rcases i.effect_address he with ⟨_, _, heq⟩ | hea
    · cases heq
    · have hb := hstore (by rw [i.effect_store he]; rfl)
      refine ⟨_, documentedAddress_eq PROGMEM hea hword, hwrites, ?_, hcpu⟩
      rw [busWriteByte_eq, if_pos hb, hmem]
      rfl
  | transfer r f =>
    simp only [Effect.codeCpu, Olc6502.advanced_eq, Olc6502.updated_eq] at hcpu
    exact ⟨hcpu, hwrites, hmem⟩

/-- A program image whose first instruction is `LDA ($FF,X)`. -/
def familyProgmem : Progmem := fun i =>
  if i.val = 0 then 0xA1 else if i.val = 1 then 0xFF else 0x00

def familyState : Machine ⟨false⟩ :=
  (clockStart { olc6502Init with PC := 0x8000, X := 1 } false 6, ⟨fun _ => 0x80⟩)

/-- `LDA ($FF,X)` of a byte with bit 7 set. -/
theorem family_refines_lda :
    Refines familyProgmem (.load .A fun _ M => M) .indirectX familyState
      (stepOf familyProgmem familyState) :=
  family_refines ⟨false⟩ familyProgmem .ldaIndx _ familyState _ rfl (by decide)
    ((instructionOn_eq_some_iff _).mpr ⟨by decide, rfl⟩)

end M6502
