import M6502.Proof.Cpu.Bounds

/-!
# The bytes the header does not name

Of the 105 unnamed bytes 87 do nothing but advance `PC`. The 18 `holes` pass the test of the
shift group or of the increment group, which then works on the `addr` and `fetched` that
earlier instructions of the call left behind. Such a step goes unnoticed only if the byte
it stores and the flags it sets are there already (`HoleHarmless`).
-/

set_option autoImplicit false

namespace M6502

open Lib

variable {b : Build} (PROGMEM : Progmem)

/-- The next opcode is one the header does not name. -/
def Undefined (x : Machine b) : Prop := Ins.ofOpcode? (opcodeAt PROGMEM x) = none

instance (x : Machine b) : Decidable (Undefined PROGMEM x) := inferInstanceAs (Decidable (_ = _))

/-- `PC` advances by one, `I_nxt` is applied, cycles are spent; nothing else happens. -/
def Inert (x y : Machine b) : Prop :=
  y.1.cpu = { x.1.cpu with PC := x.1.cpu.PC + 1, PS.I := x.1.cpu.iNxt } ∧ y.2 = x.2 ∧
    y.1.cycles.val < x.1.cycles.val

/-- If a group acts on the byte, the cell it stores to exists and holds the byte it stores,
    and the flags it sets have the values it gives them. -/
def HoleHarmless (x : Machine b) : Prop :=
  opcodeAt PROGMEM x ∈ holes →
    (StoreInBounds b x.1.addr ∧
      x.2.view (cellIndex b x.1.addr) = holeByte (opcodeAt PROGMEM x) x.1) ∧
    (x.1.cpu.PS.Z = (holeByte (opcodeAt PROGMEM x) x.1 == 0) ∧
      x.1.cpu.PS.N = (holeByte (opcodeAt PROGMEM x) x.1 &&& 0x80 != 0)) ∧
    (opcodeAt PROGMEM x ∈ shiftHoles →
      x.1.cpu.PS.C =
        (shiftResult (fieldAaa (opcodeAt PROGMEM x)) x.1.cpu.PS.C x.1.fetched).2)

/-- The CPU is left alone exactly if the flags are. -/
theorem holeResult_cpu_eq_iff (opcode : U8) (s : Clock) :
    (holeResult opcode s).cpu = s.cpu ↔
      (s.cpu.PS.Z = (holeByte opcode s == 0) ∧ s.cpu.PS.N = (holeByte opcode s &&& 0x80 != 0)) ∧
        (opcode ∈ shiftHoles →
          s.cpu.PS.C = (shiftResult (fieldAaa opcode) s.cpu.PS.C s.fetched).2) := by
  rw [holeResult_cpu]
  constructor
  · intro heq
    have hPS : holeFlags opcode s = s.cpu.PS := congrArg Olc6502.PS heq
    refine ⟨⟨(congrArg Flags.Z hPS).symm, (congrArg Flags.N hPS).symm⟩, fun hs => ?_⟩
    have hC := congrArg Flags.C hPS
    unfold holeFlags at hC
    dsimp only at hC
    rw [if_pos hs] at hC
    exact hC.symm
  · rintro ⟨⟨hZ, hN⟩, hC⟩
    have hcarry : (if opcode ∈ shiftHoles then
        (shiftResult (fieldAaa opcode) s.cpu.PS.C s.fetched).2 else s.cpu.PS.C) = s.cpu.PS.C := by
      by_cases hs : opcode ∈ shiftHoles
      · rw [if_pos hs]
        exact (hC hs).symm
      · rw [if_neg hs]
    unfold holeFlags
    rw [hcarry, ← hZ, ← hN]

/-- What a step at a hole leaves. -/
theorem stepOf_hole {x : Machine b} (hu : Undefined PROGMEM x) (hh : opcodeAt PROGMEM x ∈ holes) :
    stepOf PROGMEM x =
      (holeResult (opcodeAt PROGMEM x) x.1.afterFetch,
        poke x.2 x.1.addr (holeByte (opcodeAt PROGMEM x) x.1)) := by
  unfold stepOf executeOf
  rw [execute_hole hu hh]
  rfl

theorem stepOf_inert {x : Machine b} (hu : Undefined PROGMEM x)
    (hh : opcodeAt PROGMEM x ∉ holes) : stepOf PROGMEM x = (x.1.afterFetch, x.2) := by
  unfold stepOf executeOf
  rw [execute_inert hu hh]
  rfl

theorem instructionOn_inert_iff {x : Machine b} (hu : Undefined PROGMEM x) :
    (∃ y, instructionOn PROGMEM x = some y ∧ Inert x y) ↔ HoleHarmless PROGMEM x := by
  have hsafe : StepSafe PROGMEM x ↔ (opcodeAt PROGMEM x ∈ holes → StoreInBounds b x.1.addr) := by
    rw [stepSafe_iff_accessesInBounds]
    unfold AccessesInBounds
    rw [hu]
  rw [exists_instructionOn_iff]
  by_cases hh : opcodeAt PROGMEM x ∈ holes
  · have hcpu := holeResult_cpu_eq_iff (opcodeAt PROGMEM x) x.1.afterFetch
    have hbyte : holeByte (opcodeAt PROGMEM x) x.1.afterFetch =
      holeByte (opcodeAt PROGMEM x) x.1 := rfl
    rw [hbyte] at hcpu
    constructor
    · rintro ⟨hs, hcpueq, hmem, -⟩ -
      rw [stepOf_hole PROGMEM hu hh] at hcpueq hmem
      have hb := hsafe.mp hs hh
      obtain ⟨hZN, hC⟩ := hcpu.mp hcpueq
      exact ⟨⟨hb, (pokeCell_eq_self_iff _ _ (cellIndex_lt_iff.mpr hb)).mp hmem⟩, hZN, hC⟩
    · intro hharm
      obtain ⟨⟨hb, hview⟩, hZN, hC⟩ := hharm hh
      have hs := hsafe.mpr fun _ => hb
      have hy := (instructionOn_eq_some_iff PROGMEM).mpr ⟨hs, rfl⟩
      have hcost := (instructionOn_cycles PROGMEM hy).2
      refine ⟨hs, ?_, ?_, by omega⟩
      · rw [stepOf_hole PROGMEM hu hh]
        exact hcpu.mpr ⟨hZN, hC⟩
      · rw [stepOf_hole PROGMEM hu hh]
        exact (pokeCell_eq_self_iff _ _ (cellIndex_lt_iff.mpr hb)).mpr hview
  · rw [stepOf_inert PROGMEM hu hh]
    refine iff_of_true ⟨hsafe.mpr fun h => absurd h hh, rfl, rfl, ?_⟩ fun h => absurd h hh
    show x.1.cycles.val - 1 < x.1.cycles.val
    omega

/-- **In a call, an unnamed byte is inert exactly if** no group acts on it, or what the group
    does goes unnoticed. -/
theorem undefined_inert_iff (b : Build) (PROGMEM : Progmem) (cpu : Olc6502) (oops_cycle : Bool)
    (mem : Memory b) (n : Int) :
    ∀ x, Reached PROGMEM (callStart cpu oops_cycle mem n) x → Running x → Undefined PROGMEM x →
      ((∃ y, round PROGMEM x = some y ∧ Inert x y) ↔ HoleHarmless PROGMEM x) := by
  intro x _ hrun hu
  rw [← instructionOn_inert_iff PROGMEM hu]
  have hround : round PROGMEM x = instructionOn PROGMEM x := if_pos hrun
  rw [hround]

/-- A call at `0x8000` on a cleared memory, with the zero flag set. -/
def inertState : Machine ⟨false⟩ :=
  callStart { olc6502Init with PC := 0x8000, PS := .ofValue 0x06 } false ⟨fun _ => 0⟩ 1

/-- Opcode `$1A` there shifts the zero left in `fetched` and stores it at the zero left in
    `addr`, where it goes unnoticed. -/
theorem undefined_inert_iff_1a :
    (∃ y, round (fun _ => 0x1A) inertState = some y ∧ Inert inertState y) ↔
      HoleHarmless (fun _ => 0x1A) inertState :=
  undefined_inert_iff ⟨false⟩ (fun _ => 0x1A)
    { olc6502Init with PC := 0x8000, PS := .ofValue 0x06 } false ⟨fun _ => 0⟩ 1 inertState
    (.refl _ _) (by decide) (by decide)

/-- Opcode `$C2` at the start of a call stores `A - 1` at the zero left in `addr`. -/
theorem not_undefined_inert :
    ¬ ∀ (b : Build) (PROGMEM : Progmem) (cpu : Olc6502) (oops_cycle : Bool) (mem : Memory b)
      (n : Int) (x : Machine b), Reached PROGMEM (callStart cpu oops_cycle mem n) x → Running x →
      Undefined PROGMEM x → ∃ y, round PROGMEM x = some y ∧ Inert x y := by
  intro h
  obtain ⟨y, hy, -, hmem, -⟩ := h ⟨false⟩ (fun _ => 0xC2)
    { olc6502Init with PC := 0x8000, PS := .ofValue 0x06 } false ⟨fun _ => 0⟩ 1 inertState
    (.refl _ _) (by decide) (by decide)
  have hval : (round (fun _ => 0xC2) inertState).map (fun y => y.2.view 0) = some 0xFF := by decide
  rw [hy, Option.map_some, hmem] at hval
  revert hval
  decide

end M6502
