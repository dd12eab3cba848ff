import M6502.System
import M6502.Lib.Run
import M6502.Proof.Bus.Access
import M6502.Proof.Cpu.Dispatch

/-!
# One instruction on the machine

The bus is a guarded handler: `busTotal` answers, `BusOp.InBounds` says where that is the
answer of the arrays. So an instruction on the machine is a total function, `stepOf`, under a
condition, `StepSafe` (`instructionOn_eq_some_iff`), and what an instruction computes is
found by evaluation.
-/

set_option autoImplicit false

namespace M6502

open Lib

variable {b : Build} (PROGMEM : Progmem)

def busTotal : Prog.Total BusSig (Memory b)
  | .readByte a, mem => (peek PROGMEM mem a, mem)
  | .readWord a, mem => (peekWord PROGMEM mem a, mem)
  | .writeByte a v, mem => ((), poke mem a v)

/-- The operation indexes inside the arrays. -/
def BusOp.InBounds (b : Build) : BusOp → Prop
  | .readByte _ => True
  | .readWord a => WordInBounds b a
  | .writeByte a _ => StoreInBounds b a

instance : ∀ op : BusOp, Decidable (op.InBounds b)
  | .readByte _ => inferInstanceAs (Decidable True)
  | .readWord a => inferInstanceAs (Decidable (WordInBounds b a))
  | .writeByte a _ => inferInstanceAs (Decidable (StoreInBounds b a))

/-- The vectors are inside the program image. -/
theorem resetVector_inBounds : WordInBounds b resetVector :=
  ⟨by decide, by decide, fun _ => by decide⟩

theorem irqVector_inBounds : WordInBounds b irqVector :=
  ⟨by decide, by decide, fun _ => by decide⟩

theorem bus_eq (op : BusOp) (mem : Memory b) :
    bus PROGMEM op mem = if op.InBounds b then some (busTotal PROGMEM op mem) else none := by
  by_cases h : op.InBounds b
  · rw [if_pos h]
    cases op with
    | readByte a => exact congrArg (Option.map _) (busReadByte_eq PROGMEM mem a)
    | readWord a =>
      have hw : WordInBounds b a := h
      exact congrArg (Option.map _) ((busReadWord_eq PROGMEM mem a).trans (if_pos hw))
    | writeByte a v =>
      have hs : StoreInBounds b a := h
      exact congrArg (Option.map _) ((busWriteByte_eq mem a v).trans (if_pos hs))
  · rw [if_neg h]
    cases op with
    | readByte a => exact absurd trivial h
    | readWord a =>
      have hw : ¬ WordInBounds b a := h
      exact congrArg (Option.map _) ((busReadWord_eq PROGMEM mem a).trans (if_neg hw))
    | writeByte a v =>
      have hs : ¬ StoreInBounds b a := h
      exact congrArg (Option.map _) ((busWriteByte_eq mem a v).trans (if_neg hs))

/-! ## An instruction -/

/-- The state an opcode is executed in: fetched, and the delayed interrupt flag applied. -/
def Clock.afterFetch (s : Clock) : Clock :=
  { s with cpu.PC := s.cpu.PC + 1, cpu.PS.I := s.cpu.iNxt, cycles := s.cycles.sub 1 }

theorem instruction_eq (s : Clock) :
    instruction s = .call (.readByte s.cpu.PC) fun opcode => execute opcode s.afterFetch := rfl

/-- The opcode byte the machine is about to fetch. -/
def opcodeAt (x : Machine b) : U8 := peek PROGMEM x.2 x.1.cpu.PC

/-- The byte at `PC` is the opcode named `i`. -/
def At (i : Ins) (x : Machine b) : Prop := opcodeAt PROGMEM x = i.opcode

instance (i : Ins) (x : Machine b) : Decidable (At PROGMEM i x) :=
  inferInstanceAs (Decidable (_ = _))

/-- The machine after `execute opcode`, where that stays inside the arrays. -/
def executeOf (opcode : U8) (s : Clock) (mem : Memory b) : Machine b :=
  let r := (execute opcode s).eval (busTotal PROGMEM) mem
  (r.1.2, r.2)

/-- The machine after one instruction, where that stays inside the arrays. -/
def stepOf (x : Machine b) : Machine b :=
  executeOf PROGMEM (opcodeAt PROGMEM x) x.1.afterFetch x.2

/-- Every access of the instruction is inside the arrays. -/
def StepSafe (x : Machine b) : Prop :=
  (execute (opcodeAt PROGMEM x) x.1.afterFetch).Safe (fun op _ => BusOp.InBounds b op)
    (busTotal PROGMEM) x.2

instance (x : Machine b) : Decidable (StepSafe PROGMEM x) :=
  Prog.Safe.decidable (execute (opcodeAt PROGMEM x) x.1.afterFetch) x.2

theorem instructionOn_eq_some_iff {x y : Machine b} :
    instructionOn PROGMEM x = some y ↔ StepSafe PROGMEM x ∧ stepOf PROGMEM x = y := by
  unfold instructionOn
  rw [Option.map_eq_some_iff]
  constructor
  · rintro ⟨r, hr, rfl⟩
    obtain ⟨⟨-, hs⟩, rfl⟩ := (Prog.run_eq_some_iff (bus_eq PROGMEM)).mp hr
    exact ⟨hs, rfl⟩
  · rintro ⟨hs, rfl⟩
    exact ⟨_, (Prog.run_eq_some_iff (bus_eq PROGMEM)).mpr ⟨⟨trivial, hs⟩, rfl⟩, rfl⟩

theorem exists_instructionOn_iff {x : Machine b} {P : Machine b → Prop} :
    (∃ y, instructionOn PROGMEM x = some y ∧ P y) ↔ StepSafe PROGMEM x ∧ P (stepOf PROGMEM x) := by
  constructor
  · rintro ⟨y, hy, hP⟩
    obtain ⟨hs, rfl⟩ := (instructionOn_eq_some_iff PROGMEM).mp hy
    exact ⟨hs, hP⟩
  · rintro ⟨hs, hP⟩
    exact ⟨_, (instructionOn_eq_some_iff PROGMEM).mpr ⟨hs, rfl⟩, hP⟩

theorem instructionOn_isSome {x : Machine b} :
    (instructionOn PROGMEM x).isSome ↔ StepSafe PROGMEM x := by
  rw [Option.isSome_iff_exists]
  exact ⟨fun ⟨_, hy⟩ => ((instructionOn_eq_some_iff PROGMEM).mp hy).1,
    fun hs => ⟨_, (instructionOn_eq_some_iff PROGMEM).mpr ⟨hs, rfl⟩⟩⟩

theorem stepOf_at {i : Ins} {x : Machine b} (h : At PROGMEM i x) :
    stepOf PROGMEM x = executeOf PROGMEM i.opcode x.1.afterFetch x.2 := by
  unfold stepOf
  rw [h]

/-- A named instruction is its own case of the switch and its own group. -/
theorem stepOf_arms {i : Ins} {x : Machine b} (h : At PROGMEM i x) :
    stepOf PROGMEM x =
      let r := ((do switchArm i; i.group.arm i.opcode : ClockM Unit) x.1.afterFetch).eval
        (busTotal PROGMEM) x.2
      (r.1.2, r.2) := by
  rw [stepOf_at PROGMEM h]
  unfold executeOf
  rw [execute_opcode]

theorem stepOf_branch {i : Ins} {x : Machine b} (h : At PROGMEM i x) (hb : i.group = .branch) :
    stepOf PROGMEM x =
      (branchResult (fieldAaa i.opcode) x.1.afterFetch (peek PROGMEM x.2 (x.1.cpu.PC + 1)),
        x.2) := by
  rw [stepOf_at PROGMEM h]
  unfold executeOf
  rw [execute_branch hb, branchGroup_eq]
  rfl

/-! ## The loop -/

/-- The guard of the loop. -/
def Running (x : Machine b) : Prop := 0 < x.1.cycles.val

instance : DecidablePred (@Running b) := fun _ => inferInstanceAs (Decidable (_ < _))

/-- One round of the loop. -/
def round (x : Machine b) : Option (Machine b) := guarded Running (instructionOn PROGMEM) x

theorem clockLoop_succ (n : Nat) (s : Clock) :
    clockLoop (n + 1) s =
      if 0 < s.cycles.val then (instruction s).bind fun r => clockLoop n r.2 else .ret ((), s) := by
  show (if 0 < s.cycles.val then (do instruction; clockLoop n : ClockM Unit) else pure ()) s = _
  split <;> rfl

theorem clockLoop_run (n : Nat) (s : Clock) (mem : Memory b) :
    ((clockLoop n s).run (bus PROGMEM) mem).map (fun r => (r.1.2, r.2)) =
      whileSteps Running (instructionOn PROGMEM) n (s, mem) := by
  induction n generalizing s mem with
  | zero => rfl
  | succ n ih =>
    rw [clockLoop_succ]
    unfold whileSteps
    by_cases hc : 0 < s.cycles.val
    · rw [if_pos hc, if_pos (show Running (s, mem) from hc), Prog.run_bind]
      unfold instructionOn
      cases (instruction s).run (bus PROGMEM) mem with
      | none => rfl
      | some r => exact ih r.1.2 r.2
    · rw [if_neg hc, if_neg (show ¬ Running (s, mem) from hc)]
      rfl

/-! ## Reset -/

/-- A reset always goes through. -/
theorem resetOn_eq (cpu : Olc6502) (cycles : Cycles) (mem : Memory b) :
    resetOn PROGMEM cpu cycles mem =
      some ({ cpu with
        SP := (stackBase - 3).setWidth 8
        PS.I := true
        PS.D := false
        PC := peekWord PROGMEM mem resetVector
        iNxt := true }, cycles.sub 7) := by
  have hword : BusOp.InBounds b (.readWord resetVector) := resetVector_inBounds
  unfold resetOn olc6502Reset
  rw [Prog.run_call, bus_eq, if_pos hword]
  rfl

end M6502
