import M6502.Proof.Cpu.Batch
import M6502.Proof.Cpu.Status

/-!
# The delayed interrupt-disable flag

`I_nxt` is what `PS.I` becomes at the next opcode fetch. `documentedI` says what should be
in force during the following instruction. `CLI`, `SEI` and `BRK` assign `I_nxt` as it
says, and every other instruction leaves it alone, but for the two that pull a status
byte: they assign bit 2 of it, as a byte, to a one-bit field, which keeps bit 0. So a pulled
flag only ever arrives cleared (`ILost`).
-/

set_option autoImplicit false

namespace M6502

open Lib Cpu

variable {b : Build} (PROGMEM : Progmem)

/-- The value of `PS.I` while the next instruction executes. -/
def inForce (x : Machine b) : Bool := x.1.afterFetch.cpu.PS.I

/-- The status byte the next instruction pulls, if it pulls one. -/
def pulledStatus (x : Machine b) : U8 := peek PROGMEM x.2 (stackAddress (x.1.cpu.SP + 1))

/-- The value in force after the instruction `i`, by the protocol. -/
def documentedI (i : Ins) (x : Machine b) : Option Bool :=
  match i with
  | .cli => some false
  | .sei | .brk => some true
  | .plp | .rti =>
    (busReadByte PROGMEM x.2 (stackAddress (x.1.cpu.SP + 1))).map fun v => v.getLsbD 2
  | _ => some (inForce x)

/-- `I_nxt` as the code leaves it. -/
def codeINxt (i : Ins) (x : Machine b) : Bool :=
  match i with
  | .cli => false
  | .sei | .brk => true
  | .plp =>
    let temp := pulledStatus PROGMEM x &&& 0xCF
    let fetched := x.1.afterFetch.cpu.PS.value
    if (temp &&& 0x04) ^^^ (fetched &&& 0x04) ≠ 0 then bitField (temp &&& 0x04) else x.1.cpu.iNxt
  | .rti => bitField (pulledStatus PROGMEM x &&& 0x04)
  | _ => x.1.cpu.iNxt

theorem branchResult_iNxt (aaa : U8) (s : Clock) (offset : U8) :
    (branchResult aaa s offset).cpu.iNxt = s.cpu.iNxt := by
  unfold branchResult
  dsimp only
  split <;> rfl

theorem stepOf_iNxt {i : Ins} {x : Machine b} (h : At PROGMEM i x) :
    (stepOf PROGMEM x).1.cpu.iNxt = codeINxt PROGMEM i x := by
  by_cases hb : i.group = .branch
  · rw [stepOf_branch PROGMEM h hb]
    refine (branchResult_iNxt _ x.1.afterFetch _).trans ?_
    cases i <;> first | rfl | cases hb
  · rw [stepOf_arms PROGMEM h]
    cases i <;> first | exact absurd rfl hb | rfl

/-! ## Where the two agree -/

/-- The instruction pulls a set flag and loses it: `PLP` unless the flag was in force
    anyway, `RTI` always. -/
def ILost (i : Ins) (x : Machine b) : Prop :=
  match i with
  | .plp => (pulledStatus PROGMEM x).getLsbD 2 = true ∧ inForce x = false
  | .rti => (pulledStatus PROGMEM x).getLsbD 2 = true
  | _ => False

/-- `PLP` keeps the flag in force only if the pulled one is set too. -/
theorem codeINxt_plp (x : Machine b) :
    codeINxt PROGMEM .plp x = ((pulledStatus PROGMEM x).getLsbD 2 && inForce x) := by
  have hpulled : (pulledStatus PROGMEM x &&& 0xCF).getLsbD 2 =
      (pulledStatus PROGMEM x).getLsbD 2 := by
    rw [BitVec.getLsbD_and]
    exact Bool.and_true _
  have hforce : x.1.afterFetch.cpu.PS.value.getLsbD 2 = inForce x := Flags.getLsbD_value _ 2
  have hdiffer := xor_and_four_eq_zero_iff (pulledStatus PROGMEM x &&& 0xCF)
    x.1.afterFetch.cpu.PS.value
  rw [hpulled, hforce] at hdiffer
  have hnxt : inForce x = x.1.cpu.iNxt := rfl
  unfold codeINxt
  dsimp only
  rw [bitField_and_four]
  by_cases heq : (pulledStatus PROGMEM x).getLsbD 2 = inForce x
  · rw [if_neg (fun h => h (hdiffer.mpr heq)), ← hnxt, heq, Bool.and_self]
  · rw [if_pos (fun h => heq (hdiffer.mp h))]
    cases hp : (pulledStatus PROGMEM x).getLsbD 2 with
    | false => rfl
    | true =>
      cases hf : inForce x with
      | false => rfl
      | true => exact absurd (hp.trans hf.symm) heq

theorem documentedI_eq_iff (i : Ins) (x : Machine b) :
    documentedI PROGMEM i x = some (codeINxt PROGMEM i x) ↔ ¬ ILost PROGMEM i x := by
  have hread : busReadByte PROGMEM x.2 (stackAddress (x.1.cpu.SP + 1)) =
      some (pulledStatus PROGMEM x) := busReadByte_eq _ _ _
  cases i
  case plp =>
    rw [codeINxt_plp]
    unfold documentedI ILost
    dsimp only
    rw [hread, Option.map_some, Option.some_inj]
    cases (pulledStatus PROGMEM x).getLsbD 2 <;> cases inForce x <;> decide
  case rti =>
    unfold documentedI ILost codeINxt
    dsimp only
    rw [hread, Option.map_some, Option.some_inj, bitField_and_four]
    cases (pulledStatus PROGMEM x).getLsbD 2 <;> decide
  all_goals exact iff_of_true rfl not_false

/-! ## Runs -/

/-- The first `n` steps of `x` are instructions the header names. -/
def DocumentedRun (x : Nat → Machine b) (n : Nat) : Prop :=
  ∀ k < n, Documented PROGMEM (x k) ∧ Next PROGMEM (x k) (x (k + 1))

/-- The flag in force at `y` is the one the protocol gives after the instruction at `x`. -/
def ProtocolHolds (x y : Machine b) : Prop :=
  ∀ i, Ins.ofOpcode? (opcodeAt PROGMEM x) = some i →
    documentedI PROGMEM i x = some (inForce y)

/-- The instruction at `x` does not lose a pulled flag. -/
def PulledKept (x : Machine b) : Prop :=
  ∀ i, Ins.ofOpcode? (opcodeAt PROGMEM x) = some i → ¬ ILost PROGMEM i x

theorem Next.inForce {x y : Machine b} {i : Ins} (h : Next PROGMEM x y) (hat : At PROGMEM i x) :
    inForce y = codeINxt PROGMEM i x := by
  rw [← stepOf_iNxt PROGMEM hat, ← congrArg Olc6502.iNxt (h.stepOf PROGMEM).1]
  rfl

/-- **In a run of named instructions the flag follows the protocol at a step exactly if** that
    step loses no pulled flag. **After a reset it is set.** -/
theorem interruptFlag_iff (b : Build) (PROGMEM : Progmem) (x : Nat → Machine b) (n : Nat)
    (hrun : DocumentedRun PROGMEM x n) :
    (∀ k < n, ProtocolHolds PROGMEM (x k) (x (k + 1)) ↔ PulledKept PROGMEM (x k)) ∧
    (∀ (cpu : Olc6502) (cycles : Cycles) (mem : Memory b),
      ∃ r, resetOn PROGMEM cpu cycles mem = some r ∧
        ∀ y : Machine b, y.1.cpu = r.1 → inForce y = true) := by
  constructor
  · intro k hk
    obtain ⟨-, hnext⟩ := hrun k hk
    refine forall_congr' fun i => forall_congr' fun hi => ?_
    rw [hnext.inForce PROGMEM (Ins.opcode_of_ofOpcode? hi)]
    exact documentedI_eq_iff PROGMEM i (x k)
  · intro cpu cycles mem
    refine ⟨_, resetOn_eq PROGMEM cpu cycles mem, fun y hy => ?_⟩
    exact congrArg Olc6502.iNxt hy

/-- A run of one instruction. -/
def oneStep (x : Machine b) (k : Nat) : Machine b := if k = 0 then x else stepOf PROGMEM x

theorem oneStep_documentedRun {x : Machine b} (hdoc : Documented PROGMEM x)
    (hs : StepSafe PROGMEM x) : DocumentedRun PROGMEM (oneStep PROGMEM x) 1 := by
  intro k hk
  obtain rfl : k = 0 := by omega
  exact ⟨hdoc, .of_safe PROGMEM hs⟩

/-- A call at `0x8000` with the interrupt flag clear and the stack full of `0x04`. -/
def flagState : Machine ⟨false⟩ :=
  callStart { olc6502Init with PC := 0x8000, PS := .ofValue 0x00, iNxt := false } false
    ⟨fun _ => 0x04⟩ 4

/-- `SEI` as the only instruction of a run. -/
theorem interruptFlag_iff_sei :
    ProtocolHolds (fun _ => 0x78) flagState (stepOf (fun _ => 0x78) flagState) ↔
      PulledKept (fun _ => 0x78) flagState :=
  (interruptFlag_iff ⟨false⟩ (fun _ => 0x78) (oneStep (fun _ => 0x78) flagState) 1
    (oneStep_documentedRun _ (by unfold Documented; decide) trivial)).1 0 (by decide)

/-- `PLP` of a status byte with the flag set, while it is clear. -/
theorem not_interruptFlag :
    ¬ ∀ (b : Build) (PROGMEM : Progmem) (x : Nat → Machine b) (n : Nat),
      DocumentedRun PROGMEM x n → ∀ k < n, ProtocolHolds PROGMEM (x k) (x (k + 1)) := by
  intro h
  have hheld := h ⟨false⟩ (fun _ => 0x28) (oneStep (fun _ => 0x28) flagState) 1
    (oneStep_documentedRun _ (by unfold Documented; decide) ⟨trivial, trivial⟩) 0 (by decide) .plp
    (by decide)
  have hlaw : documentedI (fun _ => 0x28) .plp flagState = some true := by decide
  have hforce : inForce (stepOf (fun _ => 0x28) flagState) = false := by decide
  have heq : some true = some false := hlaw.symm.trans (hheld.trans (congrArg some hforce))
  cases heq

end M6502
