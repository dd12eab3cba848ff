import M6502.Proof.Cpu.Interrupt
import M6502.Proof.Cpu.InterruptFlag

/-!
# A status byte, pushed and pulled

`PHP` and `PLP` are the short form of an interrupt frame, and share its defect: `PLP` ORs the
pulled byte into `PS`. Around a run that leaves the pushed cell alone and balances the stack,
`SP` comes back, and the flags do exactly if the run leaves none of them set that was clear
(`statusSave_iff`).
-/

set_option autoImplicit false

namespace M6502

open Lib Cpu

variable {b : Build} (PROGMEM : Progmem)

/-- `PHP` at `x₀`, a run from `x₁` to `x₂` that leaves the pushed cell alone and balances the
    stack, and `PLP` to `x₃`. -/
structure StatusRun (x₀ x₁ x₂ x₃ : Machine b) : Prop where
  php : At PROGMEM .php x₀
  push : Next PROGMEM x₀ x₁
  body : Relation.ReflTransGen (Next PROGMEM) x₁ x₂
  cell : busReadByte PROGMEM x₂.2 (stackAddress x₀.1.cpu.SP) =
    busReadByte PROGMEM x₁.2 (stackAddress x₀.1.cpu.SP)
  balanced : x₂.1.cpu.SP = x₁.1.cpu.SP
  plp : At PROGMEM .plp x₂
  pull : Next PROGMEM x₂ x₃

/-! ## The two instructions -/

theorem stepOf_plp_ps {x : Machine b} (h : At PROGMEM .plp x) :
    (stepOf PROGMEM x).1.cpu.PS =
      .ofValue ({ x.1.cpu.PS with I := x.1.cpu.iNxt }.value |||
        (pulledStatus PROGMEM x &&& 0xCF &&& 0xFB)) := by
  rw [stepOf_arms PROGMEM h]
  rfl

/-- Nor do the masks of `PLP` touch the flags to restore. -/
theorem sameFlags_plp (v : U8) : SameFlags (.ofValue (v &&& 0xCF &&& 0xFB)) (.ofValue v) :=
  (sameFlags_mask (v &&& 0xCF) ⟨rfl, rfl, rfl, rfl, rfl⟩).trans
    (sameFlags_mask v ⟨rfl, rfl, rfl, rfl, rfl⟩)

/-- After `PLP` the flags are those of `f`, which the pulled byte has, exactly if none was set
    before that `f` lacks. -/
theorem plp_flags_iff {x y : Machine b} {f : Flags} (h : At PROGMEM .plp x)
    (hy : Next PROGMEM x y) (hf : SameFlags (.ofValue (pulledStatus PROGMEM x)) f) :
    SameFlags y.1.cpu.PS f ↔ NoFlagGained f x.1.cpu.PS := by
  rw [(hy.stepOf PROGMEM).1, stepOf_plp_ps PROGMEM h]
  exact sameFlags_or_iff ((sameFlags_plp _).trans hf)

/-! ## The round trip -/

/-- The byte `PHP` pushed is the one `PLP` pulls. -/
theorem StatusRun.pulledStatus_eq {x₀ x₁ x₂ x₃ : Machine b}
    (h : StatusRun PROGMEM x₀ x₁ x₂ x₃) :
    pulledStatus PROGMEM x₂ = pushedStatus x₀.1.cpu := by
  obtain ⟨hcpu₁, hmem₁⟩ := h.push.stepOf PROGMEM
  have hcell := h.cell
  rw [busReadByte_eq, busReadByte_eq, Option.some_inj] at hcell
  -- the run is balanced, so `PLP` looks where `PHP` pushed
  have hsp : x₂.1.cpu.SP + 1 = x₀.1.cpu.SP := by
    rw [h.balanced, hcpu₁, stepOf_sp PROGMEM h.php]
    exact BitVec.sub_add_cancel _ _
  unfold pulledStatus
  rw [hsp, hcell, hmem₁, stepOf_mem PROGMEM h.php]
  exact peek_poke_same PROGMEM _ _ (Nat.lt_trans (stackAddress_lt _) (by simp)) rfl

/-- **Around any such run `SP` comes back, and the flags exactly if** `PLP` finds none of them
    set that was clear at the `PHP`. **And for any pulled byte the flags after `PLP` are its
    own exactly if** none was set before that it lacks. -/
theorem statusSave_iff (b : Build) (PROGMEM : Progmem) :
    (∀ x₀ x₁ x₂ x₃ : Machine b, StatusRun PROGMEM x₀ x₁ x₂ x₃ →
      x₃.1.cpu.SP = x₀.1.cpu.SP ∧
        (SameFlags x₃.1.cpu.PS x₀.1.cpu.PS ↔ NoFlagGained x₀.1.cpu.PS x₂.1.cpu.PS)) ∧
    (∀ x y : Machine b, At PROGMEM .plp x → Next PROGMEM x y →
      (SameFlags y.1.cpu.PS (.ofValue (pulledStatus PROGMEM x)) ↔
        NoFlagGained (.ofValue (pulledStatus PROGMEM x)) x.1.cpu.PS)) := by
  constructor
  · intro x₀ x₁ x₂ x₃ h
    constructor
    · rw [(h.pull.stepOf PROGMEM).1, stepOf_sp PROGMEM h.plp, h.balanced,
        (h.push.stepOf PROGMEM).1, stepOf_sp PROGMEM h.php]
      exact BitVec.sub_add_cancel _ _
    · refine plp_flags_iff PROGMEM h.plp h.pull ?_
      rw [h.pulledStatus_eq PROGMEM]
      exact sameFlags_pushedStatus x₀.1.cpu
  · intro x y hplp hy
    exact plp_flags_iff PROGMEM hplp hy ⟨rfl, rfl, rfl, rfl, rfl⟩

/-- A program image of `PHP`, `SEC` and `PLP`. -/
def saveProgmem : Progmem := fun i =>
  if i.val = 0 then 0x08 else if i.val = 1 then 0x38 else 0x28

def saveState : Machine ⟨false⟩ :=
  (clockStart { olc6502Init with PC := 0x8000 } false 20, ⟨fun _ => 0⟩)

theorem saveRun :
    StatusRun saveProgmem saveState (stepOf saveProgmem saveState)
      (stepOf saveProgmem (stepOf saveProgmem saveState))
      (stepOf saveProgmem (stepOf saveProgmem (stepOf saveProgmem saveState))) := by
  have hphp : At saveProgmem .php saveState := by decide
  have hsec : At saveProgmem .sec (stepOf saveProgmem saveState) := by decide
  have hplp : At saveProgmem .plp (stepOf saveProgmem (stepOf saveProgmem saveState)) := by decide
  refine ⟨hphp, .of_safe _ (by decide), .single (.of_safe _ (by decide)), ?_, ?_,
    hplp, .of_safe _ (by decide)⟩
  · rw [stepOf_mem _ hsec]
    rfl
  · decide

/-- Through a run that sets the carry. -/
theorem statusSave_iff_sec :
    (stepOf saveProgmem (stepOf saveProgmem (stepOf saveProgmem saveState))).1.cpu.SP =
        saveState.1.cpu.SP ∧
      (SameFlags (stepOf saveProgmem (stepOf saveProgmem (stepOf saveProgmem saveState))).1.cpu.PS
          saveState.1.cpu.PS ↔
        NoFlagGained saveState.1.cpu.PS
          (stepOf saveProgmem (stepOf saveProgmem saveState)).1.cpu.PS) :=
  (statusSave_iff ⟨false⟩ saveProgmem).1 saveState _ _ _ saveRun

/-- There the carry, clear at the `PHP`, is still set after the `PLP`. -/
theorem not_statusSave :
    ¬ ∀ (b : Build) (PROGMEM : Progmem) (x₀ x₁ x₂ x₃ : Machine b),
      StatusRun PROGMEM x₀ x₁ x₂ x₃ →
        SameFlags x₃.1.cpu.PS x₀.1.cpu.PS ∧ x₃.1.cpu.SP = x₀.1.cpu.SP := by
  intro h
  obtain ⟨⟨-, -, -, -, hC⟩, -⟩ := h ⟨false⟩ saveProgmem saveState _ _ _ saveRun
  exact absurd hC (by decide)

end M6502
