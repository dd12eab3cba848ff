import M6502.Proof.Cpu.StraightLine
import M6502.Wozmon

/-!
# The keyboard handshake

The host and the monitor in any interleaving of the host's stores with single instructions
(`MonitorRun`). The host sets bit 4 of `ACIA_STATUS`, the monitor waits for bit 3, and nothing
clears either. So from the first character on no poll that begins can succeed
(`not_reads_after`), and the only character that is read is one that arrives in the middle of
a poll which had found bit 3 set before (`InFlight`). That one is read once.
-/

set_option autoImplicit false

namespace M6502

open Lib Cpu

variable {b : Build} (PROGMEM : Progmem)

/-! ## Runs -/

/-- The next instruction is one of the poll's. -/
def InPoll (p : Nat) (x : Machine b) : Prop :=
  ∃ k ∈ [0, 3, 5, 7, 10], x.1.cpu.PC = .ofNat 16 (p + k)

/-- What the rest of the monitor does: it leaves the status byte alone, and comes to the poll at
    `NEXTCHAR` only. -/
structure RestOfMonitor (p : Nat) (x y : Machine b) : Prop where
  status : peek PROGMEM y.2 aciaStatus = peek PROGMEM x.2 aciaStatus
  entry : ∀ k ∈ [3, 5, 7, 10], y.1.cpu.PC ≠ .ofNat 16 (p + k)

inductive Action
  | post (c : U8)
  | instruction
deriving DecidableEq

/-- A step of the host or of the CPU, with the poll at `p`. -/
def SystemStep (p : Nat) (a : Action) (x y : Machine b) : Prop :=
  match a with
  | .post c => y.1.cpu = x.1.cpu ∧ postCharacter x.2 c = some y.2
  | .instruction => Next PROGMEM x y ∧ (¬ InPoll p x → RestOfMonitor PROGMEM p x y)

/-- An interleaving of the two. -/
structure MonitorRun (b : Build) (PROGMEM : Progmem) (p : Nat) where
  state : Nat → Machine b
  action : Nat → Action
  step : ∀ k, SystemStep PROGMEM p (action k) (state k) (state (k + 1))

section

variable {PROGMEM} {p : Nat} (r : MonitorRun b PROGMEM p)

/-- Step `k` is the instruction `LDA ACIA_DATA` of the poll. -/
def MonitorRun.Reads (k : Nat) : Prop :=
  r.action k = .instruction ∧ (r.state k).1.cpu.PC = .ofNat 16 (p + 7)

/-- Step `k` comes after what is posted at `t` and before anything else is posted. -/
def MonitorRun.Current (t k : Nat) : Prop :=
  t < k ∧ ∀ j, t < j → j ≤ k → r.action j = .instruction

/-- The character `c` posted at `t` is read once. -/
def MonitorRun.ReadOnce (t : Nat) (c : U8) : Prop :=
  ∃ k, r.Current t k ∧ r.Reads k ∧ (r.state (k + 1)).1.cpu.A = c ∧
    ∀ j, r.Current t j → r.Reads j → j = k

end

/-- A poll is under way that has seen bit 3 of the status byte set. -/
def InFlight (p : Nat) (x : Machine b) : Prop :=
  x.1.cpu.PC = .ofNat 16 (p + 7) ∨
    (x.1.cpu.PC = .ofNat 16 (p + 5) ∧ x.1.cpu.PS.Z = false) ∨
    (x.1.cpu.PC = .ofNat 16 (p + 3) ∧ x.1.cpu.A &&& 0x08 ≠ 0)

/-! ## The instructions of the poll -/

/-- The addresses of the poll are different ones. -/
theorem poll_ne {p j k : Nat} (hj : j ≤ 13) (hk : k ≤ 13) (hne : j ≠ k) :
    (BitVec.ofNat 16 (p + j) : U16) ≠ .ofNat 16 (p + k) := by
  intro he
  have hval := congrArg BitVec.toNat he
  rw [BitVec.toNat_ofNat, BitVec.toNat_ofNat] at hval
  omega

theorem not_inFlight_of_pc {p k : Nat} {x : Machine b} (hk : k ≤ 13) (h3 : k ≠ 3) (h5 : k ≠ 5)
    (h7 : k ≠ 7) (hpc : x.1.cpu.PC = .ofNat 16 (p + k)) : ¬ InFlight p x := by
  unfold InFlight
  rw [hpc]
  rintro (he | ⟨he, -⟩ | ⟨he, -⟩)
  · exact poll_ne hk (by simp) h7 he
  · exact poll_ne hk (by simp) h5 he
  · exact poll_ne hk (by simp) h3 he

section Poll

variable {p : Nat} {x : Machine b} (hcode : CodeAt PROGMEM p nextChar)
include hcode

theorem poll_status (hpc : x.1.cpu.PC = .ofNat 16 (p + 0)) :
    StepSafe PROGMEM x ∧ (stepOf PROGMEM x).1.cpu.PC = .ofNat 16 (p + 3) ∧
      (stepOf PROGMEM x).1.cpu.A = peek PROGMEM x.2 aciaStatus ∧ (stepOf PROGMEM x).2 = x.2 := by
  have hat : AtAbsolute PROGMEM (.ldaAbs, aciaStatus) x := hcode.absolute PROGMEM hpc
  obtain ⟨hcpu, hmem⟩ := ldaAbs_step PROGMEM hat
  refine ⟨hat.stepSafe PROGMEM rfl (by decide), ?_, ?_, hmem⟩
  · rw [hcpu]
    exact pc_next (k := 3) hpc
  · rw [hcpu]
    rfl

theorem poll_and (hpc : x.1.cpu.PC = .ofNat 16 (p + 3)) :
    StepSafe PROGMEM x ∧ (stepOf PROGMEM x).1.cpu.PC = .ofNat 16 (p + 5) ∧
      (stepOf PROGMEM x).1.cpu.PS.Z = (x.1.cpu.A &&& 0x08 == 0) ∧ (stepOf PROGMEM x).2 = x.2 := by
  have hrest := hcode.drop PROGMEM (k := 3) (by decide)
  obtain ⟨hat, hbyte⟩ := CodeAt.operand PROGMEM (i := .andIm) hrest hpc
  have hcpu := stepOf_effect PROGMEM hat rfl
  simp only [Effect.codeCpu, Olc6502.advanced_eq] at hcpu
  refine ⟨?_, ?_, ?_, ?_⟩
  · refine (stepSafe_iff PROGMEM hat).mpr ⟨?_, ?_⟩ <;> intro h <;> cases h
  · rw [hcpu]
    exact pc_next (k := 2) hpc
  · rw [hcpu, ← hbyte]
    rfl
  · rw [stepOf_mem PROGMEM hat]
    rfl

theorem poll_beq (hpc : x.1.cpu.PC = .ofNat 16 (p + 5)) :
    StepSafe PROGMEM x ∧
      (stepOf PROGMEM x).1.cpu.PC = .ofNat 16 (p + if x.1.cpu.PS.Z then 0 else 7) ∧
      (stepOf PROGMEM x).2 = x.2 := by
  have hrest := hcode.drop PROGMEM (k := 5) (by decide)
  obtain ⟨hat, hbyte⟩ := CodeAt.operand PROGMEM (i := .beq) hrest hpc
  refine ⟨?_, ?_, ?_⟩
  · refine (stepSafe_iff PROGMEM hat).mpr ⟨?_, ?_⟩ <;> intro h <;> cases h
  · rw [stepOf_pc PROGMEM hat]
    unfold codePc
    have hnext : (BitVec.ofNat 16 (p + 5) + 1 + 1 : U16) = .ofNat 16 (p + 7) := by
      rw [BitVec.add_assoc]
      exact pc_next rfl
    have hback : (.ofNat 16 (p + 7) + (0xF9 : U8).signExtend 16 : U16) = .ofNat 16 (p + 0) := by
      rw [show (0xF9 : U8).signExtend 16 = .ofNat 16 0xFFF9 from rfl, ← BitVec.ofNat_add]
      apply BitVec.eq_of_toNat_eq
      simp only [BitVec.toNat_ofNat]
      omega
    simp only [hbyte, hpc, hnext, hback, Ins.branchTaken]
    cases x.1.cpu.PS.Z <;> rfl
  · rw [stepOf_mem PROGMEM hat]
    rfl

theorem poll_data (hpc : x.1.cpu.PC = .ofNat 16 (p + 7)) :
    StepSafe PROGMEM x ∧ (stepOf PROGMEM x).1.cpu.PC = .ofNat 16 (p + 10) ∧
      (stepOf PROGMEM x).1.cpu.A = peek PROGMEM x.2 aciaData ∧ (stepOf PROGMEM x).2 = x.2 := by
  have hrest := hcode.drop PROGMEM (k := 7) (by decide)
  have hat : AtAbsolute PROGMEM (.ldaAbs, aciaData) x := hrest.absolute PROGMEM hpc
  obtain ⟨hcpu, hmem⟩ := ldaAbs_step PROGMEM hat
  refine ⟨hat.stepSafe PROGMEM rfl (by decide), ?_, ?_, hmem⟩
  · rw [hcpu]
    exact pc_next (k := 3) hpc
  · rw [hcpu]
    rfl

theorem poll_store (hpc : x.1.cpu.PC = .ofNat 16 (p + 10)) :
    (stepOf PROGMEM x).1.cpu.PC = .ofNat 16 (p + 13) ∧
      (stepOf PROGMEM x).2 = poke x.2 (inBuffer + x.1.cpu.Y.setWidth 16) x.1.cpu.A := by
  have hrest : CodeAt PROGMEM (p + 10) (absolute (.staAbsy, inBuffer) ++ []) :=
    hcode.drop PROGMEM (by decide)
  have hat : AtAbsolute PROGMEM (.staAbsy, inBuffer) x := hrest.absolute PROGMEM hpc
  have hcpu := stepOf_effect PROGMEM hat.opcode rfl
  simp only [Effect.codeCpu, Olc6502.advanced_eq] at hcpu
  constructor
  · rw [hcpu]
    exact pc_next (k := 3) hpc
  · have hoperand : operandWord PROGMEM x = inBuffer := hat.operand
    rw [stepOf_mem PROGMEM hat.opcode, ← hoperand]
    rfl

/-! ## What one instruction does to a poll -/

variable {y : Machine b}

/-- Only the rest of the monitor could change the status byte, and it does not. -/
theorem status_instruction (h : SystemStep PROGMEM p .instruction x y) :
    peek PROGMEM y.2 aciaStatus = peek PROGMEM x.2 aciaStatus := by
  obtain ⟨hnext, hrest⟩ := h
  obtain ⟨-, hmem⟩ := hnext.stepOf PROGMEM
  by_cases hin : InPoll p x
  · rw [hmem]
    obtain ⟨k, hk, hpc⟩ := hin
    simp only [List.mem_cons, List.not_mem_nil, or_false] at hk
    rcases hk with rfl | rfl | rfl | rfl | rfl
    · rw [(poll_status PROGMEM hcode hpc).2.2.2]
    · rw [(poll_and PROGMEM hcode hpc).2.2.2]
    · rw [(poll_beq PROGMEM hcode hpc).2.2]
    · rw [(poll_data PROGMEM hcode hpc).2.2.2]
    -- the line buffer is RAM from `0x0200` on, wherever `Y` points in it
    · rw [(poll_store PROGMEM hcode hpc).2]
      refine peek_poke_of_ne PROGMEM x.2 _ fun _ => ?_
      have hY := x.1.cpu.Y.isLt
      have haddr : inBuffer + x.1.cpu.Y.setWidth 16 = .ofNat 16 (0x200 + x.1.cpu.Y.toNat) := by
        rw [BitVec.ofNat_add, BitVec.ofNat_toNat]
        rfl
      rw [haddr, cellIndex_ram (by omega), show cellIndex b aciaStatus = 0x909 from rfl]
      omega
  · exact (hrest hin).status

/-- A poll that has not seen bit 3 set goes on like that while the status byte lacks it. -/
theorem inFlight_instruction (h : SystemStep PROGMEM p .instruction x y)
    (hstatus : peek PROGMEM x.2 aciaStatus &&& 0x08 = 0)
    (hx : ¬ InFlight p x ∨ x.1.cpu.PC = .ofNat 16 (p + 7)) : ¬ InFlight p y := by
  obtain ⟨hnext, hrest⟩ := h
  obtain ⟨hcpu, -⟩ := hnext.stepOf PROGMEM
  by_cases hin : InPoll p x
  · obtain ⟨k, hk, hpc⟩ := hin
    simp only [List.mem_cons, List.not_mem_nil, or_false] at hk
    rcases hk with rfl | rfl | rfl | rfl | rfl
    -- `LDA ACIA_STATUS` has just read a byte without bit 3
    · obtain ⟨-, hpc', hA, -⟩ := poll_status PROGMEM hcode hpc
      rw [← hcpu] at hpc' hA
      rintro (he | ⟨he, -⟩ | ⟨-, hbit⟩)
      · exact poll_ne (by simp) (by simp) (by simp) (hpc'.symm.trans he)
      · exact poll_ne (by simp) (by simp) (by simp) (hpc'.symm.trans he)
      · rw [hA] at hbit
        exact hbit hstatus
    -- `A` lacked the bit before `AND #$08`, or a poll was in flight
    · obtain ⟨-, hpc', hZ, -⟩ := poll_and PROGMEM hcode hpc
      rw [← hcpu] at hpc' hZ
      have hbit : x.1.cpu.A &&& 0x08 = 0 := by
        by_contra hbit
        rcases hx with hx | hx
        · exact hx (.inr (.inr ⟨hpc, hbit⟩))
        · exact poll_ne (by simp) (by simp) (by simp) (hpc.symm.trans hx)
      rintro (he | ⟨-, hz⟩ | ⟨he, -⟩)
      · exact poll_ne (by simp) (by simp) (by simp) (hpc'.symm.trans he)
      · rw [hZ, hbit] at hz
        exact absurd hz (by simp)
      · exact poll_ne (by simp) (by simp) (by simp) (hpc'.symm.trans he)
    · obtain ⟨-, hpc', -⟩ := poll_beq PROGMEM hcode hpc
      have hZ : x.1.cpu.PS.Z = true := by
        by_contra hZ
        rcases hx with hx | hx
        · exact hx (.inr (.inl ⟨hpc, Bool.eq_false_of_not_eq_true hZ⟩))
        · exact poll_ne (by simp) (by simp) (by simp) (hpc.symm.trans hx)
      rw [← hcpu, hZ] at hpc'
      exact not_inFlight_of_pc (by simp) (by simp) (by simp) (by simp) hpc'
    · obtain ⟨-, hpc', -⟩ := poll_data PROGMEM hcode hpc
      rw [← hcpu] at hpc'
      exact not_inFlight_of_pc (by simp) (by simp) (by simp) (by simp) hpc'
    · obtain ⟨hpc', -⟩ := poll_store PROGMEM hcode hpc
      rw [← hcpu] at hpc'
      exact not_inFlight_of_pc (by simp) (by simp) (by simp) (by simp) hpc'
  -- the rest of the monitor enters a poll at its first instruction only
  · obtain ⟨-, hentry⟩ := hrest hin
    rintro (hy | ⟨hy, -⟩ | ⟨hy, -⟩)
    · exact hentry 7 (by simp) hy
    · exact hentry 5 (by simp) hy
    · exact hentry 3 (by simp) hy

/-! ## What a run does to a posted character -/

variable {r : MonitorRun b PROGMEM p} {t : Nat} {c : U8}

omit hcode in
theorem MonitorRun.stepOf {k : Nat} (h : r.action k = .instruction) :
    (r.state (k + 1)).1.cpu = (M6502.stepOf PROGMEM (r.state k)).1.cpu ∧
      (r.state (k + 1)).2 = (M6502.stepOf PROGMEM (r.state k)).2 := by
  have hstep := r.step k
  rw [h] at hstep
  exact hstep.1.stepOf PROGMEM

/-- A poll that has seen bit 3 set reads the character within three instructions. -/
theorem inFlight_reads (hdata : peek PROGMEM (r.state (t + 1)).2 aciaData = c)
    (hlive : r.Current t (t + 3)) (hin : InFlight p (r.state (t + 1))) :
    ∃ k, r.Current t k ∧ r.Reads k ∧ (r.state (k + 1)).1.cpu.A = c := by
  obtain ⟨-, hact⟩ := hlive
  have hread : ∀ k, t < k → k ≤ t + 3 → (r.state k).1.cpu.PC = .ofNat 16 (p + 7) →
      peek PROGMEM (r.state k).2 aciaData = c →
      ∃ k, r.Current t k ∧ r.Reads k ∧ (r.state (k + 1)).1.cpu.A = c := by
    intro k htk hk hpc hc
    obtain ⟨-, -, hA, -⟩ := poll_data PROGMEM hcode hpc
    rw [← (r.stepOf PROGMEM (hact k htk hk)).1] at hA
    exact ⟨k, ⟨htk, fun j htj hjk => hact j htj (by omega)⟩, ⟨hact k htk hk, hpc⟩, hA.trans hc⟩
  have hbranch : ∀ k, t < k → k + 1 ≤ t + 3 → (r.state k).1.cpu.PC = .ofNat 16 (p + 5) →
      (r.state k).1.cpu.PS.Z = false → peek PROGMEM (r.state k).2 aciaData = c →
      ∃ k, r.Current t k ∧ r.Reads k ∧ (r.state (k + 1)).1.cpu.A = c := by
    intro k htk hk hpc hZ hc
    obtain ⟨-, hpc', hmem⟩ := poll_beq PROGMEM hcode hpc
    obtain ⟨hcpu, hmem'⟩ := r.stepOf PROGMEM (hact k htk (by omega))
    rw [← hcpu, hZ] at hpc'
    rw [← hmem'] at hmem
    exact hread (k + 1) (by omega) hk hpc' (by rw [hmem, hc])
  -- one, two or three instructions to go
  rcases hin with hpc | ⟨hpc, hZ⟩ | ⟨hpc, hbit⟩
  · exact hread (t + 1) (by omega) (by omega) hpc hdata
  · exact hbranch (t + 1) (by omega) (by omega) hpc hZ hdata
  · obtain ⟨-, hpc', hZ, hmem⟩ := poll_and PROGMEM hcode hpc
    obtain ⟨hcpu, hmem'⟩ := r.stepOf PROGMEM (hact (t + 1) (by omega) (by omega))
    rw [← hcpu] at hpc' hZ
    rw [← hmem'] at hmem
    have hclear : (r.state (t + 1 + 1)).1.cpu.PS.Z = false := by
      rw [hZ]
      exact beq_false_of_ne hbit
    exact hbranch (t + 2) (by omega) (by omega) hpc' hclear (by rw [hmem, hdata])

/-- While a posted character is the current one, the status byte is as it was posted. -/
theorem status_current {k : Nat} (hstatus : peek PROGMEM (r.state (t + 1)).2 aciaStatus = 0x10)
    (hk : r.Current t k) : peek PROGMEM (r.state k).2 aciaStatus = 0x10 := by
  obtain ⟨htk, hact⟩ := hk
  induction k, htk using Nat.le_induction with
  | base => exact hstatus
  | succ k htk ih =>
    have hstep := r.step k
    rw [hact k htk (Nat.le_succ k)] at hstep
    rw [status_instruction PROGMEM hcode hstep]
    exact ih fun j htj hjk => hact j htj (Nat.le_succ_of_le hjk)

/-- After a poll that was not in flight, or has read, nothing is read. -/
theorem not_reads_after {i k : Nat} (hstatus : peek PROGMEM (r.state (t + 1)).2 aciaStatus = 0x10)
    (hti : t < i) (hik : i ≤ k) (hk : r.Current t k) (hi : ¬ InFlight p (r.state i)) :
    ¬ InFlight p (r.state k) := by
  obtain ⟨htk, hact⟩ := hk
  induction k, hik using Nat.le_induction with
  | base => exact hi
  | succ k hik ih =>
    have hlow : ∀ j, t < j → j ≤ k → r.action j = .instruction :=
      fun j htj hjk => hact j htj (Nat.le_succ_of_le hjk)
    have hstep := r.step k
    rw [hlow k (by omega) (Nat.le_refl k)] at hstep
    have hbit := status_current PROGMEM hcode hstatus ⟨by omega, hlow⟩
    exact inFlight_instruction PROGMEM hcode hstep (by rw [hbit]; rfl) (.inl (ih (by omega) hlow))

/-- So two reads are one. -/
theorem reads_unique {j k : Nat} (hstatus : peek PROGMEM (r.state (t + 1)).2 aciaStatus = 0x10)
    (hjk : j < k) (hj : r.Current t j) (hk : r.Current t k) (hread : r.Reads j) : ¬ r.Reads k := by
  have hstep := r.step j
  rw [hread.1] at hstep
  have hbit := status_current PROGMEM hcode hstatus hj
  have hdone : ¬ InFlight p (r.state (j + 1)) :=
    inFlight_instruction PROGMEM hcode hstep (by rw [hbit]; rfl) (.inr hread.2)
  have hnot := not_reads_after PROGMEM hcode hstatus (Nat.lt_succ_of_lt hj.1) hjk hk hdone
  exact fun hkread => hnot (.inl hkread.2)

end Poll

/-! ## The handshake -/

theorem postCharacter_eq (mem : Memory b) (c : U8) :
    postCharacter mem c = some (poke (poke mem aciaData c) aciaStatus 0x10) := by
  have hdata : StoreInBounds b aciaData := storeInBounds_of_lt (by decide)
  have hstatus : StoreInBounds b aciaStatus := storeInBounds_of_lt (by decide)
  simp only [postCharacter, busWriteByte_eq, if_pos hdata, if_pos hstatus, Option.bind_eq_bind,
    Option.bind_some]

theorem peek_posted (mem : Memory b) (c : U8) :
    peek PROGMEM (poke (poke mem aciaData c) aciaStatus 0x10) aciaStatus = 0x10 ∧
      peek PROGMEM (poke (poke mem aciaData c) aciaStatus 0x10) aciaData = c := by
  have hne : cellIndex b aciaStatus ≠ cellIndex b aciaData := by
    rw [show cellIndex b aciaStatus = 0x909 from rfl, show cellIndex b aciaData = 0x908 from rfl]
    simp
  constructor
  · exact peek_poke_same PROGMEM _ _ (by decide) rfl
  · rw [peek_poke_of_ne PROGMEM _ _ fun _ => hne]
    exact peek_poke_same PROGMEM _ _ (by decide) rfl

/-- **A posted character is read at most once, and exactly once if and only if** it arrives while
    a poll is in flight that had found bit 3 set. It has then three instructions to be read. -/
theorem keyboard_iff (b : Build) (PROGMEM : Progmem) {p : Nat} (hcode : CodeAt PROGMEM p nextChar)
    (r : MonitorRun b PROGMEM p) {t : Nat} {c : U8} (hpost : r.action t = .post c) :
    (∀ j k, r.Current t j → r.Current t k → r.Reads j → r.Reads k → j = k) ∧
      (r.Current t (t + 3) → (r.ReadOnce t c ↔ InFlight p (r.state t))) := by
  have hstep := r.step t
  rw [hpost] at hstep
  obtain ⟨hcpu, hmem⟩ := hstep
  rw [postCharacter_eq, Option.some_inj] at hmem
  obtain ⟨hstatus, hdata⟩ := peek_posted PROGMEM (r.state t).2 c
  rw [hmem] at hstatus hdata
  have hunique : ∀ j k, r.Current t j → r.Current t k → r.Reads j → r.Reads k → j = k := by
    intro j k hj hk hjread hkread
    rcases Nat.lt_trichotomy j k with hlt | heq | hlt
    · exact absurd hkread (reads_unique PROGMEM hcode hstatus hlt hj hk hjread)
    · exact heq
    · exact absurd hjread (reads_unique PROGMEM hcode hstatus hlt hk hj hkread)
  have hflight : InFlight p (r.state (t + 1)) ↔ InFlight p (r.state t) := by
    unfold InFlight
    rw [hcpu]
  refine ⟨hunique, fun hlive => ?_⟩
  rw [← hflight]
  constructor
  · rintro ⟨k, hk, hread, -, -⟩
    by_contra hnot
    exact not_reads_after PROGMEM hcode hstatus (Nat.lt_succ_self t) hk.1 hk hnot (.inl hread.2)
  · intro hin
    obtain ⟨k, hk, hread, hA⟩ := inFlight_reads PROGMEM hcode hdata hlive hin
    exact ⟨k, hk, hread, hA, fun j hj hjread => hunique j k hj hk hjread hread⟩

/-! ## A monitor that waits forever -/

/-- The poll is under way and does not see bit 3 set. -/
def Waiting (p : Nat) (x : Machine b) : Prop :=
  peek PROGMEM x.2 aciaStatus = 0x10 ∧ (x.1.cpu.PC = .ofNat 16 (p + 0) ∨
    (x.1.cpu.PC = .ofNat 16 (p + 3) ∧ x.1.cpu.A &&& 0x08 = 0) ∨
    (x.1.cpu.PC = .ofNat 16 (p + 5) ∧ x.1.cpu.PS.Z = true))

theorem Waiting.step {p : Nat} {x : Machine b} (hcode : CodeAt PROGMEM p nextChar)
    (h : Waiting PROGMEM p x) :
    InPoll p x ∧ StepSafe PROGMEM x ∧ Waiting PROGMEM p (stepOf PROGMEM x) := by
  obtain ⟨hstatus, hpc | ⟨hpc, hbit⟩ | ⟨hpc, hZ⟩⟩ := h
  · obtain ⟨hsafe, hpc', hA, hmem⟩ := poll_status PROGMEM hcode hpc
    refine ⟨⟨0, by simp, hpc⟩, hsafe, by rw [hmem, hstatus], .inr (.inl ⟨hpc', ?_⟩)⟩
    rw [hA, hstatus]
    rfl
  · obtain ⟨hsafe, hpc', hZ, hmem⟩ := poll_and PROGMEM hcode hpc
    refine ⟨⟨3, by simp, hpc⟩, hsafe, by rw [hmem, hstatus], .inr (.inr ⟨hpc', ?_⟩)⟩
    rw [hZ, hbit]
    rfl
  · obtain ⟨hsafe, hpc', hmem⟩ := poll_beq PROGMEM hcode hpc
    rw [hZ] at hpc'
    exact ⟨⟨5, by simp, hpc⟩, hsafe, by rw [hmem, hstatus], .inl hpc'⟩

/-! ## A character in time -/

/-- The poll, and a jump back to it. -/
def replyProgmem : Progmem := progmemOf (nextChar ++ [0x4C, 0x00, 0x80])

theorem reply_code : CodeAt replyProgmem 0x8000 nextChar :=
  (codeAt_progmemOf (by decide)).take

/-- A poll has just found bit 3 set when the host posts a character. -/
def replyState : Nat → Machine ⟨false⟩
  | 0 => callStart { olc6502Init with PC := 0x8003, A := 0x08 } false ⟨fun _ => 0⟩ 1
  | 1 => ((replyState 0).1, poke (poke (replyState 0).2 aciaData 0x41) aciaStatus 0x10)
  | k + 2 => stepOf replyProgmem (replyState (k + 1))

theorem replyState_waiting {k : Nat} (hk : 5 ≤ k) :
    Waiting replyProgmem 0x8000 (replyState (k + 1)) := by
  induction k, hk using Nat.le_induction with
  | base => exact ⟨by decide, .inl rfl⟩
  | succ k _ ih => exact (ih.step _ reply_code).2.2

/-- It is read and stored, and the poll is entered again and waits. -/
theorem replyState_step (k : Nat) :
    SystemStep replyProgmem 0x8000 .instruction (replyState (k + 1)) (replyState (k + 2)) := by
  by_cases hk : k < 5
  · have hsafe : ∀ k < 5, StepSafe replyProgmem (replyState (k + 1)) := by decide
    refine ⟨.of_safe _ (hsafe k hk), fun hout => ?_⟩
    have hin : ∀ k < 4, InPoll 0x8000 (replyState (k + 1)) := by
      unfold InPoll
      decide
    obtain rfl : k = 4 := by
      by_contra hne
      exact hout (hin k (by omega))
    have hstatus : peek replyProgmem (replyState 5).2 aciaStatus = 0x10 := by decide
    have hPC : (replyState 6).1.cpu.PC = 0x8000 := rfl
    refine ⟨(replyState_waiting (Nat.le_refl 5)).1.trans hstatus.symm, ?_⟩
    rw [hPC]
    decide
  · obtain ⟨hin, hsafe, -⟩ := (replyState_waiting (Nat.not_lt.mp hk)).step _ reply_code
    exact ⟨.of_safe _ hsafe, fun hout => absurd hin hout⟩

def replyRun : MonitorRun ⟨false⟩ replyProgmem 0x8000 where
  state := replyState
  action
    | 0 => .post 0x41
    | _ + 1 => .instruction
  step
    | 0 => ⟨rfl, postCharacter_eq (replyState 0).2 0x41⟩
    | k + 1 => replyState_step k

theorem keyboard_iff_reply : replyRun.ReadOnce 0 0x41 := by
  refine ((keyboard_iff ⟨false⟩ _ reply_code replyRun rfl).2 ?_).mpr (.inr (.inr ⟨rfl, by decide⟩))
  refine ⟨by decide, fun j hj _ => ?_⟩
  cases j with
  | zero => exact absurd hj (Nat.lt_irrefl 0)
  | succ j => rfl

/-! ## A character that is lost -/

/-- About to poll, with the memory as it is initialised. -/
def waitStart : Machine ⟨false⟩ :=
  callStart { olc6502Init with PC := 0x8000 } false ⟨fun _ => 0⟩ 1

/-- The host posts a character, and from then on the CPU runs. -/
def waitState : Nat → Machine ⟨false⟩
  | 0 => waitStart
  | 1 => (waitStart.1, poke (poke waitStart.2 aciaData 0x41) aciaStatus 0x10)
  | k + 2 => stepOf (progmemOf nextChar) (waitState (k + 1))

theorem nextChar_code : CodeAt (progmemOf nextChar) 0x8000 nextChar := codeAt_progmemOf (by decide)

theorem waitState_waiting (k : Nat) : Waiting (progmemOf nextChar) 0x8000 (waitState (k + 1)) := by
  induction k with
  | zero => exact ⟨(peek_posted (progmemOf nextChar) waitStart.2 0x41).1, .inl rfl⟩
  | succ k ih => exact (ih.step _ nextChar_code).2.2

def waitRun : MonitorRun ⟨false⟩ (progmemOf nextChar) 0x8000 where
  state := waitState
  action
    | 0 => .post 0x41
    | _ + 1 => .instruction
  step
    | 0 => ⟨rfl, postCharacter_eq waitStart.2 0x41⟩
    | k + 1 =>
      have hwait := (waitState_waiting k).step _ nextChar_code
      ⟨.of_safe _ hwait.2.1, fun hout => absurd hwait.1 hout⟩

theorem waitRun_current (k : Nat) : waitRun.Current 0 (k + 1) := by
  refine ⟨Nat.succ_pos k, fun j hj _ => ?_⟩
  cases j with
  | zero => exact absurd hj (Nat.lt_irrefl 0)
  | succ j => rfl

/-- The character is never read, though nothing else is ever posted. -/
theorem not_keyboard :
    ¬ ∀ (b : Build) (PROGMEM : Progmem) (p : Nat), CodeAt PROGMEM p nextChar →
      ∀ (r : MonitorRun b PROGMEM p) (t : Nat) (c : U8), r.action t = .post c →
        (∀ k, t < k → r.Current t k) → r.ReadOnce t c := by
  intro h
  have hcurrent : ∀ k, 0 < k → waitRun.Current 0 k := by
    intro k hk
    obtain ⟨j, rfl⟩ := Nat.exists_eq_add_of_le' hk
    exact waitRun_current j
  obtain ⟨k, hk, ⟨-, hpc⟩, -⟩ := h ⟨false⟩ _ 0x8000 nextChar_code waitRun 0 0x41 rfl hcurrent
  obtain ⟨j, rfl⟩ := Nat.exists_eq_add_of_le' hk.1
  obtain ⟨-, hwait | ⟨hwait, -⟩ | ⟨hwait, -⟩⟩ := waitState_waiting j
  · exact poll_ne (by simp) (by simp) (by simp) (hwait.symm.trans hpc)
  · exact poll_ne (by simp) (by simp) (by simp) (hwait.symm.trans hpc)
  · exact poll_ne (by simp) (by simp) (by simp) (hwait.symm.trans hpc)

end M6502
