import M6502.Proof.Cpu.Interrupt
import M6502.Proof.Host.Stepping

/-!
# The break flag `run` reports

`BRK` pushes the status byte to page one, at `0x0100 + SP`. When its loop stops, `run_command`
looks the byte up at `SP + 1`, without the `0x0100`: in page zero, or at `0x0100` itself where
`SP` is `0xFF`. And where `SP` is `0xFD` it takes the stack for empty. So bit 4 of the pushed
byte, which is always set, is what is reported only by coincidence (`BreakVisible`).
-/

set_option autoImplicit false

namespace M6502

open Lib Cpu

variable {b : Build} (PROGMEM : Progmem)

/-! ## The loop -/

/-- The condition of the loop, and that it has not been left. -/
def RunGoesOn (p : Shell.RunLocals × Host b) : Prop :=
  p.1.stopped = false ∧ p.2.cpu.PC ≠ irqAddress PROGMEM

instance : DecidablePred (RunGoesOn (b := b) PROGMEM) :=
  fun _ => inferInstanceAs (Decidable (_ ∧ _))

/-- The loop of `run_command`, started on `x`, is at `p` after `k` rounds. -/
def RunHead (x : Host b) (k : Nat) (p : Shell.RunLocals × Host b) : Prop :=
  iter (guarded (RunGoesOn PROGMEM) (Prog.bodyStep (host PROGMEM) Shell.runRound)) k
    (⟨0, false⟩, x) = some p

theorem runTest_run (v : Shell.RunLocals) (x : Host b) :
    (Shell.runTest (irqAddress PROGMEM) v).run (host PROGMEM) x =
      some (decide (RunGoesOn PROGMEM (v, x)), x) := by
  have htest : (!v.stopped && decide (x.cpu.PC ≠ irqAddress PROGMEM)) =
      decide (RunGoesOn PROGMEM (v, x)) := by
    cases hs : v.stopped <;> simp [RunGoesOn, hs]
  rw [← htest]
  rfl

theorem runRound_iff {p q : Shell.RunLocals × Host b} :
    Prog.bodyStep (host PROGMEM) Shell.runRound p = some q ↔
      StepSafe PROGMEM p.2.machine ∧
        q = (⟨p.1.totalCycles + p.2.cost PROGMEM, false⟩, p.2.stepped PROGMEM) := by
  have hrun : Prog.bodyStep (host PROGMEM) Shell.runRound p =
      ((Shell.clock 1).run (host PROGMEM) p.2).bind fun r =>
        some (⟨p.1.totalCycles + r.1, decide (r.1 = 0)⟩, r.2) :=
    Prog.run_bind _ _ (Shell.clock 1) p.2
  have hround : ∀ r, StepSafe PROGMEM p.2.machine ∧ r = (p.2.cost PROGMEM, p.2.stepped PROGMEM) →
      (⟨p.1.totalCycles + r.1, decide (r.1 = 0)⟩, r.2) =
        ((⟨p.1.totalCycles + p.2.cost PROGMEM, false⟩, p.2.stepped PROGMEM) :
          Shell.RunLocals × Host b) := by
    rintro r ⟨hsafe, rfl⟩
    have hpos := p.2.cost_pos PROGMEM hsafe
    rw [decide_eq_false (show p.2.cost PROGMEM ≠ 0 by omega)]
  rw [hrun, Option.bind_eq_some_iff]
  constructor
  · rintro ⟨r, hr, hq⟩
    have hr' := (clock_run_iff PROGMEM).mp hr
    exact ⟨hr'.1, (Option.some.inj hq).symm.trans (hround r hr')⟩
  · rintro ⟨hsafe, rfl⟩
    exact ⟨_, clock_run PROGMEM hsafe, congrArg some (hround _ ⟨hsafe, rfl⟩)⟩

/-- The loop prints nothing, and is not left by its `break`. -/
theorem RunHead.quiet {x : Host b} {k : Nat} {p : Shell.RunLocals × Host b}
    (h : RunHead PROGMEM x k p) : p.1.stopped = false ∧ p.2.output = x.output := by
  refine iter_invariant (I := fun p : Shell.RunLocals × Host b =>
    p.1.stopped = false ∧ p.2.output = x.output) ?_ ⟨rfl, rfl⟩ h
  intro p q hp hq
  obtain ⟨-, rfl⟩ := (runRound_iff PROGMEM).mp (guarded_eq_some_iff.mp hq).2
  exact ⟨rfl, hp.2⟩

/-! ## What is reported -/

/-- Bit 4 of a byte, as the command tests it. -/
def breakFlagAt (x : Host b) (a : U16) : U8 := if x.byteAt PROGMEM a &&& 0x10 ≠ 0 then 1 else 0

/-- The value of `is_break`. -/
def reportedBreak (x : Host b) : U8 :=
  if x.cpu.SP.setWidth 16 = stackBase - 3 then 0
  else breakFlagAt PROGMEM x (x.cpu.SP.setWidth 16 + 1)

theorem isBreak_run (x : Host b) :
    Shell.isBreak.run (host PROGMEM) x = some (reportedBreak PROGMEM x, x) := by
  show (if x.cpu.SP.setWidth 16 = stackBase - 3 then (.ret 0 : Command U8)
    else (Shell.busReadByte (x.cpu.SP.setWidth 16 + 1)).bind fun v =>
      .ret (if v &&& 0x10 ≠ 0 then 1 else 0)).run (host PROGMEM) x = _
  unfold reportedBreak
  split
  · rfl
  · rw [Prog.run_bind, busReadByte_run]
    rfl

/-- Where the loop has stopped, the command prints its report. -/
theorem runCommand_run {x y : Host b} {k : Nat} {v : Shell.RunLocals}
    (hhead : RunHead PROGMEM x k (v, y)) (hstop : ¬ RunGoesOn PROGMEM (v, y)) {fuel : Nat}
    (hfuel : k < fuel) :
    (Shell.runCommand fuel 1).run (host PROGMEM) x =
      some (some 0, { y with output := y.output ++
        [.halted v.totalCycles (reportedBreak PROGMEM y), .cpuStatus y.cpu] }) := by
  have hloop := (Prog.whileDo_run_iff (runTest_run PROGMEM)).mpr ⟨k, hfuel, hhead, hstop⟩
  show ((Shell.busReadWord irqVector).bind fun irq_address =>
    (Prog.whileDo (Shell.runTest irq_address) Shell.runRound fuel ⟨0, false⟩).bind _).run
      (host PROGMEM) x = _
  rw [Prog.run_bind, busReadWord_run, Option.bind_some, Prog.run_bind, hloop, Option.bind_some]
  show (Shell.isBreak.bind _).run (host PROGMEM) y = _
  rw [Prog.run_bind, isBreak_run, Option.bind_some]
  show some (_, { y with output := y.output ++ [_] ++ [_] }) = _
  rw [List.append_assoc]
  rfl

/-! ## After `BRK` -/

/-- What makes the report right: the stack pointer was not zero before the `BRK`, and it was two,
    or bit 4 of the cell in page zero two below it was set. -/
def BreakVisible (w : Host b) : Prop :=
  w.cpu.SP ≠ 0 ∧ (w.cpu.SP = 2 ∨ w.byteAt PROGMEM ((w.cpu.SP - 2).setWidth 16) &&& 0x10 ≠ 0)

section Brk

variable {w : Host b} (hbrk : At PROGMEM .brk w.machine)
include hbrk

theorem brk_safe : StepSafe PROGMEM w.machine := by
  refine (stepSafe_iff PROGMEM hbrk).mpr ⟨?_, ?_⟩ <;> intro h <;> cases h

theorem brk_pc : (w.stepped PROGMEM).cpu.PC = irqAddress PROGMEM :=
  (stepOf_pc PROGMEM hbrk).trans (peekWord_irqVector PROGMEM w.mem)

theorem brk_sp : (w.stepped PROGMEM).cpu.SP = w.cpu.SP - 3 :=
  (stepOf_sp PROGMEM hbrk).trans (by show w.cpu.SP - 1 - 1 - 1 = _; bv_omega)

/-- The status byte is two below where `SP` was, with bit 4 set. -/
theorem brk_status :
    (w.stepped PROGMEM).byteAt PROGMEM (stackAddress (w.cpu.SP - 2)) &&& 0x10 ≠ 0 := by
  have hframe := stepOf_brk_frame PROGMEM hbrk (k := 2) (v := pushedStatus w.cpu) rfl
  have hbit : ∀ v : U8, (v ||| 0x30) &&& 0x10 ≠ 0 := by decide +kernel
  have hbyte : (w.stepped PROGMEM).byteAt PROGMEM (stackAddress (w.cpu.SP - 2)) =
      pushedStatus w.cpu := hframe
  rw [hbyte]
  exact hbit _

theorem brk_frame_flag :
    breakFlagAt PROGMEM (w.stepped PROGMEM)
      (stackAddress ((w.stepped PROGMEM).cpu.SP + 1)) = 1 := by
  have hsp : (w.stepped PROGMEM).cpu.SP + 1 = w.cpu.SP - 2 := by
    rw [brk_sp PROGMEM hbrk]
    bv_omega
  rw [hsp]
  exact if_pos (brk_status PROGMEM hbrk)

/-- Page zero is as before. -/
theorem brk_zeroPage (z : U8) :
    (w.stepped PROGMEM).byteAt PROGMEM (z.setWidth 16) = w.byteAt PROGMEM (z.setWidth 16) := by
  have hmem : (w.stepped PROGMEM).mem =
      pokes w.mem (stackWrites w.cpu.SP (Ins.brk.pushed w.cpu)) := stepOf_mem PROGMEM hbrk
  unfold Host.byteAt
  rw [hmem]
  refine peek_pokes_of_ne PROGMEM fun u hu => ?_
  obtain ⟨k, -, hk, -⟩ := stackWrites_mem hu
  have hz : (z.setWidth 16).toNat = z.toNat := BitVec.toNat_setWidth_of_le (by decide)
  have hlt := z.isLt
  have hcell : cellIndex b (z.setWidth 16) = z.toNat := by
    unfold cellIndex
    rw [hz, if_pos (by omega)]
    omega
  rw [hk, cellIndex_stackAddress, hcell]
  omega

theorem reportedBreak_iff :
    reportedBreak PROGMEM (w.stepped PROGMEM) = 1 ↔ BreakVisible PROGMEM w := by
  have hempty : ((w.cpu.SP - 3).setWidth 16 : U16) = stackBase - 3 ↔ w.cpu.SP = 0 := by
    unfold stackBase
    bv_omega
  have hflag : ∀ a, breakFlagAt PROGMEM (w.stepped PROGMEM) a = 1 ↔
      (w.stepped PROGMEM).byteAt PROGMEM a &&& 0x10 ≠ 0 := by
    intro a
    unfold breakFlagAt
    split <;> simp_all
  unfold reportedBreak BreakVisible
  rw [brk_sp PROGMEM hbrk]
  by_cases h0 : w.cpu.SP = 0
  · rw [if_pos (hempty.mpr h0)]
    exact iff_of_false (by decide) fun h => h.1 h0
  · rw [if_neg (mt hempty.mp h0), hflag]
    by_cases h2 : w.cpu.SP = 2
    -- the only byte of page one the command can read
    · have haddr : ((w.cpu.SP - 3).setWidth 16 + 1 : U16) = stackAddress (w.cpu.SP - 2) := by
        unfold stackAddress stackBase
        rw [h2]
        rfl
      rw [haddr]
      exact iff_of_true (brk_status PROGMEM hbrk) ⟨h0, .inl h2⟩
    · have haddr : ((w.cpu.SP - 3).setWidth 16 + 1 : U16) = (w.cpu.SP - 2).setWidth 16 := by
        bv_omega
      rw [haddr, brk_zeroPage PROGMEM hbrk]
      exact ⟨fun h => ⟨h0, .inr h⟩, fun h => h.2.resolve_left h2⟩

end Brk

/-! ## The report of a run that ends with `BRK` -/

/-- **After a `BRK` the loop stops, and bit 4 of the status byte pushed is what is reported
    exactly if** the byte the command reads instead has it set. -/
theorem runCommand_isBreak_iff (b : Build) (PROGMEM : Progmem) (x w : Host b) (k : Nat)
    (v : Shell.RunLocals) (hhead : RunHead PROGMEM x k (v, w))
    (hpc : w.cpu.PC ≠ irqAddress PROGMEM) (hbrk : At PROGMEM .brk w.machine) :
    ∃ total_cycles is_break,
      (∀ fuel, k + 1 < fuel → (Shell.runCommand fuel 1).run (host PROGMEM) x =
        some (some 0, { w.stepped PROGMEM with output := x.output ++
          [.halted total_cycles is_break, .cpuStatus (w.stepped PROGMEM).cpu] })) ∧
      (is_break = 1 ∧ is_break = breakFlagAt PROGMEM (w.stepped PROGMEM)
          (stackAddress ((w.stepped PROGMEM).cpu.SP + 1)) ↔ BreakVisible PROGMEM w) := by
  obtain ⟨hgoes, hout⟩ := hhead.quiet PROGMEM
  have hround := (runRound_iff PROGMEM (p := (v, w))).mpr ⟨brk_safe PROGMEM hbrk, rfl⟩
  have hnext : RunHead PROGMEM x (k + 1)
      (⟨v.totalCycles + w.cost PROGMEM, false⟩, w.stepped PROGMEM) :=
    iter_succ_last_iff.mpr ⟨_, hhead, guarded_eq_some_iff.mpr ⟨⟨hgoes, hpc⟩, hround⟩⟩
  have hstop : ¬ RunGoesOn PROGMEM
      ((⟨v.totalCycles + w.cost PROGMEM, false⟩ : Shell.RunLocals), w.stepped PROGMEM) :=
    fun h => h.2 (brk_pc PROGMEM hbrk)
  refine ⟨v.totalCycles + w.cost PROGMEM, reportedBreak PROGMEM (w.stepped PROGMEM), ?_, ?_⟩
  · intro fuel hfuel
    rw [runCommand_run PROGMEM hnext hstop hfuel, Host.stepped_output, hout]
  · rw [brk_frame_flag PROGMEM hbrk, and_self]
    exact reportedBreak_iff PROGMEM hbrk

/-- A cleared machine about to execute the `BRK` at `0x8000`, in a program image of zeros. -/
def brkHost (SP : U8) : Host ⟨false⟩ where
  cpu := { olc6502Init with PC := 0x8000, SP }
  oopsCycle := false
  mem := ⟨fun _ => 0⟩
  output := []

/-- With `SP` at two the command reads the byte that was pushed. -/
theorem runCommand_isBreak_iff_two :
    ∃ total_cycles is_break,
      (∀ fuel, 1 < fuel → (Shell.runCommand fuel 1).run (host fun _ => 0) (brkHost 2) =
        some (some 0, { (brkHost 2).stepped (fun _ => 0) with output :=
          [.halted total_cycles is_break, .cpuStatus ((brkHost 2).stepped fun _ => 0).cpu] })) ∧
      is_break = 1 := by
  obtain ⟨total_cycles, is_break, hrun, hiff⟩ := runCommand_isBreak_iff ⟨false⟩ (fun _ => 0)
    (brkHost 2) (brkHost 2) 0 ⟨0, false⟩ rfl (by decide) (by decide)
  exact ⟨total_cycles, is_break, hrun, (hiff.mpr ⟨by decide, .inl rfl⟩).1⟩

/-- After a reset `SP` is `0xFD`, and the flag reported is that of the cell `0x00FB`. -/
theorem not_runCommand_isBreak :
    ¬ ∀ (b : Build) (PROGMEM : Progmem) (x w : Host b) (k : Nat) (v : Shell.RunLocals),
      RunHead PROGMEM x k (v, w) → w.cpu.PC ≠ irqAddress PROGMEM → At PROGMEM .brk w.machine →
      ∃ total_cycles, ∀ fuel, k + 1 < fuel →
        (Shell.runCommand fuel 1).run (host PROGMEM) x =
          some (some 0, { w.stepped PROGMEM with output := x.output ++
            [.halted total_cycles 1, .cpuStatus (w.stepped PROGMEM).cpu] }) := by
  intro h
  obtain ⟨total_cycles, hrun⟩ := h ⟨false⟩ (fun _ => 0) (brkHost 0xFD) (brkHost 0xFD) 0 ⟨0, false⟩
    rfl (by decide) (by decide)
  have hsome := hrun 2 (by decide)
  have hout := congrArg (Option.map fun r => (r.2.output[0]?)) hsome
  have hzero : ((Shell.runCommand 2 1).run (host fun _ => 0) (brkHost 0xFD)).map
      (fun r => r.2.output[0]?) = some (some (.halted 7 0)) := by decide +kernel
  have hflag : Output.halted 7 0 = .halted total_cycles 1 :=
    Option.some.inj (Option.some.inj (hzero.symm.trans hout))
  exact absurd (Output.halted.inj hflag).2 (by decide)

end M6502
