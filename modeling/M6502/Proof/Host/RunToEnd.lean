import M6502.Proof.Host.RunReport
import M6502.Proof.Isa.Simulate

/-!
# Running a program to its end

`run_command` steps the machine until `PC` is the address in the IRQ vector. Where every run from
the machine's state comes there (`Arrives`, over the instructions executed elsewhere), the command
returns and reports it, for any bound on its loop that is large enough (`runCommand_arrives`). So
what the 6502 without its decimal mode comes to is what `run` comes to (`runCommand_isa`).
-/

set_option autoImplicit false

namespace M6502

open Lib Cpu

variable {b : Build} (PROGMEM : Progmem)

/-- An instruction that is not at the IRQ address. -/
abbrev RunNext : Logged b → Logged b → Prop := NextWhile PROGMEM (· ≠ irqAddress PROGMEM)

/-- The command returns, with its report of the state it has come to. -/
def RunReturns (x : Host b) (Q : Isa.Run (Memory b) → Prop) : Prop :=
  ∃ (k : Nat) (total : Int) (y : Host b) (ws : List (U16 × U8)),
    y.cpu.PC = irqAddress PROGMEM ∧ Q ⟨⟨y.cpu.isa, y.mem⟩, ws⟩ ∧
      ∀ fuel, k < fuel → (Shell.runCommand fuel 1).run (host PROGMEM) x =
        some (some 0, { y with output := x.output ++
          [.halted total (reportedBreak PROGMEM y), .cpuStatus y.cpu] })

variable {Q : Isa.Run (Memory b) → Prop}

theorem runHead_arrives {p : Logged b}
    (h : Arrives (RunNext PROGMEM) (fun q => q.1.1.cpu.PC = irqAddress PROGMEM ∧ Q q.run) p)
    {x : Host b} {ws : List (U16 × U8)} (hp : p = (x.machine, ws)) {v : Shell.RunLocals}
    (hv : v.stopped = false) :
    ∃ k v' y ws', iter (guarded (RunGoesOn PROGMEM) (Prog.bodyStep (host PROGMEM) Shell.runRound)) k
      (v, x) = some (v', y) ∧ y.cpu.PC = irqAddress PROGMEM ∧ Q ⟨⟨y.cpu.isa, y.mem⟩, ws'⟩ := by
  induction h generalizing x ws v with
  | done hQ =>
    subst hp
    exact ⟨0, v, x, ws, rfl, hQ.1, hQ.2⟩
  | step hx _ ih =>
    subst hp
    obtain ⟨q, hPC, hnext, -⟩ := hx
    obtain ⟨z, hz, -⟩ := hnext
    have hsafe := ((instructionOn_eq_some_iff PROGMEM).mp hz).1
    have hstep : RunNext PROGMEM (x.machine, ws)
        ((x.stepped PROGMEM).machine, ws ++ stepWrites PROGMEM x.machine) :=
      ⟨hPC, ⟨_, (instructionOn_eq_some_iff PROGMEM).mpr ⟨hsafe, rfl⟩, rfl, rfl⟩, rfl⟩
    obtain ⟨k, v', y, ws', hk, hend⟩ :=
      ih _ hstep rfl (v := ⟨v.totalCycles + x.cost PROGMEM, false⟩) rfl
    have hround := (runRound_iff PROGMEM (p := (v, x))).mpr ⟨hsafe, rfl⟩
    refine ⟨k + 1, v', y, ws', ?_, hend⟩
    rw [iter_succ, guarded_eq_some_iff.mpr ⟨⟨hv, hPC⟩, hround⟩]
    exact hk

/-- **What every run of the machine comes to, `run` comes to.** -/
theorem runCommand_arrives {x : Host b} (h : Arrives (RunNext PROGMEM)
    (fun q => q.1.1.cpu.PC = irqAddress PROGMEM ∧ Q q.run) (x.machine, [])) :
    RunReturns PROGMEM x Q := by
  obtain ⟨k, v, y, ws, hk, hPC, hQ⟩ := runHead_arrives PROGMEM h rfl (v := ⟨0, false⟩) rfl
  have hhead : RunHead PROGMEM x k (v, y) := hk
  have hout := (hhead.quiet PROGMEM).2
  refine ⟨k, v.totalCycles, y, ws, hPC, hQ, fun fuel hfuel => ?_⟩
  rw [runCommand_run PROGMEM hhead (fun hgo => hgo.2 hPC) hfuel, hout]

/-- The condition of the manual's lines: regular, and not at the IRQ address. -/
abbrev RegularRun : Isa.Line → Isa.State (Memory b) → Prop :=
  RegularWhile PROGMEM (· ≠ irqAddress PROGMEM)

/-- **`run` is the 6502 without its decimal mode, run to the IRQ address**: where that comes there
    through regular lines, the command returns, reports, and leaves the registers, flags and
    memory of that machine. -/
theorem runCommand_isa (b : Build) (PROGMEM : Progmem) (x : Host b)
    (Q : Isa.Run (Memory b) → Prop) (h : Arrives ((busSpace PROGMEM b).Step (RegularRun PROGMEM))
      (fun r => r.state.cpu.PC = irqAddress PROGMEM ∧ Q r) ⟨⟨x.cpu.isa, x.mem⟩, []⟩) :
    RunReturns PROGMEM x Q :=
  runCommand_arrives PROGMEM
    ((simulates_while PROGMEM _).arrives (x := ((x.machine, []) : Logged b)) h)

/-- A program image of `INX` with the IRQ address after it. -/
def inxProgmem : Progmem := fun i =>
  if i.val = 0 then 0xE8 else if i.val = 0x7FFE then 0x01 else if i.val = 0x7FFF then 0x80 else 0

theorem runCommand_isa_inx :
    RunReturns inxProgmem
      (⟨{ olc6502Init with PC := 0x8000 }, false, ⟨fun _ => 0⟩, []⟩ : Host ⟨false⟩)
      fun r => r.state.cpu.X = 1 :=
  runCommand_isa ⟨false⟩ inxProgmem _ _ (.step
    ⟨_, ⟨.inx, .implied, 0⟩, by decide, ⟨⟨nofun, nofun, nofun, nofun, trivial⟩, by decide⟩, rfl⟩
    (by
      rintro r ⟨l, hl, -, rfl⟩
      obtain rfl : l = ⟨.inx, .implied, 0⟩ := Option.some.inj (hl.symm.trans (by decide))
      exact .done ⟨by decide, by decide⟩))

end M6502
