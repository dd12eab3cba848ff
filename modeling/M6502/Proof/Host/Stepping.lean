import M6502.Main
import M6502.Proof.Cpu.Run

/-!
# The machine, stepped by its host

`run_command` and `wozmon_command` call `olc6502_clock` with a budget of one cycle, which is
one instruction whatever the instruction costs (`clock_run_iff`). So a loop of theirs steps the
machine instruction by instruction (`Host.stepped`), and each call returns at least one cycle:
the `break` of `run_command` is never taken.
-/

set_option autoImplicit false

namespace M6502

open Lib

variable {b : Build} (PROGMEM : Progmem)

/-- The machine as the next call with a budget of one finds it. -/
def Host.machine (x : Host b) : Machine b := callStart x.cpu x.oopsCycle x.mem 1

/-- What that call leaves. -/
def Host.stepped (x : Host b) : Host b :=
  let y := stepOf PROGMEM x.machine
  { x with cpu := y.1.cpu, oopsCycle := y.1.oopsCycle, mem := y.2 }

/-- What it returns. -/
def Host.cost (x : Host b) : Int := clockReturn 1 (stepOf PROGMEM x.machine).1.cycles.val

/-- A byte of the machine's memory, read over the bus. -/
def Host.byteAt (x : Host b) (a : U16) : U8 := peek PROGMEM x.mem a

@[simp] theorem Host.stepped_output (x : Host b) : (x.stepped PROGMEM).output = x.output := rfl

theorem clockOn_one_iff {x : Host b} {r : ClockResult b} :
    clockOn PROGMEM x.cpu x.oopsCycle x.mem 1 = some r ↔
      StepSafe PROGMEM x.machine ∧ r = callResult 1 (stepOf PROGMEM x.machine) := by
  have hrun : Running x.machine := show (0 : Int) < 1 by decide
  -- after one instruction the budget of one is spent
  have hstop : ∀ y, instructionOn PROGMEM x.machine = some y → ¬ Running y := by
    intro y hy hpos
    have hcost := (instructionOn_cycles PROGMEM hy).2
    have hone : x.machine.1.cycles.val = 1 := rfl
    have hpos' : 0 < y.1.cycles.val := hpos
    omega
  rw [clockOn_eq_some_iff]
  constructor
  · rintro ⟨y, ⟨k, hk⟩, hend, rfl⟩
    cases k with
    | zero =>
      obtain rfl := Option.some.inj hk
      exact absurd hrun hend
    | succ k =>
      obtain ⟨z, hz, hy⟩ := Option.bind_eq_some_iff.mp hk
      have hstep := ((round_eq_some_iff PROGMEM).mp hz).2
      obtain ⟨-, rfl⟩ := iter_guarded_stop (hstop z hstep) hy
      obtain ⟨hsafe, rfl⟩ := (instructionOn_eq_some_iff PROGMEM).mp hstep
      exact ⟨hsafe, rfl⟩
  · rintro ⟨hsafe, rfl⟩
    have hstep := (instructionOn_eq_some_iff PROGMEM).mpr ⟨hsafe, rfl⟩
    have hround := (round_eq_some_iff PROGMEM).mpr ⟨hrun, hstep⟩
    exact ⟨_, .head PROGMEM hround (.refl PROGMEM _), hstop _ hstep, rfl⟩

/-- **A call with a budget of one is one instruction.** -/
theorem clock_run_iff {x : Host b} {r : Int × Host b} :
    (Shell.clock 1).run (host PROGMEM) x = some r ↔
      StepSafe PROGMEM x.machine ∧ r = (x.cost PROGMEM, x.stepped PROGMEM) := by
  have hrun : (Shell.clock 1).run (host PROGMEM) x =
      (clockOn PROGMEM x.cpu x.oopsCycle x.mem 1).map fun c =>
        (c.ret, { x with cpu := c.cpu, oopsCycle := c.oopsCycle, mem := c.mem }) := by
    show ((clockOn PROGMEM x.cpu x.oopsCycle x.mem 1).map _).bind _ = _
    cases clockOn PROGMEM x.cpu x.oopsCycle x.mem 1 <;> rfl
  rw [hrun, Option.map_eq_some_iff]
  constructor
  · rintro ⟨c, hc, rfl⟩
    obtain ⟨hsafe, rfl⟩ := (clockOn_one_iff PROGMEM).mp hc
    exact ⟨hsafe, rfl⟩
  · rintro ⟨hsafe, rfl⟩
    exact ⟨_, (clockOn_one_iff PROGMEM).mpr ⟨hsafe, rfl⟩, rfl⟩

theorem clock_run {x : Host b} (hsafe : StepSafe PROGMEM x.machine) :
    (Shell.clock 1).run (host PROGMEM) x = some (x.cost PROGMEM, x.stepped PROGMEM) :=
  (clock_run_iff PROGMEM).mpr ⟨hsafe, rfl⟩

/-- Every call spends at least a cycle. -/
theorem Host.cost_pos {x : Host b} (hsafe : StepSafe PROGMEM x.machine) : 0 < x.cost PROGMEM := by
  have hstep := (instructionOn_eq_some_iff PROGMEM).mpr ⟨hsafe, rfl⟩
  have hcost := instructionOn_cycles PROGMEM hstep
  have hone : x.machine.1.cycles.val = 1 := rfl
  unfold Host.cost
  rw [clockReturn_eq (by decide) (by decide) (by omega) (by omega)]
  omega

/-- The same, with more printed. -/
def Host.prints (x : Host b) (out : List Output) : Host b := { x with output := x.output ++ out }

theorem Host.prints_prints (x : Host b) (out out' : List Output) :
    (x.prints out).prints out' = x.prints (out ++ out') := by
  unfold Host.prints
  rw [List.append_assoc]

theorem printf_run (x : Host b) (out : Output) :
    (Shell.printf out).run (host PROGMEM) x = some ((), x.prints [out]) := rfl

theorem busReadByte_run (x : Host b) (a : U16) :
    (Shell.busReadByte a).run (host PROGMEM) x = some (x.byteAt PROGMEM a, x) := by
  have hop : host PROGMEM (.busReadByte a) x = some (x.byteAt PROGMEM a, x) :=
    congrArg (Option.map fun v => (v, x)) (busReadByte_eq PROGMEM x.mem a)
  unfold Shell.busReadByte
  rw [Prog.run_call, hop]
  rfl

/-- The vector is in PRG ROM, so it is the same all the time. -/
def irqAddress : U16 := peekWord PROGMEM (⟨fun _ => 0⟩ : Memory ⟨false⟩) irqVector

theorem peekWord_irqVector (mem : Memory b) :
    peekWord PROGMEM mem irqVector = irqAddress PROGMEM := by
  unfold irqAddress peekWord busReadWord
  rw [if_pos (by decide), if_pos (by decide)]
  rfl

theorem busReadWord_run (x : Host b) :
    (Shell.busReadWord irqVector).run (host PROGMEM) x = some (irqAddress PROGMEM, x) := by
  have hword : busReadWord PROGMEM x.mem irqVector = some (irqAddress PROGMEM) := by
    rw [busReadWord_eq, if_pos irqVector_inBounds, peekWord_irqVector]
  have hop : host PROGMEM (.busReadWord irqVector) x = some (irqAddress PROGMEM, x) :=
    congrArg (Option.map fun v => (v, x)) hword
  unfold Shell.busReadWord
  rw [Prog.run_call, hop]
  rfl

end M6502
