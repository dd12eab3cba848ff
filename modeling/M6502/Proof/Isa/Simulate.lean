import M6502.Lib.IsaRun
import M6502.Proof.Cpu.BranchTiming
import M6502.Proof.Cpu.StraightLine
import M6502.Proof.Isa.Refine

/-!
# Runs against the manual

A run of the 6502 without its decimal mode through regular lines is a run of the code, in one call
or spread over any number of them, with the same stores in the same order (`isa_simulation`).
Where the lines are also ones the code counts right, a call of `olc6502_clock` is that machine run
until its documented cycles have used the budget up (`clockOn_isa`).
-/

set_option autoImplicit false

namespace M6502

open Lib

variable {b : Build} (PROGMEM : Progmem)

/-! ## States and stores -/

/-- The machine, and the stores it has made. -/
abbrev Logged (b : Build) := Machine b × List (U16 × U8)

/-- One instruction more, in the same call or in the next. -/
def LogNext (p q : Logged b) : Prop :=
  Next PROGMEM p.1 q.1 ∧ q.2 = p.2 ++ stepWrites PROGMEM p.1

def Logged.run (p : Logged b) : Isa.Run (Memory b) := ⟨ref p.1, p.2⟩

theorem LogNext.run_eq {p q : Logged b} (h : LogNext PROGMEM p q) :
    q.run = ⟨ref (stepOf PROGMEM p.1), p.2 ++ stepWrites PROGMEM p.1⟩ := by
  obtain ⟨hnext, hstores⟩ := h
  obtain ⟨hcpu, hmem⟩ := hnext.stepOf PROGMEM
  unfold Logged.run ref
  rw [hcpu, hmem, hstores]

/-- A regular line of the manual's machine is an instruction of the code. -/
theorem simulates_regular :
    Simulates (LogNext PROGMEM) ((busSpace PROGMEM b).Step (Regular PROGMEM)) Logged.run := by
  rintro p t ⟨l, hl, hr, rfl⟩
  obtain ⟨hsafe, href, hwrites⟩ := step_refines PROGMEM hl hr
  refine ⟨⟨(stepOf PROGMEM p.1, _), .of_safe PROGMEM hsafe, rfl⟩, fun q hq => ?_⟩
  rw [hq.run_eq, href, hwrites]
  rfl

/-- **A run of the 6502 without its decimal mode, through regular lines, is a run of the code**:
    the instructions can all be executed, in however many calls, and they leave the state of that
    machine and have made its stores. -/
theorem isa_simulation (b : Build) (PROGMEM : Progmem) (k : Nat) (p : Logged b)
    (r : Isa.Run (Memory b))
    (h : Steps ((busSpace PROGMEM b).Step (Regular PROGMEM)) k p.run r) :
    Leads (LogNext PROGMEM) k p fun q => q.run = r :=
  (simulates_regular PROGMEM).leads h

/-- A program image of `LDX #$05` and `STX $10`. -/
def manualProgmem : Progmem := progmemOf [0xA2, 0x05, 0x86, 0x10]

def manualState : Machine ⟨false⟩ :=
  (clockStart { olc6502Init with PC := 0x8000 } false 5, ⟨fun _ => 0x00⟩)

theorem manual_ldx : Regular manualProgmem ⟨.ldx, .immediate, 0x05⟩ (ref manualState) :=
  ⟨nofun, nofun, nofun, nofun, trivial⟩

/-- The state after it. -/
def manualStored : Isa.State (Memory ⟨false⟩) :=
  (busSpace manualProgmem ⟨false⟩).exec₁ ⟨.ldx, .immediate, 0x05⟩ (ref manualState)

theorem manual_stx : Regular manualProgmem ⟨.stx, .zeroPage, 0x10⟩ manualStored :=
  ⟨nofun, nofun, nofun, fun _ _ => by decide, trivial⟩

/-- The two lines, and the one store. -/
theorem isa_simulation_stx :
    Leads (LogNext manualProgmem) 2 (manualState, []) fun q =>
      q.run = ⟨(busSpace manualProgmem ⟨false⟩).exec₁ ⟨.stx, .zeroPage, 0x10⟩ manualStored,
        [(0x0010, 0x05)]⟩ :=
  isa_simulation ⟨false⟩ manualProgmem 2 (manualState, []) _
    ⟨_, ⟨_, by decide, manual_ldx, rfl⟩, _, ⟨_, by decide, manual_stx, rfl⟩, rfl⟩

/-! ## Runs that stay away from an address -/

/-- One instruction more, while `PC` meets `E`. -/
def NextWhile (E : U16 → Prop) (p q : Logged b) : Prop := E p.1.1.cpu.PC ∧ LogNext PROGMEM p q

/-- The condition of the manual's lines. -/
def RegularWhile (E : U16 → Prop) (l : Isa.Line) (s : Isa.State (Memory b)) : Prop :=
  Regular PROGMEM l s ∧ E s.cpu.PC

theorem simulates_while (E : U16 → Prop) : Simulates (NextWhile PROGMEM E)
    ((busSpace PROGMEM b).Step (RegularWhile PROGMEM E)) Logged.run := by
  rintro p t ⟨l, hl, ⟨hr, hE⟩, rfl⟩
  obtain ⟨⟨q, hq⟩, hall⟩ := simulates_regular PROGMEM p _ ⟨l, hl, hr, rfl⟩
  exact ⟨⟨q, hE, hq⟩, fun q hq => hall q hq.2⟩

/-- They are runs. -/
theorem arrives_of_while {E : U16 → Prop} {Q : Logged b → Prop} {p : Logged b}
    (h : Arrives (NextWhile PROGMEM E) Q p) : Arrives (LogNext PROGMEM) Q p := by
  induction h with
  | done h => exact .done h
  | step hx _ ih =>
    obtain ⟨q, hE, hq⟩ := hx
    exact .step ⟨q, hq⟩ fun q hq => ih q ⟨hE, hq⟩

/-! ## Cycles -/

/-- The line is regular, and the code takes the cycles for it that the manual does. -/
structure Timely (l : Isa.Line) (s : Isa.State (Memory b)) : Prop where
  regular : Regular PROGMEM l s
  mode : l.mode ≠ .indirectX
  table : (l.op, l.mode) ∉ [(Isa.Op.lda, Isa.Mode.zeroPage), (.adc, .zeroPageX),
    (.sbc, .zeroPageX), (.cmp, .zeroPageX), (.cpx, .immediate), (.cpy, .immediate)]
  branch : l.op.taken s.cpu.P = true → s.cpu.PC.toNat % 256 ≠ 254

/-- The two tables agree, and look at the page only where an index may leave it. -/
theorem cycles_table (i : Ins) (hb : i.group ≠ .branch) (crossed crossed' : Bool)
    (hc : i.mode ∈ [Mode.absoluteX, .absoluteY, .indirectY] → crossed = crossed') :
    i.op.cycles i.mode.isa crossed = i.documentedCycles crossed' := by
  have hall : ∀ i ∈ Ins.all, i.group ≠ .branch → ∀ crossed crossed' : Bool,
      (i.mode ∈ [Mode.absoluteX, .absoluteY, .indirectY] → crossed = crossed') →
      i.op.cycles i.mode.isa crossed = i.documentedCycles crossed' := by
    decide +kernel
  exact hall i i.mem_all hb crossed crossed' hc

section Cost

variable {i : Ins} {x : Machine b} (h : At PROGMEM i x)
  (ht : Timely PROGMEM (lineAt PROGMEM i x) (ref x))
include ht

theorem Timely.not_mistimed : i ∉ mistimed := by
  have hall : ∀ i ∈ Ins.all, i.mode.isa ≠ .indirectX →
      (i.op, i.mode.isa) ∉ [(Isa.Op.lda, Isa.Mode.zeroPage), (.adc, .zeroPageX),
        (.sbc, .zeroPageX), (.cmp, .zeroPageX), (.cpx, .immediate), (.cpy, .immediate)] →
      i ∉ mistimed := by
    decide +kernel
  exact hall i i.mem_all ht.mode ht.table

/-- The index of such a mode is added to the address the code adds it to. -/
theorem Timely.base (hm : i.mode ∈ [Mode.absoluteX, .absoluteY, .indirectY]) :
    (busSpace PROGMEM b).base i.mode.isa (lineAt PROGMEM i x).arg (ref x) =
      baseAddress PROGMEM i.mode x := by
  have hword := ht.regular.word PROGMEM
  have hpointer := ht.regular.base_indirectY PROGMEM
  unfold lineAt
  cases hmode : i.mode <;> rw [hmode] at hm hword hpointer
  case absoluteX | absoluteY => exact (hword rfl).2
  case indirectY => exact hpointer rfl
  all_goals exact absurd hm (by decide)

theorem Timely.crossed (hm : i.mode ∈ [Mode.absoluteX, .absoluteY, .indirectY]) :
    (busSpace PROGMEM b).crossed i.mode.isa (lineAt PROGMEM i x).arg (ref x) =
      crossesPage PROGMEM i.mode x := by
  have hmode : i.mode.HasAddress ∧ i.mode ≠ .immediate := by
    cases h : i.mode <;> rw [h] at hm <;> first | decide | exact absurd hm (by decide)
  unfold Isa.Space.crossed crossesPage
  rw [ht.base PROGMEM hm, ht.regular.address PROGMEM hmode.1 hmode.2]

include h in
theorem Timely.cost_plain (hy : instructionOn PROGMEM x = some (stepOf PROGMEM x))
    (hb : i.group ≠ .branch) : M6502.cost x (stepOf PROGMEM x) =
      (busSpace PROGMEM b).cycles i.mode.isa (lineAt PROGMEM i x).arg (ref x) i.op := by
  have hcycles : (busSpace PROGMEM b).cycles i.mode.isa (lineAt PROGMEM i x).arg (ref x) i.op =
      i.op.cycles i.mode.isa
        ((busSpace PROGMEM b).crossed i.mode.isa (lineAt PROGMEM i x).arg (ref x)) := by
    cases i <;> first | exact absurd rfl hb | rfl
  have hticks := (ticks_eq_iff hb (crossesPage PROGMEM i.mode x)).mpr (ht.not_mistimed PROGMEM)
  rw [cost_eq PROGMEM h hb hy, hcycles, cycles_table i hb _ _ (ht.crossed PROGMEM), ← hticks]
  omega

include h in
theorem Timely.cost_branch (hy : instructionOn PROGMEM x = some (stepOf PROGMEM x))
    (hb : i.group = .branch) : M6502.cost x (stepOf PROGMEM x) =
      (busSpace PROGMEM b).cycles i.mode.isa (lineAt PROGMEM i x).arg (ref x) i.op := by
  have htaken : i.op.taken x.1.cpu.status = i.branchTaken x.1.cpu.PS := by
    cases i <;> rfl
  have hcycles : (busSpace PROGMEM b).cycles i.mode.isa (lineAt PROGMEM i x).arg (ref x) i.op =
      if i.op.taken x.1.cpu.status then
        if (x.1.cpu.PC + 2 + (operandByte PROGMEM x).signExtend 16).toNat / 256 =
          (x.1.cpu.PC + 2).toNat / 256 then 3 else 4
      else 2 := by
    cases i <;> first | rfl | cases hb
  have hedge : i.branchTaken x.1.cpu.PS = true → x.1.cpu.PC.toNat % 256 ≠ 254 := by
    rw [← htaken]
    exact ht.branch
  obtain ⟨n, hn, hcost⟩ := (branchTiming_iff b PROGMEM i x _ hb h hy).mpr hedge
  rw [documentedBranchCycles_eq, Option.some_inj] at hn
  rw [hcost, hcycles, htaken, hn]

include h in
/-- **A timely line costs what the manual says.** -/
theorem Timely.cost (hy : instructionOn PROGMEM x = some (stepOf PROGMEM x)) :
    M6502.cost x (stepOf PROGMEM x) =
      (busSpace PROGMEM b).cycles i.mode.isa (lineAt PROGMEM i x).arg (ref x) i.op := by
  by_cases hb : i.group = .branch
  · exact ht.cost_branch PROGMEM h hy hb
  · exact ht.cost_plain PROGMEM h hy hb

end Cost

/-! ## Calls -/

/-- A state of the loop, as what the manual's machine and the budget are. -/
def spent (x : Machine b) : Isa.State (Memory b) × Int := (ref x, x.1.cycles.val)

theorem simulates_timely :
    Simulates (fun x y => round PROGMEM x = some y)
      ((busSpace PROGMEM b).Spend (Timely PROGMEM)) spent := by
  rintro x t ⟨hpos, l, hl, ht, rfl⟩
  obtain ⟨hsafe, href, -⟩ := step_refines PROGMEM hl ht.regular
  have hy := (instructionOn_eq_some_iff PROGMEM).mpr ⟨hsafe, rfl⟩
  obtain ⟨i, hat, rfl⟩ := at_of_line PROGMEM hl
  have hcost := ht.cost PROGMEM hat hy
  have hround := (round_eq_some_iff PROGMEM).mpr ⟨hpos, hy⟩
  refine ⟨⟨_, hround⟩, fun y hxy => ?_⟩
  obtain rfl := Option.some.inj (hround.symm.trans hxy)
  refine Prod.ext href ?_
  unfold cost at hcost
  show (stepOf PROGMEM x).1.cycles.val = x.1.cycles.val -
    ((busSpace PROGMEM b).cycles i.mode.isa (lineAt PROGMEM i x).arg (ref x) i.op : Int)
  omega

/-- **A call of `olc6502_clock` is the 6502 without its decimal mode, run until its cycles have
    used up the budget**, through timely lines: it returns the documented cycles of the
    instructions executed, and leaves the registers, flags and memory of that machine. -/
theorem clockOn_isa (b : Build) (PROGMEM : Progmem) (cpu : Olc6502) (oops_cycle : Bool)
    (mem : Memory b) (n left : Int) (k : Nat) (s : Isa.State (Memory b)) (hn : n ≤ int32Max - 6)
    (h : Steps ((busSpace PROGMEM b).Spend (Timely PROGMEM)) k (⟨cpu.isa, mem⟩, n) (s, left))
    (hleft : left ≤ 0) :
    ∃ r, clockOn PROGMEM cpu oops_cycle mem n = some r ∧ r.ret = n - left ∧
      (⟨r.cpu.isa, r.mem⟩ : Isa.State (Memory b)) = s := by
  obtain ⟨⟨y, hy⟩, hall⟩ := (simulates_timely PROGMEM).leads
    (x := callStart cpu oops_cycle mem n) h
  obtain ⟨rfl, hcycles⟩ := Prod.mk.inj (hall y hy)
  have hreached : Reached PROGMEM (callStart cpu oops_cycle mem n) y := ⟨k, steps_iff_iter.mp hy⟩
  have hstop : ¬ Running y := by
    unfold Running
    omega
  refine ⟨callResult n y, (clockOn_eq_some_iff PROGMEM).mpr ⟨y, hreached, hstop, rfl⟩, ?_, rfl⟩
  show clockReturn n y.1.cycles.val = n - left
  rw [hcycles]
  by_cases hpos : 0 < n
  · have hlow := reached_cycles_ge PROGMEM (show -6 ≤ n by omega) hreached
    exact clockReturn_eq (by omega) hn (by omega) hleft
  · -- no instruction is executed
    cases k with
    | zero =>
      obtain ⟨-, rfl⟩ := Prod.mk.inj (show (ref y, left) = (_, n) from h)
      rw [clockReturn_self]
      omega
    | succ k =>
      obtain ⟨_, ⟨hrun, -⟩, -⟩ := h
      exact absurd hrun hpos

/-- Five cycles are the two lines. -/
theorem clockOn_isa_stx :
    ∃ r, clockOn manualProgmem manualState.1.cpu false manualState.2 5 = some r ∧ r.ret = 5 - 0 ∧
      (⟨r.cpu.isa, r.mem⟩ : Isa.State (Memory ⟨false⟩)) =
        (busSpace manualProgmem ⟨false⟩).exec₁ ⟨.stx, .zeroPage, 0x10⟩ manualStored :=
  clockOn_isa ⟨false⟩ manualProgmem manualState.1.cpu false manualState.2 5 0 2 _ (by decide)
    ⟨_, ⟨by decide, _, by decide, ⟨manual_ldx, nofun, by decide, nofun⟩, rfl⟩,
      _, ⟨by decide, _, by decide, ⟨manual_stx, nofun, by decide, nofun⟩, rfl⟩, rfl⟩
    (by decide)

end M6502
