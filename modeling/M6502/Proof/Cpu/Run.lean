import M6502.Proof.Cpu.Budget

/-!
# Runs of a call

A call of `olc6502_clock` is a run of rounds from its first state to the first state whose
counter is used up. The budget bounds its length, so the fuel of the model is never what
ends it (`clockOn_eq_some_iff`), and the call stays inside the arrays exactly if each of
its instructions does (`clockOn_isSome_iff`).
-/

set_option autoImplicit false

namespace M6502

open Lib

variable {b : Build} (PROGMEM : Progmem)

/-- The state a call starts its loop in. -/
def callStart (cpu : Olc6502) (oops_cycle : Bool) (mem : Memory b) (n : Int) : Machine b :=
  (clockStart cpu oops_cycle n, mem)

/-- `y` is the state at the head of the loop after some rounds from `x`. -/
def Reached (x y : Machine b) : Prop := ∃ k, iter (round PROGMEM) k x = some y

theorem round_eq_some_iff {x y : Machine b} :
    round PROGMEM x = some y ↔ Running x ∧ instructionOn PROGMEM x = some y := guarded_eq_some_iff

theorem instructionOn_cycles {x y : Machine b} (h : instructionOn PROGMEM x = some y) :
    x.1.cycles.val - 7 ≤ y.1.cycles.val ∧ y.1.cycles.val ≤ x.1.cycles.val - 1 := by
  unfold instructionOn at h
  obtain ⟨r, hr, rfl⟩ := Option.map_eq_some_iff.mp h
  obtain ⟨hge, hle, -⟩ := (instruction_cost x.1).run hr
  exact ⟨hge, hle⟩

theorem iter_round_cycles {k : Nat} {x y : Machine b} (h : iter (round PROGMEM) k x = some y) :
    y.1.cycles.val ≤ x.1.cycles.val - k := by
  induction k generalizing x with
  | zero =>
    obtain rfl := Option.some.inj h
    omega
  | succ k ih =>
    obtain ⟨z, hz, hy⟩ := Option.bind_eq_some_iff.mp h
    have hcost := (instructionOn_cycles PROGMEM ((round_eq_some_iff PROGMEM).mp hz).2).2
    have := ih hy
    omega

/-- The counter never falls more than six below zero. -/
theorem reached_cycles_ge {x y : Machine b} (hx : -6 ≤ x.1.cycles.val) (h : Reached PROGMEM x y) :
    -6 ≤ y.1.cycles.val := by
  obtain ⟨k, hk⟩ := h
  refine iter_invariant (I := fun z : Machine b => -6 ≤ z.1.cycles.val) ?_ hx hk
  intro z w _ hw
  obtain ⟨hrun, hstep⟩ := (round_eq_some_iff PROGMEM).mp hw
  have hpos : 0 < z.1.cycles.val := hrun
  have hcost := (instructionOn_cycles PROGMEM hstep).1
  omega

theorem Reached.refl (x : Machine b) : Reached PROGMEM x x := ⟨0, rfl⟩

theorem Reached.head {x y z : Machine b} (h : round PROGMEM x = some y) (hz : Reached PROGMEM y z) :
    Reached PROGMEM x z := by
  obtain ⟨k, hk⟩ := hz
  exact ⟨k + 1, by rw [iter_succ, h, Option.bind_some, hk]⟩

theorem Reached.trans {x y z : Machine b} (h : Reached PROGMEM x y) (h' : Reached PROGMEM y z) :
    Reached PROGMEM x z := by
  obtain ⟨j, hj⟩ := h
  obtain ⟨k, hk⟩ := h'
  exact ⟨j + k, by rw [iter_add, hj, Option.bind_some, hk]⟩

/-- What a call that ends in `y` gives. -/
def callResult (n : Int) (y : Machine b) : ClockResult b where
  ret := clockReturn n y.1.cycles.val
  cpu := y.1.cpu
  oopsCycle := y.1.oopsCycle
  mem := y.2

theorem clockOn_eq_map (cpu : Olc6502) (oops_cycle : Bool) (mem : Memory b) (n : Int) :
    clockOn PROGMEM cpu oops_cycle mem n =
      (whileSteps Running (instructionOn PROGMEM) n.toNat
        (callStart cpu oops_cycle mem n)).map (callResult n) := by
  unfold clockOn olc6502Clock callStart
  rw [← clockLoop_run, Prog.run_bind]
  cases (clockLoop n.toNat (clockStart cpu oops_cycle n)).run (bus PROGMEM) mem <;> rfl

/-- **A call is the run to the first state whose counter is used up.** -/
theorem clockOn_eq_some_iff {cpu : Olc6502} {oops_cycle : Bool} {mem : Memory b} {n : Int}
    {r : ClockResult b} :
    clockOn PROGMEM cpu oops_cycle mem n = some r ↔
      ∃ y, Reached PROGMEM (callStart cpu oops_cycle mem n) y ∧ ¬ Running y ∧
        callResult n y = r := by
  rw [clockOn_eq_map, Option.map_eq_some_iff]
  constructor
  · rintro ⟨y, hy, rfl⟩
    obtain ⟨k, hk, hit, hend⟩ := whileSteps_eq_some_iff.mp hy
    refine ⟨y, ⟨k, hit⟩, fun hrun => ?_, rfl⟩
    -- a state still running after all the fuel would have spent it
    have hcyc : y.1.cycles.val ≤ n - k := iter_round_cycles PROGMEM hit
    have hpos : 0 < y.1.cycles.val := hrun
    have := hend hrun
    omega
  · rintro ⟨y, ⟨k, hit⟩, hstop, rfl⟩
    refine ⟨y, whileSteps_eq_some_iff.mpr ?_, rfl⟩
    refine ⟨k, ?_, hit, fun hrun => absurd hrun hstop⟩
    cases k with
    | zero => exact Nat.zero_le _
    | succ k =>
      -- the last round started with a positive counter
      obtain ⟨z, hz, hy⟩ := iter_succ_last_iff.mp hit
      have hcyc : z.1.cycles.val ≤ n - k := iter_round_cycles PROGMEM hz
      have hpos : 0 < z.1.cycles.val := ((round_eq_some_iff PROGMEM).mp hy).1
      omega

/-- A run whose instructions all stay inside the arrays comes to its end. -/
theorem exists_end {x : Machine b}
    (h : ∀ y, Reached PROGMEM x y → Running y → StepSafe PROGMEM y) :
    ∃ y, Reached PROGMEM x y ∧ ¬ Running y := by
  obtain ⟨n, hn⟩ : ∃ n : Nat, x.1.cycles.val ≤ n := ⟨x.1.cycles.val.toNat, by omega⟩
  induction n generalizing x with
  | zero =>
    refine ⟨x, .refl PROGMEM x, fun hrun => ?_⟩
    have hpos : 0 < x.1.cycles.val := hrun
    omega
  | succ n ih =>
    by_cases hrun : Running x
    · obtain ⟨z, hz⟩ := Option.isSome_iff_exists.mp
        ((instructionOn_isSome PROGMEM).mpr (h x (.refl PROGMEM x) hrun))
      have hround := (round_eq_some_iff PROGMEM).mpr ⟨hrun, hz⟩
      have hcost := (instructionOn_cycles PROGMEM hz).2
      obtain ⟨y, hy, hstop⟩ := ih (fun y hy => h y (hy.head PROGMEM hround)) (by omega)
      exact ⟨y, hy.head PROGMEM hround, hstop⟩
    · exact ⟨x, .refl PROGMEM x, hrun⟩

/-- **A call stays inside the arrays exactly if each of its instructions does.** -/
theorem clockOn_isSome_iff (cpu : Olc6502) (oops_cycle : Bool) (mem : Memory b) (n : Int) :
    (clockOn PROGMEM cpu oops_cycle mem n).isSome ↔
      ∀ y, Reached PROGMEM (callStart cpu oops_cycle mem n) y → Running y →
        StepSafe PROGMEM y := by
  rw [Option.isSome_iff_exists]
  constructor
  · rintro ⟨r, hr⟩ z ⟨j, hz⟩ hrun
    obtain ⟨y, ⟨k, hy⟩, hstop, -⟩ := (clockOn_eq_some_iff PROGMEM).mp hr
    by_cases hjk : j ≤ k
    · have hrest := iter_split hjk hz hy
      cases hd : k - j with
      | zero =>
        rw [hd] at hrest
        obtain rfl := Option.some.inj hrest
        exact absurd hrun hstop
      | succ d =>
        rw [hd] at hrest
        obtain ⟨w, hw, -⟩ := Option.bind_eq_some_iff.mp hrest
        exact ((instructionOn_eq_some_iff PROGMEM).mp ((round_eq_some_iff PROGMEM).mp hw).2).1
    · have hrest := iter_split (Nat.le_of_not_le hjk) hy hz
      have := (iter_guarded_stop hstop hrest).1
      omega
  · intro h
    obtain ⟨y, hy, hstop⟩ := exists_end PROGMEM h
    exact ⟨_, (clockOn_eq_some_iff PROGMEM).mpr ⟨y, hy, hstop, rfl⟩⟩

/-! ## Across calls -/

/-- `y` follows `x` by one instruction. Between the two a call may end and another begin, so
    of the activation nothing but the CPU is carried over. -/
def Next (x y : Machine b) : Prop :=
  ∃ z, instructionOn PROGMEM x = some z ∧ y.1.cpu = z.1.cpu ∧ y.2 = z.2

theorem Next.of_step {x y : Machine b} (h : instructionOn PROGMEM x = some y) :
    Next PROGMEM x y := ⟨y, h, rfl, rfl⟩

theorem Next.of_safe {x : Machine b} (h : StepSafe PROGMEM x) :
    Next PROGMEM x (M6502.stepOf PROGMEM x) :=
  .of_step PROGMEM ((instructionOn_eq_some_iff PROGMEM).mpr ⟨h, rfl⟩)

theorem Next.stepOf {x y : Machine b} (h : Next PROGMEM x y) :
    y.1.cpu = (M6502.stepOf PROGMEM x).1.cpu ∧ y.2 = (M6502.stepOf PROGMEM x).2 := by
  obtain ⟨z, hz, hcpu, hmem⟩ := h
  obtain ⟨-, rfl⟩ := (instructionOn_eq_some_iff PROGMEM).mp hz
  exact ⟨hcpu, hmem⟩

end M6502
