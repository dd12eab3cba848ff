import M6502.Proof.Cpu.Operand
import M6502.Proof.Cpu.Run

/-!
# One long call against several short ones

Between calls the locals are zeroed, the counter is set anew and `oops_cycle` is left over.
None of it is read by a named opcode, so two activations with the same CPU and memory stay
together, their counters a constant apart (`Apart`). A run of a call with budget `m` is then
a prefix of the run with budget `n`, and a call with what remains of `n` is the rest of it.
-/

set_option autoImplicit false

namespace M6502

open Lib

variable {b : Build} (PROGMEM : Progmem)

/-- The next opcode is one the header names. -/
def Documented (x : Machine b) : Prop := (Ins.ofOpcode? (opcodeAt PROGMEM x)).isSome

/-- Same CPU and memory, and the first counter is ahead by `d`. -/
structure Apart (d : Int) (x y : Machine b) : Prop where
  cpu : x.1.cpu = y.1.cpu
  mem : x.2 = y.2
  cycles : x.1.cycles.val = y.1.cycles.val + d

theorem Apart.symm {d : Int} {x y : Machine b} (h : Apart d x y) : Apart (-d) y x :=
  ⟨h.cpu.symm, h.mem.symm, by rw [h.cycles]; omega⟩

theorem Apart.opcodeAt_eq {d : Int} {x y : Machine b} (h : Apart d x y) :
    opcodeAt PROGMEM x = opcodeAt PROGMEM y := by
  unfold opcodeAt
  rw [h.cpu, h.mem]

/-- **A named opcode keeps two activations together.** -/
theorem Apart.step {d : Int} {x y x' : Machine b} (h : Apart d x y) (hdoc : Documented PROGMEM x)
    (hx : instructionOn PROGMEM x = some x') :
    ∃ y', instructionOn PROGMEM y = some y' ∧ Apart d x' y' := by
  obtain ⟨i, hi⟩ := Option.isSome_iff_exists.mp hdoc
  have hatx : opcodeAt PROGMEM x = i.opcode := Ins.opcode_of_ofOpcode? hi
  have haty : opcodeAt PROGMEM y = i.opcode := (h.opcodeAt_eq PROGMEM).symm.trans hatx
  have hfetch : x.1.afterFetch.cpu = y.1.afterFetch.cpu := by
    unfold Clock.afterFetch
    rw [h.cpu]
  have hrel := execute_lockstep i x.1.afterFetch y.1.afterFetch hfetch
  obtain ⟨hsafe, rfl⟩ := (instructionOn_eq_some_iff PROGMEM).mp hx
  have hsafey : StepSafe PROGMEM y := by
    unfold StepSafe at hsafe ⊢
    rw [hatx] at hsafe
    rw [haty, ← h.mem]
    exact (hrel.safe x.2).mp hsafe
  refine ⟨_, (instructionOn_eq_some_iff PROGMEM).mpr ⟨hsafey, rfl⟩, ?_⟩
  obtain ⟨⟨hcpu, taken, crossed, hcx, hcy⟩, hmem⟩ := hrel.eval (t := busTotal PROGMEM) x.2
  rw [stepOf_at PROGMEM hatx, stepOf_at PROGMEM haty, ← h.mem]
  refine ⟨hcpu, hmem, ?_⟩
  have hvx := (congrArg Cycles.val hcx).trans (Cycles.subs_val _ _)
  have hvy := (congrArg Cycles.val hcy).trans (Cycles.subs_val _ _)
  have hsx : x.1.afterFetch.cycles.val = x.1.cycles.val - 1 := rfl
  have hsy : y.1.afterFetch.cycles.val = y.1.cycles.val - 1 := rfl
  have hc := h.cycles
  show _ = _ + d
  unfold executeOf
  dsimp only
  rw [hvx, hvy]
  omega

/-- The activation ahead is running while the one behind is. -/
theorem Apart.running {d : Int} (hd : d ≤ 0) {x y : Machine b} (h : Apart d x y)
    (hx : Running x) : Running y := by
  have hpos : 0 < x.1.cycles.val := hx
  have := h.cycles
  show 0 < y.1.cycles.val
  omega

/-- Two runs stay together for as long as the one behind goes on. -/
theorem Apart.iter {d : Int} (hd : d ≤ 0) {k : Nat} {x y x' : Machine b} (h : Apart d x y)
    (hdoc : ∀ z w, Reached PROGMEM x z → Reached PROGMEM y w → Apart d z w → Running z →
      Documented PROGMEM z)
    (hx : iter (round PROGMEM) k x = some x') :
    ∃ y', iter (round PROGMEM) k y = some y' ∧ Apart d x' y' := by
  induction k generalizing x y with
  | zero =>
    obtain rfl := Option.some.inj hx
    exact ⟨y, rfl, h⟩
  | succ k ih =>
    obtain ⟨z, hz, hx'⟩ := Option.bind_eq_some_iff.mp hx
    obtain ⟨hrun, hstep⟩ := (round_eq_some_iff PROGMEM).mp hz
    have hnamed := hdoc x y (.refl PROGMEM x) (.refl PROGMEM y) h hrun
    obtain ⟨w, hw, hzw⟩ := h.step PROGMEM hnamed hstep
    have hyw := (round_eq_some_iff PROGMEM).mpr ⟨h.running hd hrun, hw⟩
    obtain ⟨y', hy', hend⟩ := ih hzw
      (fun u v hu hv => hdoc u v (hu.head PROGMEM hz) (hv.head PROGMEM hyw)) hx'
    exact ⟨y', by rw [iter_succ, hyw, Option.bind_some, hy'], hend⟩

theorem Apart.stepSafe_iff {d : Int} {x y : Machine b} (h : Apart d x y)
    (hdoc : Documented PROGMEM x) : StepSafe PROGMEM x ↔ StepSafe PROGMEM y := by
  rw [← instructionOn_isSome, ← instructionOn_isSome, Option.isSome_iff_exists,
    Option.isSome_iff_exists]
  constructor
  · rintro ⟨x', hx⟩
    obtain ⟨y', hy, -⟩ := h.step PROGMEM hdoc hx
    exact ⟨y', hy⟩
  · rintro ⟨y', hy⟩
    have hdocy : Documented PROGMEM y := by
      unfold Documented at hdoc ⊢
      rw [← h.opcodeAt_eq PROGMEM]
      exact hdoc
    obtain ⟨x', hx, -⟩ := h.symm.step PROGMEM hdocy hy
    exact ⟨x', hx⟩

theorem Apart.documented_iff {d : Int} {x y : Machine b} (h : Apart d x y) :
    Documented PROGMEM x ↔ Documented PROGMEM y := by
  unfold Documented
  rw [h.opcodeAt_eq PROGMEM]

/-! ## Two calls -/

/-- Every instruction of the call is one the header names. -/
def RunsDocumented (cpu : Olc6502) (oops_cycle : Bool) (mem : Memory b) (n : Int) : Prop :=
  ∀ y, Reached PROGMEM (callStart cpu oops_cycle mem n) y → Running y → Documented PROGMEM y

/-- A call with a smaller budget ends in a state the longer one passes through. -/
theorem clockOn_prefix {cpu : Olc6502} {oops_cycle : Bool} {mem : Memory b} {m n : Int}
    (hmn : m ≤ n) (hdoc : RunsDocumented PROGMEM cpu oops_cycle mem n)
    (hsome : (clockOn PROGMEM cpu oops_cycle mem n).isSome) :
    ∃ l s, Reached PROGMEM (callStart cpu oops_cycle mem n) l ∧
      Reached PROGMEM (callStart cpu oops_cycle mem m) s ∧ ¬ Running s ∧ Apart (m - n) s l := by
  have hstart : Apart (m - n) (callStart cpu oops_cycle mem m) (callStart cpu oops_cycle mem n) :=
    ⟨rfl, rfl, by show m = n + (m - n); omega⟩
  have hd : m - n ≤ 0 := by omega
  have hdoc' : ∀ z w, Reached PROGMEM (callStart cpu oops_cycle mem m) z →
      Reached PROGMEM (callStart cpu oops_cycle mem n) w → Apart (m - n) z w → Running z →
      Documented PROGMEM z := by
    intro z w _ hw hzw hz
    exact (hzw.documented_iff PROGMEM).mpr (hdoc w hw (hzw.running hd hz))
  -- the shorter run stays inside the arrays because the longer one does
  obtain ⟨s, hs, hstop⟩ := exists_end PROGMEM (x := callStart cpu oops_cycle mem m) (by
    rintro z ⟨k, hk⟩ hz
    obtain ⟨w, hw, hzw⟩ := hstart.iter PROGMEM hd hdoc' hk
    have hwr : Reached PROGMEM (callStart cpu oops_cycle mem n) w := ⟨k, hw⟩
    exact (hzw.stepSafe_iff PROGMEM (hdoc' z w ⟨k, hk⟩ hwr hzw hz)).mpr
      ((clockOn_isSome_iff PROGMEM _ _ _ _).mp hsome w hwr (hzw.running hd hz)))
  obtain ⟨k, hk⟩ := hs
  obtain ⟨l, hl, hsl⟩ := hstart.iter PROGMEM hd hdoc' hk
  exact ⟨l, s, ⟨k, hl⟩, ⟨k, hk⟩, hstop, hsl⟩

/-- The rest of a run, as a call of its own on what is left of the budget. -/
theorem clockOn_rest {l y : Machine b} (hly : Reached PROGMEM l y) (hstop : ¬ Running y)
    (hdoc : ∀ z, Reached PROGMEM l z → Running z → Documented PROGMEM z) {cpu : Olc6502}
    (oops_cycle : Bool) (hcpu : l.1.cpu = cpu) :
    ∃ t, Apart 0 y t ∧
      clockOn PROGMEM cpu oops_cycle l.2 l.1.cycles.val = some (callResult l.1.cycles.val t) := by
  have hstart : Apart 0 l (callStart cpu oops_cycle l.2 l.1.cycles.val) :=
    ⟨hcpu, rfl, (Int.add_zero _).symm⟩
  obtain ⟨k, hk⟩ := hly
  obtain ⟨t, ht, hyt⟩ := hstart.iter PROGMEM (Int.le_refl 0) (fun z _ hz _ _ => hdoc z hz) hk
  refine ⟨t, hyt, (clockOn_eq_some_iff PROGMEM).mpr ⟨t, ⟨k, ht⟩, fun hrun => ?_, rfl⟩⟩
  exact hstop (hyt.symm.running (by omega) hrun)

/-- A state reached is on the way to the end of its run. -/
theorem reached_end {x y z : Machine b} (hz : Reached PROGMEM x z) (hy : Reached PROGMEM x y)
    (hstop : ¬ Running y) : Reached PROGMEM z y := by
  obtain ⟨j, hj⟩ := hz
  obtain ⟨k, hk⟩ := hy
  by_cases hjk : j ≤ k
  · exact ⟨k - j, iter_split hjk hj hk⟩
  · obtain ⟨-, rfl⟩ := iter_guarded_stop hstop (iter_split (Nat.le_of_not_le hjk) hk hj)
    exact .refl PROGMEM z

/-- A call with a budget of one cycle. -/
def callOne (r : ClockResult b) : Option (ClockResult b) :=
  clockOn PROGMEM r.cpu r.oopsCycle r.mem 1

/-- A budget of one cycle is one instruction. -/
theorem callOne_step {x x' : Machine b} (hdoc : Documented PROGMEM x)
    (hx : instructionOn PROGMEM x = some x') {z : ClockResult b} (hcpu : z.cpu = x.1.cpu)
    (hmem : z.mem = x.2) :
    ∃ z', callOne PROGMEM z = some z' ∧ z'.cpu = x'.1.cpu ∧ z'.mem = x'.2 := by
  have hstart : Apart (x.1.cycles.val - 1) x (callStart z.cpu z.oopsCycle z.mem 1) :=
    ⟨hcpu.symm, hmem.symm, by show _ = 1 + _; omega⟩
  obtain ⟨y', hy, hxy⟩ := hstart.step PROGMEM hdoc hx
  have hone : (callStart z.cpu z.oopsCycle z.mem 1).1.cycles.val = 1 := rfl
  have hcost := (instructionOn_cycles PROGMEM hy).2
  have hround := (round_eq_some_iff PROGMEM).mpr ⟨(by unfold Running; omega), hy⟩
  refine ⟨callResult 1 y', (clockOn_eq_some_iff PROGMEM).mpr ?_, hxy.cpu.symm, hxy.mem.symm⟩
  refine ⟨y', Reached.head PROGMEM hround (.refl PROGMEM y'), fun hrun => ?_, rfl⟩
  have hpos : 0 < y'.1.cycles.val := hrun
  omega

theorem callOne_iter {cpu : Olc6502} {oops_cycle : Bool} {mem : Memory b} {n : Int}
    (hdoc : RunsDocumented PROGMEM cpu oops_cycle mem n) {k : Nat} {y : Machine b}
    (hy : iter (round PROGMEM) k (callStart cpu oops_cycle mem n) = some y) :
    ∃ z, iter (callOne PROGMEM) k ⟨0, cpu, oops_cycle, mem⟩ = some z ∧
      z.cpu = y.1.cpu ∧ z.mem = y.2 := by
  induction k generalizing y with
  | zero =>
    obtain rfl := Option.some.inj hy
    exact ⟨_, rfl, rfl, rfl⟩
  | succ k ih =>
    obtain ⟨x, hx, hxy⟩ := iter_succ_last_iff.mp hy
    obtain ⟨hrun, hstep⟩ := (round_eq_some_iff PROGMEM).mp hxy
    obtain ⟨z, hz, hcpu, hmem⟩ := ih hx
    obtain ⟨z', hz', hend⟩ := callOne_step PROGMEM (hdoc x ⟨k, hx⟩ hrun) hstep hcpu hmem
    exact ⟨z', iter_succ_last_iff.mpr ⟨z, hz, hz'⟩, hend⟩

/-- **One call is two**: with budget `m`, and then with what the first leaves of `n`. **And it
    is as many as it runs instructions**, each with a budget of one. -/
theorem clockOn_batch (b : Build) (PROGMEM : Progmem) (cpu : Olc6502) (oops_cycle : Bool)
    (mem : Memory b) (m n : Int) (r : ClockResult b) (hm : 0 < m) (hmn : m ≤ n)
    (hn : n ≤ int32Max - 6) (hdoc : RunsDocumented PROGMEM cpu oops_cycle mem n)
    (hr : clockOn PROGMEM cpu oops_cycle mem n = some r) :
    (∃ r₁ r₂, clockOn PROGMEM cpu oops_cycle mem m = some r₁ ∧
      clockOn PROGMEM r₁.cpu r₁.oopsCycle r₁.mem (n - r₁.ret) = some r₂ ∧
      r₂.cpu = r.cpu ∧ r₂.mem = r.mem ∧ r₁.ret + r₂.ret = r.ret) ∧
    (∀ k y, iter (round PROGMEM) k (callStart cpu oops_cycle mem n) = some y →
      ∃ z, iter (callOne PROGMEM) k ⟨0, cpu, oops_cycle, mem⟩ = some z ∧
        z.cpu = y.1.cpu ∧ z.mem = y.2) := by
  constructor
  · obtain ⟨y, hy, hstop, rfl⟩ := (clockOn_eq_some_iff PROGMEM).mp hr
    obtain ⟨l, s, hl, hs, hstops, hsl⟩ := clockOn_prefix PROGMEM hmn hdoc (by rw [hr]; rfl)
    -- the rest starts with another `oops_cycle`, which no named opcode lets show
    obtain ⟨t, hyt, ht⟩ := clockOn_rest PROGMEM (reached_end PROGMEM hl hy hstop) hstop
      (fun z hz => hdoc z (hl.trans PROGMEM hz)) s.1.oopsCycle hsl.cpu.symm
    -- an instruction overdraws the counter by six at most, so nothing wraps
    have hslow : -6 ≤ s.1.cycles.val :=
      reached_cycles_ge PROGMEM (show -6 ≤ m by omega) hs
    have hylow : -6 ≤ y.1.cycles.val :=
      reached_cycles_ge PROGMEM (show -6 ≤ n by omega) hy
    have hs0 : s.1.cycles.val ≤ 0 := Int.not_lt.mp hstops
    have hy0 : y.1.cycles.val ≤ 0 := Int.not_lt.mp hstop
    have hcsl := hsl.cycles
    have hcyt := hyt.cycles
    have hret₁ : clockReturn m s.1.cycles.val = m - s.1.cycles.val :=
      clockReturn_eq (by omega) (by omega) hslow hs0
    have hret₂ : clockReturn l.1.cycles.val t.1.cycles.val = l.1.cycles.val - t.1.cycles.val :=
      clockReturn_eq (by omega) (by omega) (by omega) (by omega)
    have hret : clockReturn n y.1.cycles.val = n - y.1.cycles.val :=
      clockReturn_eq (by omega) hn hylow hy0
    have hleft : n - clockReturn m s.1.cycles.val = l.1.cycles.val := by omega
    refine ⟨callResult m s, callResult l.1.cycles.val t,
      (clockOn_eq_some_iff PROGMEM).mpr ⟨s, hs, hstops, rfl⟩, ?_, hyt.cpu.symm, hyt.mem.symm, ?_⟩
    · show clockOn PROGMEM s.1.cpu s.1.oopsCycle s.2 (n - clockReturn m s.1.cycles.val) = _
      rw [hleft, hsl.mem]
      exact ht
    · show clockReturn m _ + clockReturn _ _ = clockReturn n _
      omega
  · intro k y hy
    exact callOne_iter PROGMEM hdoc hy

/-- Nothing but `NOP`, in the memory array and in the program image. -/
def nopMemory : Memory ⟨false⟩ := ⟨fun _ => 0xEA⟩

def nopProgmem : Progmem := fun _ => 0xEA

theorem nop_at {y : Machine ⟨false⟩} (hy : y.2 = nopMemory) : At nopProgmem .nop y := by
  unfold At opcodeAt peek
  rw [hy]
  split <;> rfl

theorem nop_runsDocumented (cpu : Olc6502) (oops_cycle : Bool) (n : Int) :
    RunsDocumented nopProgmem cpu oops_cycle nopMemory n := by
  rintro y ⟨k, hk⟩ -
  have hmem : y.2 = nopMemory := by
    refine iter_invariant (I := fun z : Machine ⟨false⟩ => z.2 = nopMemory) ?_ rfl hk
    intro z w hz hw
    have hstep := ((round_eq_some_iff nopProgmem).mp hw).2
    obtain ⟨-, rfl⟩ := (instructionOn_eq_some_iff nopProgmem).mp hstep
    rw [stepOf_mem nopProgmem (nop_at hz)]
    exact hz
  have hat : opcodeAt nopProgmem y = Ins.nop.opcode := nop_at hmem
  unfold Documented
  rw [hat, Ins.ofOpcode?_opcode]
  rfl

/-- Two `NOP`s in one call of four cycles, and in two of two. -/
theorem clockOn_batch_nop :
    ∃ r, clockOn nopProgmem olc6502Init false nopMemory 4 = some r ∧
      ∃ r₁ r₂, clockOn nopProgmem olc6502Init false nopMemory 1 = some r₁ ∧
        clockOn nopProgmem r₁.cpu r₁.oopsCycle r₁.mem (4 - r₁.ret) = some r₂ ∧
        r₂.cpu = r.cpu ∧ r₂.mem = r.mem ∧ r₁.ret + r₂.ret = r.ret := by
  obtain ⟨r, hr⟩ : ∃ r, clockOn nopProgmem olc6502Init false nopMemory 4 = some r :=
    Option.isSome_iff_exists.mp (by decide)
  exact ⟨r, hr, (clockOn_batch ⟨false⟩ nopProgmem olc6502Init false nopMemory 1 4 r (by decide)
    (by decide) (by decide) (nop_runsDocumented _ _ _) hr).1⟩

end M6502
