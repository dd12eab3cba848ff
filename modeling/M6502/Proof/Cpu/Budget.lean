import Mathlib.Algebra.GroupWithZero.Nat
import M6502.Proof.Cpu.Lockstep
import M6502.Proof.Cpu.Step

/-!
# The cycle budget

Every opcode byte, named or not and whatever the bus answers, costs between one and seven
cycles (`instruction_cost`): one for the fetch, and at most six after it. So the counter
falls with every round of the loop, ends at most six below zero, and a budget of `n`
cycles is at most `n` instructions.
-/

set_option autoImplicit false

namespace M6502

open Lib Cpu

/-! ## One instruction -/

theorem Cycles.subs_val (c : Cycles) (ks : List Nat) : (c.subs ks).val = c.val - ks.sum := by
  induction ks generalizing c with
  | nil => exact (Int.sub_zero _).symm
  | cons k ks ih =>
    show ((c.sub k).subs ks).val = _
    rw [ih, List.sum_cons]
    show c.val - k - _ = _
    omega

/-- The partial sums are the larger values, so if the last one is in range they all are. -/
theorem Cycles.subs_overflow {c : Cycles} (ks : List Nat) (hc : c.overflow = false)
    (h : int32Min ≤ c.val - ks.sum) : (c.subs ks).overflow = false := by
  induction ks generalizing c with
  | nil => exact hc
  | cons k ks ih =>
    rw [List.sum_cons] at h
    show ((c.sub k).subs ks).overflow = false
    refine ih ?_ ?_
    · show (c.overflow || decide (c.val - k < int32Min)) = false
      rw [hc, Bool.false_or]
      exact decide_eq_false (by omega)
    · show int32Min ≤ c.val - k - _
      omega

theorem Ins.ticks_sum_le (i : Ins) (taken crossed : Bool) : (i.ticks taken crossed).sum ≤ 6 := by
  have hall : ∀ i ∈ Ins.all, ∀ taken crossed : Bool, (i.ticks taken crossed).sum ≤ 6 := by
    decide +kernel
  exact hall i i.mem_all taken crossed

/-- At most six cycles have been subtracted since `s`. -/
def Spent (s : Clock) (r : Unit × Clock) : Prop :=
  ∃ ks : List Nat, ks.sum ≤ 6 ∧ r.2.cycles = s.cycles.subs ks

theorem execute_spent (opcode : U8) (s : Clock) : (execute opcode s).All (Spent s) := by
  cases hn : Ins.ofOpcode? opcode with
  | some i =>
    rw [Ins.opcode_of_ofOpcode? hn]
    refine (execute_lockstep i s s rfl).all_left ?_
    rintro r r' ⟨-, taken, crossed, hr, -⟩
    exact ⟨i.ticks taken crossed, i.ticks_sum_le taken crossed, hr⟩
  | none =>
    rw [execute_undefined hn]
    unfold undefinedGroup
    split
    · rename_i hop
      show (shiftGroup _ _ s).All _
      rw [shiftHole_eq hop]
      intro _
      refine ⟨[if fieldBbb opcode < 4 then 3 else 4], ?_, rfl⟩
      rw [List.sum_singleton]
      split <;> omega
    split
    · rename_i hop
      show (incDecGroup _ _ s).All _
      rw [incDecHole_eq hop]
      intro _
      exact ⟨[], Nat.zero_le _, rfl⟩
    · exact ⟨[], Nat.zero_le _, rfl⟩

/-- **An instruction costs one to seven cycles**, whatever its bytes. -/
theorem instruction_cost (s : Clock) :
    (instruction s).All fun r =>
      s.cycles.val - 7 ≤ r.2.cycles.val ∧ r.2.cycles.val ≤ s.cycles.val - 1 ∧
        (s.cycles.overflow = false → int32Min ≤ s.cycles.val - 7 →
          r.2.cycles.overflow = false) := by
  rw [instruction_eq]
  intro opcode
  refine (execute_spent opcode s.afterFetch).mono ?_
  rintro r ⟨ks, hks, hr⟩
  have hsubs : r.2.cycles = s.cycles.subs (1 :: ks) := hr
  have hsum : (1 :: ks).sum = 1 + ks.sum := List.sum_cons
  rw [hsubs, Cycles.subs_val, hsum]
  refine ⟨by omega, by omega, fun ho hmin => ?_⟩
  exact Cycles.subs_overflow _ ho (by omega)

/-! ## The loop -/

/-- The counter at the end of a loop given enough fuel. -/
def Ended (s : Clock) : Prop :=
  -6 ≤ s.cycles.val ∧ s.cycles.val ≤ 0 ∧ s.cycles.overflow = false

theorem clockLoop_ended {n : Nat} {s : Clock} (hlow : -6 ≤ s.cycles.val)
    (hn : s.cycles.val ≤ n) (ho : s.cycles.overflow = false) :
    (clockLoop n s).All fun r => Ended r.2 := by
  induction n generalizing s with
  | zero => exact ⟨hlow, by omega, ho⟩
  | succ n ih =>
    rw [clockLoop_succ]
    by_cases hc : 0 < s.cycles.val
    · rw [if_pos hc, Prog.all_bind]
      refine (instruction_cost s).mono ?_
      rintro r ⟨hge, hle, hover⟩
      refine ih (by omega) (by omega) (hover ho ?_)
      unfold int32Min
      omega
    · rw [if_neg hc]
      exact ⟨hlow, Int.not_lt.mp hc, ho⟩

/-- Fuel beyond the counter is not used. -/
theorem clockLoop_fuel {n m : Nat} {s : Clock} (hn : s.cycles.val ≤ n) (hm : n ≤ m) :
    clockLoop m s = clockLoop n s := by
  induction n generalizing s m with
  | zero =>
    cases m with
    | zero => rfl
    | succ m =>
      rw [clockLoop_succ, if_neg (by omega)]
      rfl
  | succ n ih =>
    obtain ⟨m, rfl⟩ : ∃ k, m = k + 1 := ⟨m - 1, by omega⟩
    rw [clockLoop_succ, clockLoop_succ]
    by_cases hc : 0 < s.cycles.val
    · rw [if_pos hc, if_pos hc]
      refine Prog.bind_congr (instruction_cost s) ?_
      rintro r ⟨-, hle, -⟩
      exact ih (by omega) (by omega)
    · rw [if_neg hc, if_neg hc]

/-- The unsigned difference, read as a signed one, is the difference. -/
theorem clockReturn_eq {n c : Int} (h0 : -6 ≤ n) (hn : n ≤ int32Max - 6) (hlow : -6 ≤ c)
    (hc : c ≤ 0) : clockReturn n c = n - c := by
  unfold int32Max at hn
  have hnat : ((2 ^ 32 : Nat) : Int) = 4294967296 := rfl
  unfold clockReturn
  rw [BitVec.toInt_sub, BitVec.toInt_ofInt, BitVec.toInt_ofInt,
    Int.bmod_eq_of_le (n := n) (by omega) (by omega),
    Int.bmod_eq_of_le (n := c) (by omega) (by omega), Int.bmod_eq_of_le (by omega) (by omega)]

theorem clockReturn_self (n : Int) : clockReturn n n = 0 := by
  unfold clockReturn
  rw [BitVec.sub_self]
  rfl

/-- **`olc6502_clock` keeps its budget.** For `n ≤ 0` it is done at once. For `n > 0`, whatever
    every read is answered, `n` instructions are enough, and it returns between `n` and
    `n + 6`; no subtraction from the counter leaves the range of `int32_t`. -/
theorem olc6502Clock_budget (cpu : Olc6502) (oops_cycle : Bool) (n : Int)
    (hn : n ≤ int32Max - 6) :
    (n ≤ 0 → olc6502Clock cpu oops_cycle n = .ret (0, clockStart cpu oops_cycle n)) ∧
    (0 < n → (olc6502Clock cpu oops_cycle n).All fun r => n ≤ r.1 ∧ r.1 ≤ n + 6 ∧ Ended r.2) ∧
    (∀ fuel, n.toNat ≤ fuel →
      clockLoop fuel (clockStart cpu oops_cycle n) =
        clockLoop n.toNat (clockStart cpu oops_cycle n)) := by
  refine ⟨fun h => ?_, fun h => ?_, fun fuel hfuel => ?_⟩
  · unfold olc6502Clock
    rw [Int.toNat_of_nonpos h]
    show Prog.ret (clockReturn n n, _) = _
    rw [clockReturn_self]
  · unfold olc6502Clock
    rw [Prog.all_bind]
    refine (clockLoop_ended (s := clockStart cpu oops_cycle n) ?_ ?_ rfl).mono ?_
    · show -6 ≤ n
      omega
    · show n ≤ n.toNat
      omega
    · rintro r ⟨hlow, hc, ho⟩
      show n ≤ clockReturn n r.2.cycles.val ∧ clockReturn n r.2.cycles.val ≤ n + 6 ∧ _
      rw [clockReturn_eq (by omega) hn hlow hc]
      exact ⟨by omega, by omega, hlow, hc, ho⟩
  · exact clockLoop_fuel (show n ≤ n.toNat by omega) hfuel

/-- A budget of one cycle runs one instruction, and returns at least one. -/
theorem olc6502Clock_budget_one :
    (olc6502Clock olc6502Init false 1).All fun r => 1 ≤ r.1 ∧ r.1 ≤ 1 + 6 ∧ Ended r.2 :=
  (olc6502Clock_budget olc6502Init false 1 (by decide)).2.1 (by decide)

end M6502
