import M6502.Lib.Shared
import M6502.Proof.Cpu.Step

/-!
# CPUs that share the page-cross flag

`oops_cycle` is a global of the program. The addressing helpers set it, a taken branch leaves
it set, and some twenty places read it: always, whatever the opcode, after the same
instruction has written it. So from two activations that differ in the flag alone an
instruction does the same, and leaves activations that differ in the flag at most
(`execute_oops`); over the loop, a call is `Op.Blind` to the flag.
-/

set_option autoImplicit false

namespace M6502

open Lib Cpu

variable {b : Build} (PROGMEM : Progmem)

/-- The activation with another value of the global. -/
def Clock.withOops (s : Clock) (o : Bool) : Clock := { s with oopsCycle := o }

/-- The two results differ in the global at most. -/
def SameButOops (r r' : Unit × Clock) : Prop := ∃ o, r'.2 = r.2.withOops o

/-! ## One instruction -/

theorem branchResult_oops (aaa : U8) (s : Clock) (o : Bool) (offset : U8) :
    SameButOops ((), branchResult aaa s offset) ((), branchResult aaa (s.withOops o) offset) := by
  cases hs : shouldBranch aaa s.cpu.PS with
  | true =>
    -- a taken branch sets the flag before it tests it, one not taken does neither
    refine ⟨true, ?_⟩
    simp only [branchResult, Clock.withOops, hs, if_true]
    rfl
  | false =>
    refine ⟨o, ?_⟩
    simp only [branchResult, Clock.withOops, hs, Bool.false_eq_true, if_false]

theorem holeResult_oops (opcode : U8) (s : Clock) (o : Bool) :
    SameButOops ((), holeResult opcode s) ((), holeResult opcode (s.withOops o)) := by
  unfold holeResult
  split <;> exact ⟨o, rfl⟩

/-- **No opcode, named or not, lets the flag it finds show.** -/
theorem execute_oops (opcode : U8) (s : Clock) (o : Bool) :
    Prog.Rel SameButOops (execute opcode s) (execute opcode (s.withOops o)) := by
  cases hop : Ins.ofOpcode? opcode with
  | none =>
    by_cases hh : opcode ∈ holes
    · rw [execute_hole hop hh, execute_hole hop hh]
      exact .call fun _ => .ret (holeResult_oops opcode s o)
    · rw [execute_inert hop hh, execute_inert hop hh]
      exact .ret ⟨o, rfl⟩
  | some i =>
    obtain rfl := Ins.opcode_of_ofOpcode? hop
    by_cases hb : i.group = .branch
    · rw [execute_branch hb, branchGroup_eq, branchGroup_eq]
      exact .call fun offset => .ret (branchResult_oops _ s o offset)
    · rw [execute_opcode]
      cases i
      -- an opcode that tests the flag sets it before, so both sides compute the same
      all_goals first
        | exact absurd rfl hb
        | (repeat (refine Prog.Rel.call fun _ => ?_)
           exact Prog.Rel.ret ⟨_, rfl⟩)

/-! ## A call -/

theorem clockLoop_oops (n : Nat) (s : Clock) (o : Bool) :
    Prog.Rel SameButOops (clockLoop n s) (clockLoop n (s.withOops o)) := by
  induction n generalizing s o with
  | zero => exact .ret ⟨o, rfl⟩
  | succ n ih =>
    rw [clockLoop_succ, clockLoop_succ]
    by_cases hrun : 0 < s.cycles.val
    · rw [if_pos hrun, if_pos (show 0 < (s.withOops o).cycles.val from hrun)]
      have hinstruction : Prog.Rel SameButOops (instruction s) (instruction (s.withOops o)) :=
        .call fun opcode => execute_oops opcode s.afterFetch o
      refine hinstruction.bind fun r r' ⟨o', hr⟩ => ?_
      rw [hr]
      exact ih r.2 o'
    · rw [if_neg hrun, if_neg (show ¬ 0 < (s.withOops o).cycles.val from hrun)]
      exact .ret ⟨o, rfl⟩

/-- **Calls are blind to the global.** -/
theorem callOn_blind : Op.Blind (callOn (b := b) PROGMEM) := by
  intro call device g g'
  cases call with
  | reset cycles =>
    unfold callOn
    rw [Option.map_map, Option.map_map]
    rfl
  | clock cycles =>
    have hcall : Prog.Rel (fun r r' => r.1 = r'.1 ∧ r.2.cpu = r'.2.cpu)
        (olc6502Clock device.1 g cycles) (olc6502Clock device.1 g' cycles) := by
      refine (clockLoop_oops cycles.toNat (clockStart device.1 g cycles) g').bind ?_
      rintro r r' ⟨o, hr⟩
      rw [hr]
      exact .ret ⟨rfl, rfl⟩
    have hrun := hcall.run_map (h := bus PROGMEM)
      (f := fun r => (r.1, r.2.cpu)) (g := fun r => (r.1, r.2.cpu))
      (fun r r' ⟨hret, hcpu⟩ => by rw [hret, hcpu]) device.2
    have hanswer := congrArg
      (Option.map fun q : (Int × Olc6502) × Memory b => (Answer.consumed q.1.1, q.1.2, q.2)) hrun
    simp only [Option.map_map] at hanswer
    unfold callOn clockOn
    simp only [Option.map_map]
    exact hanswer

/-- **CPUs do not interfere**: in every interleaving of calls on instances of their own
    memories, each instance ends, and is answered, as if its calls had been the only ones,
    whatever `oops_cycle` held. -/
theorem cpus_independent {ι : Type} [DecidableEq ι] (b : Build) (PROGMEM : Progmem)
    {calls : List (ι × Call)} {devices devices' : ι → Olc6502 × Memory b} {oops_cycle : Bool}
    {answers : List (ι × Answer)}
    (h : interleaved (callOn PROGMEM) calls devices oops_cycle = some (answers, devices'))
    (i : ι) (oops_cycle' : Bool) :
    alone (callOn PROGMEM) (own i calls) (devices i) oops_cycle' =
      some (own i answers, devices' i) :=
  interleaved_alone (callOn_blind PROGMEM) h i oops_cycle'

/-- `LDA $80FF,X` at the reset vector's target. -/
def pagePROGMEM : Progmem := fun i =>
  if i.val = 0 then 0xBD else if i.val = 1 then 0xFF else if i.val = 0x7FFD then 0x80 else 0x80

/-- Two CPUs that load with it, one of them across a page. -/
def pageDevices (crosses : Bool) : Olc6502 × Memory ⟨false⟩ :=
  ({ olc6502Init with PC := 0x8000, X := if crosses then 1 else 0 }, ⟨fun _ => 0⟩)

def pageCalls : List (Bool × Call) :=
  [(true, .clock 5), (false, .clock 4), (true, .reset ⟨7, false⟩), (false, .clock 1)]

theorem cpus_independent_page :
    ∃ answers devices',
      interleaved (callOn pagePROGMEM) pageCalls pageDevices false = some (answers, devices') ∧
      alone (callOn pagePROGMEM) (own false pageCalls) (pageDevices false) true =
        some (own false answers, devices' false) := by
  have hsome : (interleaved (callOn pagePROGMEM) pageCalls pageDevices false).isSome = true := by
    decide +kernel
  obtain ⟨⟨answers, devices'⟩, hrun⟩ := Option.isSome_iff_exists.mp hsome
  exact ⟨answers, devices', hrun, cpus_independent ⟨false⟩ pagePROGMEM hrun false true⟩

end M6502
