import M6502.Proof.Cpu.Dispatch

/-!
# A named instruction reads nothing but the CPU

`addr`, `fetched` and `temp` survive from one instruction to the next inside a call,
`oops_cycle` from one call to the next, and the cycle counter is whatever the budget left.
`execute_lockstep` says none of it matters to the 151 named opcodes: from two activations
with the same CPU they perform the same bus operations whatever the answers, end with the
same CPU, and spend the same cycles.

What they spend is `Ins.ticks`, the amounts in the order the code subtracts them.
-/

set_option autoImplicit false

namespace M6502

open Lib Cpu

/-- `cycles -= k` for each `k` of a list in turn. -/
def Cycles.subs (c : Cycles) (ks : List Nat) : Cycles := ks.foldl Cycles.sub c

/-- What an instruction subtracts after its opcode fetch. `crossed` is the page test of its
    indexed address or branch target, `taken` whether a branch is taken. -/
def Ins.ticks (taken crossed : Bool) : Ins → List Nat
  | .ldaIm | .ldxIm | .ldyIm | .andIm | .oraIm | .eorIm | .adcIm | .sbcIm | .cmpIm | .ldaZp => [1]
  | .ldxZp | .ldyZp | .andZp | .oraZp | .eorZp | .bitZp | .adcZp | .sbcZp | .cmpZp | .cpxZp
  | .cpyZp | .staZp | .stxZp | .styZp | .adcZpx | .sbcZpx | .cmpZpx => [1, 1]
  | .ldaZpx | .ldxZpy | .ldyZpx | .andZpx | .oraZpx | .eorZpx | .staZpx | .stxZpy | .styZpx
  | .ldaIndx | .andIndx | .oraIndx | .eorIndx | .adcIndx | .sbcIndx | .cmpIndx | .staIndx
  | .cpxIm | .cpyIm => [1, 2]
  | .ldaAbs | .ldxAbs | .ldyAbs | .andAbs | .oraAbs | .eorAbs | .bitAbs | .adcAbs | .sbcAbs
  | .cmpAbs | .cpxAbs | .cpyAbs | .staAbs | .stxAbs | .styAbs => [2, 1]
  | .ldaAbsx | .ldaAbsy | .ldxAbsy | .ldyAbsx | .andAbsx | .andAbsy | .oraAbsx | .oraAbsy
  | .eorAbsx | .eorAbsy | .adcAbsx | .adcAbsy | .sbcAbsx | .sbcAbsy | .cmpAbsx | .cmpAbsy =>
    [2, if crossed then 2 else 1]
  | .ldaIndy | .andIndy | .oraIndy | .eorIndy | .adcIndy | .sbcIndy | .cmpIndy =>
    [1, 2, if crossed then 2 else 1]
  | .staAbsx | .staAbsy | .jmpInd => [2, 2]
  | .staIndy => [1, 2, 2]
  | .tax | .tay | .txa | .tya | .inx | .iny | .dex | .dey | .aslA | .lsrA | .rolA | .rorA
  | .txs | .tsx | .nop | .clc | .sec | .cld | .sed | .cli | .sei | .clv => [1]
  | .aslZp | .lsrZp | .rolZp | .rorZp | .decZp | .incZp => [1, 3]
  | .aslZpx | .lsrZpx | .rolZpx | .rorZpx | .decZpx | .incZpx => [1, 4]
  | .aslAbs | .lsrAbs | .rolAbs | .rorAbs | .decAbs | .incAbs => [2, 3]
  | .aslAbsx | .lsrAbsx | .rolAbsx | .rorAbsx | .decAbsx | .incAbsx => [2, 4]
  | .jmpAbs | .pha | .php => [2]
  | .pla | .plp => [3]
  | .jsr => [2, 1, 1, 1]
  | .rts => [1, 1, 3]
  | .brk => [1, 1, 1, 1, 2]
  | .rti => [1, 2, 1, 1]
  | .beq | .bne | .bcs | .bcc | .bmi | .bpl | .bvc | .bvs =>
    if taken then [1, if crossed then 2 else 1] else [1]

/-! ## Lockstep -/

/-- Same CPU, and the same amounts subtracted since `s` and `t`. -/
def SameStep (i : Ins) (s t : Clock) (r r' : Unit × Clock) : Prop :=
  r.2.cpu = r'.2.cpu ∧ ∃ taken crossed,
    r.2.cycles = s.cycles.subs (i.ticks taken crossed) ∧
      r'.2.cycles = t.cycles.subs (i.ticks taken crossed)

theorem branch_lockstep {i : Ins} (hb : i.group = .branch) (s t : Clock) (h : s.cpu = t.cpu) :
    Prog.Rel (SameStep i s t) (branchGroup (fieldAaa i.opcode) s)
      (branchGroup (fieldAaa i.opcode) t) := by
  have hticks : ∀ taken crossed, i.ticks taken crossed =
      if taken then [1, if crossed then 2 else 1] else [1] := by
    cases i <;> first | exact fun _ _ => rfl | cases hb
  rw [branchGroup_eq, branchGroup_eq, ← h]
  refine .call fun offset => .ret ?_
  unfold branchResult
  rw [← h]
  cases hs : shouldBranch (fieldAaa i.opcode) s.cpu.PS with
  | true => exact ⟨by rfl, true, _, by rw [hticks]; rfl, by rw [hticks]; rfl⟩
  | false => exact ⟨by rfl, false, false, by rw [hticks]; rfl, by rw [hticks]; rfl⟩

theorem execute_lockstep (i : Ins) (s t : Clock) (h : s.cpu = t.cpu) :
    Prog.Rel (SameStep i s t) (execute i.opcode s) (execute i.opcode t) := by
  by_cases hb : i.group = .branch
  · rw [execute_branch hb]
    exact branch_lockstep hb s t h
  · rw [execute_opcode]
    obtain ⟨cpu, cycles, oops, addr, fetched, temp⟩ := s
    obtain ⟨cpu', cycles', oops', addr', fetched', temp'⟩ := t
    obtain rfl : cpu = cpu' := h
    cases i
    all_goals first
      | cases hb rfl
      -- where a page test decides the last tick, both sides make the same one
      | (repeat (refine Prog.Rel.call fun _ => ?_)
         first
           | exact Prog.Rel.ret ⟨rfl, false, false, rfl, rfl⟩
           | exact Prog.Rel.ret ⟨rfl, false, _, rfl, rfl⟩)

end M6502
