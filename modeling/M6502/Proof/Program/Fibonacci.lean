import Mathlib.Data.Nat.Fib.Basic
import M6502.Program
import M6502.Proof.Host.RunToEnd
import M6502.Proof.Isa.Code
import M6502.Proof.Isa.Flawed

/-!
# What the program in the image computes

The loop adds up Fibonacci numbers in the cells 0 and 1 as long as they fit a byte (`loop_runs`).
It is entered with `$0D - $03` in `Y`, which is ten on the 6502 without its decimal mode: that
ends at the `BRK`, with 144 (`manual_fibonacci`). On the code `SBC` leaves one more, so it ends at
the IRQ address with the 233 the program asks for, and `run` returns (`run_fibonacci`).
-/

set_option autoImplicit false

namespace M6502

open Lib Cpu Isa

namespace Fibonacci

variable {b : Build}

/-! ## The two cells -/

/-- The cells 0 and 1 hold `u` and `v`, and no other byte differs. -/
structure Cells (mem₀ : Memory b) (u v : Nat) (mem : Memory b) : Prop where
  first : peek program mem 0x0000 = .ofNat 8 u
  second : peek program mem 0x0001 = .ofNat 8 v
  kept : ∀ a : U16, cellIndex b a ≠ 0 → cellIndex b a ≠ 1 →
    peek program mem a = peek program mem₀ a

theorem cellIndex_zero : cellIndex b 0x0000 = 0 := rfl
theorem cellIndex_one : cellIndex b 0x0001 = 1 := rfl

attribute [local irreducible] storeByte

variable {mem₀ mem : Memory b}

theorem Cells.store (h : ∀ a : U16, cellIndex b a ≠ 0 → cellIndex b a ≠ 1 →
    peek program mem a = peek program mem₀ a) (u v : Nat) :
    Cells mem₀ u v (storeByte (storeByte mem 0x0001 (.ofNat 8 v)) 0x0000 (.ofNat 8 u)) := by
  have hzero : (0x0000 : U16).toNat < 0x8000 := by decide
  have hone : (0x0001 : U16).toNat < 0x8000 := by decide
  have hne : cellIndex b 0x0001 ≠ cellIndex b 0x0000 := by
    rw [cellIndex_zero, cellIndex_one]
    decide
  refine ⟨peek_storeByte_same _ _ hzero, ?_, fun a ha ha' => ?_⟩
  · rw [peek_storeByte_of_ne _ _ hzero hne, peek_storeByte_same _ _ hone]
  · rw [peek_storeByte_of_ne _ _ hzero ha, peek_storeByte_of_ne _ _ hone ha', h a ha ha']

/-! ## The loop -/

section Rules

variable {G : Line → State (Memory b) → Prop} (hcode : RomCode b program G code)
  {Q : Run (Memory b) → Prop} {A X Y SP : U8} {P : Status} {ws : List (U16 × U8)}
include hcode

/-- **A round of the loop**, on the Fibonacci numbers `k` and `k + 1`. -/
theorem round {k : Nat} (last : Bool) (hY : (Y - 1 == 0) = last) (hC : P.C = false)
    (hfib : Nat.fib (k + 1) < 256) (hcells : Cells mem₀ (Nat.fib k) (Nat.fib (k + 1)) mem)
    (h : ∀ P' mem' ws', P'.C = decide (256 ≤ Nat.fib (k + 2)) →
      Cells mem₀ (Nat.fib (k + 1)) (Nat.fib (k + 2)) mem' → Arrives ((busSpace program b).Step G) Q
        ⟨⟨⟨.ofNat 8 (Nat.fib (k + 2)), .ofNat 8 (Nat.fib (k + 1)), Y - 1, SP, P',
          bif last then compare else loop⟩, mem'⟩, ws'⟩) :
    Arrives ((busSpace program b).Step G) Q
      ⟨⟨⟨.ofNat 8 (Nat.fib (k + 1)), X, Y, SP, P, loop⟩, mem⟩, ws⟩ := by
  have hle : Nat.fib k ≤ Nat.fib (k + 1) := Nat.fib_le_fib_succ
  have hsum : (BitVec.ofNat 8 (Nat.fib (k + 1)) : U8).toNat + (peek program mem 0x0000).toNat +
      P.C.toNat = Nat.fib (k + 2) := by
    rw [hC, hcells.first, BitVec.toNat_ofNat, BitVec.toNat_ofNat, Nat.fib_add_two,
      Nat.mod_eq_of_lt (by omega), Nat.mod_eq_of_lt (by omega)]
    show Nat.fib (k + 1) + Nat.fib k + 0 = _
    omega
  have hend : ∀ (S : Nat) (v : U8), S = Nat.fib (k + 2) → v = .ofNat 8 (Nat.fib (k + 1)) →
      ∀ (P' : Status) ws', P'.C = decide (256 ≤ S) → Arrives ((busSpace program b).Step G) Q
        ⟨⟨⟨.ofNat 8 S, v, Y - 1, SP, P', bif last then compare else loop⟩,
          storeByte (storeByte mem 0x0001 (.ofNat 8 S)) 0x0000 v⟩, ws'⟩ := by
    rintro S v rfl rfl P' ws' hC'
    exact h P' _ ws' hC' (.store hcells.kept _ _)
  refine hcode.quiet loop rfl (.zp .ldx 0x01) ⟨mem_listing rfl, rfl⟩ nofun rfl ?_
  refine hcode.quiet 0x8012 rfl (.zp .adc 0x00) ⟨mem_listing rfl, rfl⟩ nofun rfl ?_
  refine hcode.line 0x8014 rfl (.zp .sta 0x01) ⟨mem_listing rfl, rfl⟩
    (fun _ _ => show (0x0001 : U16).toNat < 0x8000 by decide) ?_
  refine hcode.line 0x8016 rfl (.zp .stx 0x00) ⟨mem_listing rfl, rfl⟩
    (fun _ _ => show (0x0000 : U16).toNat < 0x8000 by decide) ?_
  refine hcode.quiet 0x8018 rfl (.imp .dey) ⟨mem_listing rfl, rfl⟩ nofun rfl ?_
  cases last with
  | false =>
    refine hcode.taken 0x8019 rfl .bne loop (mem_listing rfl) rfl (congrArg not hY) ?_
    exact hend _ _ hsum hcells.second _ _ rfl
  | true =>
    refine hcode.passed 0x8019 rfl .bne loop (mem_listing rfl) rfl (congrArg not hY) ?_
    exact hend _ _ hsum hcells.second _ _ rfl

/-- **The loop**, `m` rounds of it. -/
theorem loop_runs {m k : Nat} (hm : 0 < m) (hfib : Nat.fib (k + m) < 256) (hm' : m < 256)
    (hC : P.C = false) (hcells : Cells mem₀ (Nat.fib k) (Nat.fib (k + 1)) mem)
    (h : ∀ A' P' mem' ws', Cells mem₀ (Nat.fib (k + m)) (Nat.fib (k + m + 1)) mem' →
      Arrives ((busSpace program b).Step G) Q
        ⟨⟨⟨A', .ofNat 8 (Nat.fib (k + m)), 0, SP, P', compare⟩, mem'⟩, ws'⟩) :
    Arrives ((busSpace program b).Step G) Q
      ⟨⟨⟨.ofNat 8 (Nat.fib (k + 1)), X, .ofNat 8 m, SP, P, loop⟩, mem⟩, ws⟩ := by
  induction m generalizing k X P mem ws with
  | zero => exact absurd hm (Nat.lt_irrefl 0)
  | succ m ih =>
    have hsub : (BitVec.ofNat 8 (m + 1) - 1 : U8) = .ofNat 8 m := by
      rw [BitVec.ofNat_add]
      exact BitVec.add_sub_cancel _ 1
    have hmono : Nat.fib (k + 1) ≤ Nat.fib (k + (m + 1)) := Nat.fib_mono (by omega)
    cases m with
    | zero =>
      refine round hcode true rfl hC (by omega) hcells fun P' mem' ws' _ hcells' => ?_
      exact h _ P' mem' ws' hcells'
    | succ m =>
      have hY : (BitVec.ofNat 8 (m + 1 + 1) - 1 == (0 : U8)) = false := by
        rw [hsub]
        exact beq_eq_false_iff_ne.mpr (by bv_omega)
      have hmono' : Nat.fib (k + 2) ≤ Nat.fib (k + (m + 1 + 1)) := Nat.fib_mono (by omega)
      refine round hcode false hY hC (by omega) hcells fun P' mem' ws' hC' hcells' => ?_
      rw [hsub]
      have hshift : k + (m + 1 + 1) = k + 1 + (m + 1) := by omega
      rw [hshift] at hfib h hmono'
      refine ih (Nat.succ_pos m) hfib (by omega) ?_ hcells' h
      rw [hC']
      exact decide_eq_false (by omega)

/-- Up to the subtraction. -/
theorem before_runs (h : ∀ P' ws', P'.C = true → Arrives ((busSpace program b).Step G) Q
      ⟨⟨⟨0x0D, 0x01, 0x0D, SP, P', 0x8008⟩, storeByte mem 0x0000 0x01⟩, ws'⟩) :
    Arrives ((busSpace program b).Step G) Q ⟨⟨⟨A, X, Y, SP, P, start⟩, mem⟩, ws⟩ := by
  refine hcode.quiet start rfl (.imm .ldx 0x01) ⟨mem_listing rfl, rfl⟩ nofun rfl ?_
  refine hcode.line 0x8002 rfl (.zp .stx 0x00) ⟨mem_listing rfl, rfl⟩
    (fun _ _ => show (0x0000 : U16).toNat < 0x8000 by decide) ?_
  refine hcode.quiet 0x8004 rfl (.imp .sec) ⟨mem_listing rfl, rfl⟩ nofun rfl ?_
  refine hcode.quiet 0x8005 rfl (.imm .ldy 0x0D) ⟨mem_listing rfl, rfl⟩ nofun rfl ?_
  refine hcode.quiet 0x8007 rfl (.imp .tya) ⟨mem_listing rfl, rfl⟩ nofun rfl ?_
  exact h _ _ rfl

/-- **From the subtraction on**: with the difference `m` the loop is left with Fibonacci number
    `m + 2`. -/
theorem after_runs {m : Nat} (hm : 0 < m) (hfib : Nat.fib (2 + m) < 256) (hm' : m < 256)
    (h : ∀ A' P' mem' ws', Cells mem (Nat.fib (2 + m)) (Nat.fib (2 + m + 1)) mem' →
      Arrives ((busSpace program b).Step G) Q
        ⟨⟨⟨A', .ofNat 8 (Nat.fib (2 + m)), 0, SP, P', compare⟩, mem'⟩, ws'⟩) :
    Arrives ((busSpace program b).Step G) Q
      ⟨⟨⟨.ofNat 8 m, X, Y, SP, P, 0x800A⟩, storeByte mem 0x0000 0x01⟩, ws⟩ := by
  have hzero : (0x0000 : U16).toNat < 0x8000 := by decide
  have hone : (0x0001 : U16).toNat < 0x8000 := by decide
  have hne : cellIndex b 0x0000 ≠ cellIndex b 0x0001 := by
    rw [cellIndex_zero, cellIndex_one]
    decide
  have hcells : Cells mem (Nat.fib 2) (Nat.fib 3)
      (storeByte (storeByte mem 0x0000 0x01) 0x0001 0x02) := by
    refine ⟨?_, peek_storeByte_same _ _ hone, fun a ha ha' => ?_⟩
    · exact (peek_storeByte_of_ne _ _ hone hne).trans (peek_storeByte_same _ _ hzero)
    · exact (peek_storeByte_of_ne _ _ hone ha').trans (peek_storeByte_of_ne _ _ hzero ha)
  refine hcode.quiet 0x800A rfl (.imp .tay) ⟨mem_listing rfl, rfl⟩ nofun rfl ?_
  refine hcode.quiet 0x800B rfl (.imp .clc) ⟨mem_listing rfl, rfl⟩ nofun rfl ?_
  refine hcode.quiet 0x800C rfl (.imm .lda 0x02) ⟨mem_listing rfl, rfl⟩ nofun rfl ?_
  refine hcode.line 0x800E rfl (.zp .sta 0x01) ⟨mem_listing rfl, rfl⟩ (fun _ _ => hone) ?_
  exact loop_runs hcode hm hfib hm' rfl hcells h

/-- **The comparison.** -/
theorem compare_runs
    (hirq : X = 0xE9 → ∀ P', Arrives ((busSpace program b).Step G) Q
      ⟨⟨⟨X, X, Y, SP, P', irq⟩, mem⟩, ws⟩)
    (hbrk : X ≠ 0xE9 → ∀ P', Arrives ((busSpace program b).Step G) Q
      ⟨⟨⟨X, X, Y, SP, P', 0x8020⟩, mem⟩, ws⟩) :
    Arrives ((busSpace program b).Step G) Q ⟨⟨⟨A, X, Y, SP, P, compare⟩, mem⟩, ws⟩ := by
  refine hcode.quiet compare rfl (.imp .txa) ⟨mem_listing rfl, rfl⟩ nofun rfl ?_
  refine hcode.quiet 0x801C rfl (.imm .cmp 0xE9) ⟨mem_listing rfl, rfl⟩ nofun rfl ?_
  refine hcode.branch 0x801E rfl .beq irq (mem_listing rfl) rfl (fun hZ => ?_) fun hZ => ?_
  · have heq : X = 0xE9 := by
      have hsub : X - 0xE9 = 0 := beq_iff_eq.mp hZ
      bv_omega
    exact hirq heq _
  · have hne : X ≠ 0xE9 := by
      rintro rfl
      have hsub : ((0xE9 : U8) - 0xE9 == 0) = false := hZ
      exact absurd hsub (by decide)
    exact hbrk hne _

end Rules

/-! ## The program -/

theorem codeAt_program : CodeAt program 0x8000 programBytes := by
  refine ⟨Nat.le_refl _, by decide, fun k v hk => ?_⟩
  have hlt : k < 36 := (List.getElem?_eq_some_iff.mp hk).1
  unfold progmemGet program
  rw [dif_pos (by omega), if_neg (by
    show ¬ 0x7FFA ≤ 0x8000 - 0x8000 + k
    omega), List.getD_eq_getElem?_getD]
  show some ((programBytes[0x8000 - 0x8000 + k]?).getD 0) = some v
  rw [Nat.sub_self, Nat.zero_add, hk, Option.getD_some]

theorem romCode_program {G : Line → State (Memory b) → Prop}
    (hmeets : ∀ e ∈ code, ∀ s, s.cpu.PC = e.1 → Regular program e.2 s → G e.2 s) :
    RomCode b program G code := by
  have hbytes : programBytes = assemble start lines ++ [0x4C, 0x21, 0x80] := by decide +kernel
  have hcode := codeAt_program
  rw [hbytes] at hcode
  exact romCode_listing program start lines hcode.take (by decide +kernel) (by decide +kernel)
    hmeets

/-- **On the 6502 without its decimal mode the program ends at its `BRK`**, with the Fibonacci
    number 144 instead of the one it asks for. -/
theorem manual_fibonacci (b : Build) (cpu : Isa.Cpu) (mem : Memory b) (hPC : cpu.PC = start) :
    Arrives ((busSpace program b).Step fun _ _ => True) (fun r => r.state.cpu.PC = 0x8020 ∧
      r.state.cpu.X = 144 ∧ Cells mem (Nat.fib 12) (Nat.fib 13) r.state.mem) ⟨⟨cpu, mem⟩, []⟩ := by
  have hcode : RomCode b program (fun _ _ => True) code := romCode_program fun _ _ _ _ _ => trivial
  obtain ⟨A, X, Y, SP, P, PC⟩ := cpu
  obtain rfl : PC = start := hPC
  refine before_runs hcode fun P' ws' hC => ?_
  refine Arrives.quiet hcode.runs (show (0x8008, .imm .sbc 0x03) ∈ code from mem_listing rfl)
    trivial rfl ?_
  have hend : ∀ (A : U8) (P'' : Isa.Status), A = .ofNat 8 10 →
      Arrives ((busSpace program b).Step fun _ _ => True) (fun r => r.state.cpu.PC = 0x8020 ∧
          r.state.cpu.X = 144 ∧ Cells mem (Nat.fib 12) (Nat.fib 13) r.state.mem)
        ⟨⟨⟨A, 0x01, 0x0D, SP, P'', 0x800A⟩, storeByte mem 0x0000 0x01⟩, ws'⟩ := by
    rintro A P'' rfl
    refine after_runs (m := 10) hcode (by decide) (by decide) (by decide)
      fun A' P' mem' ws' h => ?_
    refine compare_runs hcode (fun heq => absurd heq (by decide)) fun _ P'' => ?_
    exact .done ⟨rfl, rfl, h⟩
  obtain ⟨N, V, D, I, Z, C⟩ := P'
  obtain rfl : C = true := hC
  have hdiff : (BitVec.ofNat 8 ((0x0D : U8).toNat + (~~~(0x03 : U8)).toNat + true.toNat) : U8) =
      .ofNat 8 10 := by decide
  exact hend _ _ hdiff

/-- From a cleared machine. -/
theorem manual_fibonacci_cleared :
    Arrives ((busSpace program ⟨false⟩).Step fun _ _ => True) (fun r => r.state.cpu.PC = 0x8020 ∧
        r.state.cpu.X = 144 ∧ Cells ⟨fun _ => 0⟩ (Nat.fib 12) (Nat.fib 13) r.state.mem)
      ⟨⟨⟨0, 0, 0, 0xFD, ⟨false, false, false, false, false, false⟩, 0x8000⟩, ⟨fun _ => 0⟩⟩, []⟩ :=
  manual_fibonacci ⟨false⟩ _ _ rfl

/-- Before the subtraction. -/
def AtSubtraction (sp : U8) (mem₀ : Memory b) (r : Isa.Run (Memory b)) : Prop :=
  ∃ P ws, P.C = true ∧
    r = ⟨⟨⟨0x0D, 0x01, 0x0D, sp, P, 0x8008⟩, storeByte mem₀ 0x0000 0x01⟩, ws⟩

/-- `SBC #$03` on the code. -/
theorem sbc_step {E : U16 → Prop} {Q : Logged b → Prop} {p : Logged b} {X Y SP : U8} {P : Status}
    {mem : Memory b} {ws : List (U16 × U8)} (hE : E 0x8008)
    (hp : p.run = ⟨⟨⟨0x0D, X, Y, SP, P, 0x8008⟩, mem⟩, ws⟩) (hC : P.C = true)
    (h : ∀ P' (q : Logged b), q.run = ⟨⟨⟨.ofNat 8 11, X, Y, SP, P', 0x800A⟩, mem⟩, ws⟩ →
      Arrives (NextWhile program E) Q q) : Arrives (NextWhile program E) Q p := by
  have hcode : RomCode b program (Regular program) code := romCode_program fun _ _ _ _ h => h
  have hPC : p.1.1.cpu.PC = 0x8008 := congrArg (fun r => r.state.cpu.PC) hp
  have hl : (p.1.1.cpu.PC, .imm .sbc 0x03) ∈ code := hPC ▸ mem_listing rfl
  refine arrives_sbc (hPC ▸ hE) (hcode.runs p.run.state _ hl) (.inl rfl) fun cpu' q hcpu hq => ?_
  rw [hp] at hcpu hq
  have hA := hcpu.A
  rw [show (Run.state _).cpu.P.C = true from hC] at hA
  have hsum : (BitVec.ofNat 8 ((0x0D : U8).toNat + 256 - (0x03 : U8).toNat + true.toNat) : U8) =
      .ofNat 8 11 := by decide
  obtain ⟨A', X', Y', SP', P', PC'⟩ := cpu'
  obtain rfl : A' = .ofNat 8 11 := hA.trans hsum
  obtain rfl : X' = X := hcpu.X
  obtain rfl : Y' = Y := hcpu.Y
  obtain rfl : SP' = SP := hcpu.SP
  obtain rfl : PC' = 0x800A := hcpu.PC
  exact h P' q hq

theorem irq_eq : irqAddress program = irq := by decide

theorem meets_run (e : U16 × Line) (he : e ∈ code) (s : State (Memory b)) (hPC : s.cpu.PC = e.1)
    (hr : Regular program e.2 s) : RegularRun program e.2 s := by
  have hall : ∀ e ∈ code, e.1 ≠ irqAddress program := by decide +kernel
  exact ⟨hr, hPC ▸ hall e he⟩

/-- **`run` brings the program to the IRQ address**, with the Fibonacci number 233 in `X`, and the
    next of them modulo 256 in cell 1. -/
theorem run_fibonacci (b : Build) (x : Host b) (hPC : x.cpu.PC = start) :
    RunReturns program x fun r => r.state.cpu.X = 233 ∧
      Cells x.mem (Nat.fib 13) (Nat.fib 14) r.state.mem := by
  have hcode : RomCode b program (RegularRun program) code := romCode_program meets_run
  have hsim := simulates_while (b := b) program (· ≠ irqAddress program)
  have hbefore : Arrives ((busSpace program b).Step (RegularRun program))
      (AtSubtraction x.cpu.SP x.mem)
      ⟨⟨⟨x.cpu.A, x.cpu.X, x.cpu.Y, x.cpu.SP, x.cpu.status, start⟩, x.mem⟩, []⟩ :=
    before_runs hcode fun P ws hC => .done ⟨P, ws, hC, rfl⟩
  have hafter : ∀ q : Logged b, (∃ P ws, q.run =
      ⟨⟨⟨.ofNat 8 11, 0x01, 0x0D, x.cpu.SP, P, 0x800A⟩, storeByte x.mem 0x0000 0x01⟩, ws⟩) →
      Arrives (RunNext program) (fun q => q.1.1.cpu.PC = irqAddress program ∧
        q.run.state.cpu.X = 233 ∧ Cells x.mem (Nat.fib 13) (Nat.fib 14) q.run.state.mem) q := by
    rintro q ⟨P, ws, hq⟩
    refine hsim.arrives (P := fun r => r.state.cpu.PC = irqAddress program ∧ r.state.cpu.X = 233 ∧
      Cells x.mem (Nat.fib 13) (Nat.fib 14) r.state.mem) ?_
    rw [hq]
    refine after_runs (m := 11) hcode (by decide) (by decide) (by decide) fun A P mem ws h => ?_
    refine compare_runs hcode (fun _ P => ?_) fun hne => absurd (by decide) hne
    exact .done ⟨irq_eq.symm, rfl, h⟩
  refine runCommand_arrives program
    (.seq (P := fun q => AtSubtraction x.cpu.SP x.mem q.run) (hsim.arrives ?_) ?_)
  · rw [← hPC] at hbefore
    exact hbefore
  · rintro q ⟨P, ws, hC, hq⟩
    exact sbc_step (by decide) hq hC fun P' q' hq' => hafter q' ⟨P', ws, hq'⟩

/-- From the state that reset leaves. -/
theorem run_fibonacci_reset :
    RunReturns program (⟨{ olc6502Init with PC := 0x8000 }, false, ⟨fun _ => 0⟩, []⟩ : Host ⟨false⟩)
      fun r => r.state.cpu.X = 233 ∧
        Cells ⟨fun _ => 0⟩ (Nat.fib 13) (Nat.fib 14) r.state.mem :=
  run_fibonacci ⟨false⟩ _ rfl

end Fibonacci

end M6502
