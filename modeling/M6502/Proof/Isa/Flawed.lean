import M6502.Proof.Cpu.Subtraction
import M6502.Proof.Isa.Simulate

/-!
# Lines the code gets wrong

A line that is not regular is not one of the manual's machine, but it is an instruction of the
code, and what that leaves can be read as a state of the manual's. `arrives_sbc` and
`arrives_inc` are the rules of two such lines, to be used between the regular ones.
-/

set_option autoImplicit false

namespace M6502

open Lib

variable {b : Build} (PROGMEM : Progmem)

variable {PROGMEM} {E : U16 → Prop} {Q : Logged b → Prop} {p : Logged b}

/-- **The rule of one instruction of the code.** -/
theorem arrives_instruction (hE : E p.1.1.cpu.PC) (hs : StepSafe PROGMEM p.1)
    (h : ∀ q : Logged b, q.run = ⟨ref (stepOf PROGMEM p.1), p.2 ++ stepWrites PROGMEM p.1⟩ →
      Arrives (NextWhile PROGMEM E) Q q) : Arrives (NextWhile PROGMEM E) Q p :=
  .step ⟨(stepOf PROGMEM p.1, _), hE, .of_safe PROGMEM hs, rfl⟩
    fun q hq => h q (hq.2.run_eq PROGMEM)

/-- **The rule of the regular lines** before, between and after them. -/
theorem arrives_lines {r : Isa.Run (Memory b)} (hp : p.run = r)
    (h : Arrives ((busSpace PROGMEM b).Step (RegularWhile PROGMEM E))
      (fun r' => ∀ q : Logged b, q.run = r' → Arrives (NextWhile PROGMEM E) Q q) r) :
    Arrives (NextWhile PROGMEM E) Q p :=
  ((simulates_while PROGMEM E).arrives (hp ▸ h)).seq fun q hq => hq q rfl

/-- What the code makes of `SBC`. -/
structure CodeSbc (cpu : Isa.Cpu) (v : U8) (cpu' : Isa.Cpu) : Prop where
  A : cpu'.A = .ofNat 8 (cpu.A.toNat + 256 - v.toNat + cpu.P.C.toNat)
  C : cpu'.P.C = true ↔ cpu.A.toNat + cpu.P.C.toNat < v.toNat ∨
    (cpu.A.toNat + cpu.P.C.toNat = 256 ∧ v.toNat = 0)
  X : cpu'.X = cpu.X
  Y : cpu'.Y = cpu.Y
  SP : cpu'.SP = cpu.SP
  PC : cpu'.PC = cpu.PC + 2

theorem codeSbc {x : Machine b} {i : Ins} (hi : i = .sbcIm ∨ i = .sbcZp) (h : At PROGMEM i x) :
    CodeSbc x.1.cpu.isa ((busSpace PROGMEM b).value i.mode.isa (lineAt PROGMEM i x).arg (ref x))
      (stepOf PROGMEM x).1.cpu.isa := by
  have hv : (busSpace PROGMEM b).value i.mode.isa (lineAt PROGMEM i x).arg (ref x) =
      peek PROGMEM x.2 (effectiveAddress PROGMEM i.mode x) := by
    rcases hi with rfl | rfl
    · exact BitVec.setWidth_setWidth_of_le _ (by decide)
    · rfl
  have hsbc : i.IsSbc := by rcases hi with rfl | rfl <;> decide
  obtain ⟨hA, hC⟩ := (x.1.cpu.past i.mode.length).added_seven
    (peek PROGMEM x.2 (effectiveAddress PROGMEM i.mode x))
  rw [stepOf_sbc PROGMEM h hsbc, hv]
  refine ⟨BitVec.eq_of_toNat_eq ?_, hC, rfl, rfl, rfl, ?_⟩
  · rw [BitVec.toNat_ofNat]
    exact hA
  · rcases hi with rfl | rfl <;> rfl

theorem ins_of_line {x : Machine b} {op : Isa.Op} {m : Isa.Mode} {arg : U16}
    (hl : (busSpace PROGMEM b).line? (ref x) = some ⟨op, m, arg⟩) :
    ∃ i : Ins, At PROGMEM i x ∧ i.op = op ∧ i.mode.isa = m ∧ lineAt PROGMEM i x = ⟨op, m, arg⟩ := by
  obtain ⟨i, hat, heq⟩ := at_of_line PROGMEM hl
  obtain ⟨hop, hmode, -⟩ := Isa.Line.mk.inj heq
  exact ⟨i, hat, hop.symm, hmode.symm, heq.symm⟩

/-- **The rule of `SBC`.** -/
theorem arrives_sbc {m : Isa.Mode} {arg : U16} (hE : E p.1.1.cpu.PC)
    (hl : (busSpace PROGMEM b).line? p.run.state = some ⟨.sbc, m, arg⟩)
    (hm : m = .immediate ∨ m = .zeroPage)
    (h : ∀ cpu' (q : Logged b), CodeSbc p.run.state.cpu
        ((busSpace PROGMEM b).value m arg p.run.state) cpu' → q.run = p.run.withCpu cpu' →
      Arrives (NextWhile PROGMEM E) Q q) : Arrives (NextWhile PROGMEM E) Q p := by
  obtain ⟨i, hat, hop, rfl, hline⟩ := ins_of_line hl
  have hi : i = .sbcIm ∨ i = .sbcZp := by
    cases i <;> first
      | exact .inl rfl
      | exact .inr rfl
      | exact absurd hm (by decide)
      | exact absurd hop (by decide)
  have hsafe : StepSafe PROGMEM p.1 := by
    refine (stepSafe_iff PROGMEM hat).mpr ?_
    rcases hi with rfl | rfl <;> exact ⟨fun hw => absurd hw (by decide), nofun⟩
  have hquiet : i.writes PROGMEM p.1 = [] := by rcases hi with rfl | rfl <;> rfl
  obtain ⟨hwrites, hmem⟩ := stepOf_quiet PROGMEM hat hquiet
  refine arrives_instruction hE hsafe fun q hq => h _ q (hline ▸ codeSbc hi hat) ?_
  rw [hq, hwrites, List.append_nil]
  unfold ref
  rw [hmem]
  rfl

/-- **The rule of `INC`**: what is stored is one more than `A`. -/
theorem arrives_inc {arg : U16} (hE : E p.1.1.cpu.PC)
    (hl : (busSpace PROGMEM b).line? p.run.state = some ⟨.inc, .zeroPage, arg⟩)
    (harg : arg.toNat < 0x8000)
    (h : let cpu := p.run.state.cpu
      ∀ q : Logged b, q.run = ⟨⟨{ cpu with P := cpu.P.nz (cpu.A + 1), PC := cpu.PC + 2 },
        storeByte p.run.state.mem arg (cpu.A + 1)⟩, p.run.stores ++ [(arg, cpu.A + 1)]⟩ →
      Arrives (NextWhile PROGMEM E) Q q) : Arrives (NextWhile PROGMEM E) Q p := by
  obtain ⟨i, hat, hop, hmode, hline⟩ := ins_of_line hl
  obtain rfl : i = .incZp := by
    cases i <;> first | rfl | exact absurd hop (by decide) | exact absurd hmode (by decide)
  have harg' : effectiveAddress PROGMEM .zeroPage p.1 = arg := (Isa.Line.mk.inj hline).2.2
  obtain ⟨hcpu, hmem⟩ := stepOf_incDec PROGMEM hat rfl
  have hsafe : StepSafe PROGMEM p.1 := by
    refine (stepSafe_iff PROGMEM hat).mpr ⟨nofun, fun _ => ?_⟩
    show StoreInBounds b (effectiveAddress PROGMEM .zeroPage p.1)
    rw [harg']
    exact storeInBounds_of_lt harg
  refine arrives_instruction hE hsafe fun q hq => h q ?_
  rw [hq, stepWrites_at PROGMEM hat]
  unfold ref
  rw [hcpu, hmem, storeByte_eq _ _ harg, ← harg']
  rfl

end M6502
