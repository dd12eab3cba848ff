import M6502.Proof.Cpu.Family
import M6502.Proof.Cpu.Run

/-!
# The instructions that work on flags only

The set and clear instructions are one group, which takes the flag from the upper two bits of
`aaa` and its value from the lowest. `CLV` is `0xB8`, with 1 as its lowest bit, so it sets the
flag it is to clear; the other six follow the pattern (`flagInstruction_iff`).

`BIT` takes `N` and `V` from its operand with an OR, which sets them and never clears them
(`Olc6502.bitOred`).
-/

set_option autoImplicit false

namespace M6502

open Lib Cpu

variable {b : Build} (PROGMEM : Progmem)

/-! ## Set and clear -/

/-- What an instruction of the group sets, by mnemonic. -/
def Ins.flagSet? : Ins → Option (Olc6502 → Olc6502)
  | .clc => some fun cpu => { cpu with PS.C := false }
  | .sec => some fun cpu => { cpu with PS.C := true }
  | .cli => some fun cpu => { cpu with iNxt := false }
  | .sei => some fun cpu => { cpu with iNxt := true }
  | .clv => some fun cpu => { cpu with PS.V := false }
  | .cld => some fun cpu => { cpu with PS.D := false }
  | .sed => some fun cpu => { cpu with PS.D := true }
  | _ => none

/-- From `x` to `y` the flag is set, and nothing else happens. -/
structure SetsFlag (f : Olc6502 → Olc6502) (x y : Machine b) : Prop where
  cpu : y.1.cpu = f (x.1.cpu.past 1)
  writes : stepWrites PROGMEM x = []
  mem : y.2 = x.2

/-- What the group sets: as the mnemonic says, but for `CLV`. -/
def Ins.codeFlagSet? (i : Ins) : Option (Olc6502 → Olc6502) :=
  match i with
  | .clv => some fun cpu => { cpu with PS.V := true }
  | i => i.flagSet?

theorem stepOf_flag {i : Ins} {f : Olc6502 → Olc6502} {x : Machine b} (h : At PROGMEM i x)
    (hf : i.codeFlagSet? = some f) : SetsFlag PROGMEM f x (stepOf PROGMEM x) := by
  have hcpu : (stepOf PROGMEM x).1.cpu = f (x.1.cpu.past 1) := by
    rw [stepOf_arms PROGMEM h]
    cases i <;> cases hf <;> rfl
  have hwrites : i.writes PROGMEM x = [] := by
    cases i <;> first | rfl | cases hf
  obtain ⟨hquiet, hmem⟩ := stepOf_quiet PROGMEM h hwrites
  exact ⟨hcpu, hquiet, hmem⟩

theorem Ins.codeFlagSet_eq {i : Ins} (hi : i ≠ .clv) : i.codeFlagSet? = i.flagSet? := by
  cases i <;> first | rfl | exact absurd rfl hi

/-- The test for the group picks these seven opcodes of the documented ones. -/
theorem flagGroup_fires (i : Ins) : Group.flag.Fires i.opcode ↔ i.flagSet?.isSome := by
  rw [i.group_only.1]
  cases i <;> first | exact iff_of_true rfl rfl | exact iff_of_false nofun nofun

/-- **A set or clear instruction does what its mnemonic says exactly if** it is not `CLV`. -/
theorem flagInstruction_iff (b : Build) (PROGMEM : Progmem) :
    (∀ (i : Ins) (f : Olc6502 → Olc6502) (x y : Machine b), i.flagSet? = some f →
      At PROGMEM i x → instructionOn PROGMEM x = some y →
      (SetsFlag PROGMEM f x y ↔ i ≠ .clv)) ∧
    (∀ i : Ins, Group.flag.Fires i.opcode ↔ i.flagSet?.isSome) := by
  refine ⟨fun i f x y hf h hy => ?_, flagGroup_fires⟩
  obtain ⟨-, rfl⟩ := (instructionOn_at PROGMEM h).mp hy
  constructor
  · rintro hset rfl
    cases hf
    have hV := congrArg (fun cpu => cpu.PS.V)
      (hset.cpu.symm.trans (stepOf_flag PROGMEM h rfl).cpu)
    cases hV
  · intro hi
    rw [← i.codeFlagSet_eq hi] at hf
    exact stepOf_flag PROGMEM h hf

/-- At `0x8000`, with the overflow flag set. -/
def overflowState : Machine ⟨false⟩ :=
  callStart { olc6502Init with PC := 0x8000, PS := .ofValue 0x40 } false ⟨fun _ => 0x00⟩ 2

/-- `SEC`, in a program image of nothing else. -/
theorem flagInstruction_iff_sec :
    SetsFlag (fun _ => 0x38) (fun cpu => { cpu with PS.C := true }) overflowState
      (stepOf (fun _ => 0x38) overflowState) ↔ Ins.sec ≠ .clv :=
  (flagInstruction_iff ⟨false⟩ (fun _ => 0x38)).1 .sec _ overflowState _ rfl (by decide)
    ((instructionOn_eq_some_iff _).mpr ⟨trivial, rfl⟩)

/-- And `CLV`, after which the flag is still set. -/
theorem not_flagInstruction :
    ¬ ((∀ (b : Build) (PROGMEM : Progmem) (i : Ins) (f : Olc6502 → Olc6502) (x y : Machine b),
        i.flagSet? = some f → At PROGMEM i x → instructionOn PROGMEM x = some y →
        SetsFlag PROGMEM f x y) ∧
      ∀ i : Ins, Group.flag.Fires i.opcode → i.flagSet?.isSome) := by
  rintro ⟨h, -⟩
  have hstep := h ⟨false⟩ (fun _ => 0xB8) .clv _ overflowState _ rfl (by decide)
    ((instructionOn_eq_some_iff _).mpr ⟨trivial, rfl⟩)
  exact absurd (congrArg (fun cpu => cpu.PS.V) hstep.cpu) (by decide)

/-! ## BIT -/

def Ins.IsBit (i : Ins) : Prop := i = .bitZp ∨ i = .bitAbs

/-- `M` tested against `A`. -/
def Olc6502.bitTested (cpu : Olc6502) (M : U8) : Olc6502 :=
  { cpu with
    PS := { cpu.PS with
      Z := decide (cpu.A &&& M = 0)
      N := M.getLsbD 7
      V := M.getLsbD 6 } }

/-- From `x` to `y` the flags are set from `M`, and nothing else happens. -/
structure TestsBits (i : Ins) (M : U8) (x y : Machine b) : Prop where
  cpu : y.1.cpu = (x.1.cpu.past i.mode.length).bitTested M
  writes : stepWrites PROGMEM x = []
  mem : y.2 = x.2

/-- The CPU after the code has tested `M`. -/
def Olc6502.bitOred (cpu : Olc6502) (M : U8) : Olc6502 :=
  { cpu with
    PS := { cpu.PS with
      Z := decide (cpu.A &&& M = 0)
      N := cpu.PS.N || M.getLsbD 7
      V := cpu.PS.V || M.getLsbD 6 } }

/-- The OR with the two highest bits of a byte. -/
theorem Flags.ofValue_or_0xC0 (f : Flags) (v : U8) :
    Flags.ofValue (f.value ||| (v &&& 0xC0)) =
      { f with N := f.N || v.getLsbD 7, V := f.V || v.getLsbD 6 } := by
  rw [Flags.ofValue_or]
  simp [Flags.or, Flags.ofValue]

theorem stepOf_bit {i : Ins} {x : Machine b} (h : At PROGMEM i x) (hi : i.IsBit) :
    (stepOf PROGMEM x).1.cpu = (x.1.cpu.past i.mode.length).bitOred
        (peek PROGMEM x.2 (effectiveAddress PROGMEM i.mode x)) ∧
      stepWrites PROGMEM x = [] ∧ (stepOf PROGMEM x).2 = x.2 := by
  -- the flags as the arm leaves them, `Z` first and then the OR
  have hps : ∀ (cpu : Olc6502) (M : U8),
      { cpu with
        PS := .ofValue ({ cpu.PS with Z := M &&& cpu.A == 0 }.value ||| (M &&& 0xC0)) } =
        cpu.bitOred M := by
    intro cpu M
    rw [Flags.ofValue_or_0xC0, BitVec.and_comm M cpu.A]
    rfl
  have hwrites : i.writes PROGMEM x = [] := by
    rcases hi with rfl | rfl <;> rfl
  refine ⟨?_, stepOf_quiet PROGMEM h hwrites⟩
  rw [← hps, ← Olc6502.advanced_eq, stepOf_arms PROGMEM h]
  rcases hi with rfl | rfl <;> rfl

theorem bitOred_eq_iff (cpu : Olc6502) (M : U8) :
    cpu.bitOred M = cpu.bitTested M ↔
      (cpu.PS.N = true → M.getLsbD 7 = true) ∧ (cpu.PS.V = true → M.getLsbD 6 = true) := by
  rw [← or_eq_right_iff, ← or_eq_right_iff]
  unfold Olc6502.bitOred Olc6502.bitTested
  constructor
  · intro h
    exact ⟨congrArg (fun cpu => cpu.PS.N) h, congrArg (fun cpu => cpu.PS.V) h⟩
  · rintro ⟨hN, hV⟩
    rw [hN, hV]

/-- Two `BIT`s, one after the other, of `M₁` and then of `M`. -/
structure BitTwice (M₁ M : U8) (x y z : Machine b) : Prop where
  first : ∃ i : Ins, i.IsBit ∧ At PROGMEM i x ∧ documentedOperand PROGMEM i.mode x = some M₁
  next : Next PROGMEM x y
  second : ∃ i : Ins, i.IsBit ∧ At PROGMEM i y ∧ documentedOperand PROGMEM i.mode y = some M
  last : Next PROGMEM y z

theorem Next.bit {M : U8} {x y : Machine b} (hy : Next PROGMEM x y)
    (h : ∃ i : Ins, i.IsBit ∧ At PROGMEM i x ∧ documentedOperand PROGMEM i.mode x = some M) :
    y.1.cpu.A = x.1.cpu.A ∧ y.1.cpu.PS.Z = decide (x.1.cpu.A &&& M = 0) ∧
      y.1.cpu.PS.N = (x.1.cpu.PS.N || M.getLsbD 7) ∧
      y.1.cpu.PS.V = (x.1.cpu.PS.V || M.getLsbD 6) := by
  obtain ⟨i, hi, hat, hM⟩ := h
  have hcpu := (stepOf_bit PROGMEM hat hi).1
  rw [peek_of_documented PROGMEM hM, ← (hy.stepOf PROGMEM).1] at hcpu
  rw [hcpu]
  exact ⟨rfl, rfl, rfl, rfl⟩

/-- The two have the flags a `BIT` sets in common. -/
def SameTest (f g : Flags) : Prop := f.N = g.N ∧ f.V = g.V ∧ f.Z = g.Z

theorem or_or_eq_iff (p p' q q' r : Bool) :
    (p || q || r) = (p' || q' || r) ↔ (r = false → (p || q) = (p' || q')) := by
  cases r <;> simp

/-- **`BIT` sets its flags exactly if** none it is to clear was set. **After two of them the
    flags depend on the second operand and `A` alone exactly if** the flags the second operand
    is to clear came out of the first alike. -/
theorem bit_iff (b : Build) (PROGMEM : Progmem) :
    (∀ (i : Ins) (M : U8) (x y : Machine b), i.IsBit → At PROGMEM i x →
      documentedOperand PROGMEM i.mode x = some M → instructionOn PROGMEM x = some y →
      (TestsBits PROGMEM i M x y ↔
        (x.1.cpu.PS.N = true → M.getLsbD 7 = true) ∧
          (x.1.cpu.PS.V = true → M.getLsbD 6 = true))) ∧
    (∀ (M₁ M₁' M : U8) (x y z x' y' z' : Machine b), BitTwice PROGMEM M₁ M x y z →
      BitTwice PROGMEM M₁' M x' y' z' → x.1.cpu.A = x'.1.cpu.A →
      (SameTest z.1.cpu.PS z'.1.cpu.PS ↔
        (M.getLsbD 7 = false →
          (x.1.cpu.PS.N || M₁.getLsbD 7) = (x'.1.cpu.PS.N || M₁'.getLsbD 7)) ∧
        (M.getLsbD 6 = false →
          (x.1.cpu.PS.V || M₁.getLsbD 6) = (x'.1.cpu.PS.V || M₁'.getLsbD 6)))) := by
  constructor
  · intro i M x y hi h hM hy
    obtain ⟨-, rfl⟩ := (instructionOn_at PROGMEM h).mp hy
    obtain ⟨hcpu, hwrites, hmem⟩ := stepOf_bit PROGMEM h hi
    rw [peek_of_documented PROGMEM hM] at hcpu
    have hiff := bitOred_eq_iff (x.1.cpu.past i.mode.length) M
    rw [← hcpu] at hiff
    exact ⟨fun ht => hiff.mp ht.cpu, fun hm => ⟨hiff.mpr hm, hwrites, hmem⟩⟩
  · intro M₁ M₁' M x y z x' y' z' h h' hA
    obtain ⟨hAy, -, hNy, hVy⟩ := h.next.bit PROGMEM h.first
    obtain ⟨hAy', -, hNy', hVy'⟩ := h'.next.bit PROGMEM h'.first
    obtain ⟨-, hZ, hN, hV⟩ := h.last.bit PROGMEM h.second
    obtain ⟨-, hZ', hN', hV'⟩ := h'.last.bit PROGMEM h'.second
    have hsame : z.1.cpu.PS.Z = z'.1.cpu.PS.Z := by
      rw [hZ, hZ', hAy, hAy', hA]
    unfold SameTest
    rw [hN, hN', hV, hV', hNy, hNy', hVy, hVy', or_or_eq_iff, or_or_eq_iff, ← and_assoc]
    exact and_iff_left hsame

/-- A program image of `BIT $24` and `BIT $25`. -/
def bitProgmem : Progmem := fun i =>
  match i.val with
  | 0 | 2 => 0x24
  | 1 => 0x24
  | _ => 0x25

/-- With `M₁` at `0x24` and 0 everywhere else, `k` instructions in. -/
def bitAt (M₁ : U8) : Nat → Machine ⟨false⟩
  | 0 => callStart { olc6502Init with PC := 0x8000 } false
    ⟨fun i => if i.val = 0x24 then M₁ else 0x00⟩ 6
  | k + 1 => stepOf bitProgmem (bitAt M₁ k)

theorem bitAt_bitTwice {M₁ : U8} (h : M₁ = 0x80 ∨ M₁ = 0x00) :
    BitTwice bitProgmem M₁ 0x00 (bitAt M₁ 0) (bitAt M₁ 1) (bitAt M₁ 2) := by
  rcases h with rfl | rfl
  all_goals
    refine ⟨⟨.bitZp, .inl rfl, ?_, ?_⟩, .of_safe _ ?_, ⟨.bitZp, .inl rfl, ?_, ?_⟩, .of_safe _ ?_⟩
      <;> decide

/-- One `BIT`, and two that follow one of a set bit and one of a clear one. -/
theorem bit_iff_two :
    (TestsBits bitProgmem .bitZp 0x80 (bitAt 0x80 0) (bitAt 0x80 1) ↔
      ((bitAt 0x80 0).1.cpu.PS.N = true → (0x80 : U8).getLsbD 7 = true) ∧
        ((bitAt 0x80 0).1.cpu.PS.V = true → (0x80 : U8).getLsbD 6 = true)) ∧
    (SameTest (bitAt 0x80 2).1.cpu.PS (bitAt 0x00 2).1.cpu.PS ↔
      ((0x00 : U8).getLsbD 7 = false →
        ((bitAt 0x80 0).1.cpu.PS.N || (0x80 : U8).getLsbD 7) =
          ((bitAt 0x00 0).1.cpu.PS.N || (0x00 : U8).getLsbD 7)) ∧
      ((0x00 : U8).getLsbD 6 = false →
        ((bitAt 0x80 0).1.cpu.PS.V || (0x80 : U8).getLsbD 6) =
          ((bitAt 0x00 0).1.cpu.PS.V || (0x00 : U8).getLsbD 6))) :=
  ⟨(bit_iff ⟨false⟩ bitProgmem).1 .bitZp 0x80 (bitAt 0x80 0) _ (.inl rfl) (by decide) (by decide)
      ((instructionOn_eq_some_iff _).mpr ⟨by decide, rfl⟩),
    (bit_iff ⟨false⟩ bitProgmem).2 0x80 0x00 0x00 _ _ _ _ _ _ (bitAt_bitTwice (.inl rfl))
      (bitAt_bitTwice (.inr rfl)) rfl⟩

/-- After `BIT` of `0x80` and then of `0x00` the negative flag is set. -/
theorem not_bit :
    ¬ ((∀ (b : Build) (PROGMEM : Progmem) (i : Ins) (M : U8) (x y : Machine b), i.IsBit →
        At PROGMEM i x → documentedOperand PROGMEM i.mode x = some M →
        instructionOn PROGMEM x = some y → TestsBits PROGMEM i M x y) ∧
      ∀ (b : Build) (PROGMEM : Progmem) (M₁ M₁' M : U8) (x y z x' y' z' : Machine b),
        BitTwice PROGMEM M₁ M x y z → BitTwice PROGMEM M₁' M x' y' z' →
        x.1.cpu.A = x'.1.cpu.A → SameTest z.1.cpu.PS z'.1.cpu.PS) := by
  rintro ⟨h, -⟩
  have hstep := h ⟨false⟩ bitProgmem .bitZp 0x00 (bitAt 0x80 1) _ (.inl rfl) (by decide)
    (by decide) ((instructionOn_eq_some_iff _).mpr ⟨by decide, rfl⟩)
  exact absurd (congrArg (fun cpu => cpu.PS.N) hstep.cpu) (by decide)

end M6502
