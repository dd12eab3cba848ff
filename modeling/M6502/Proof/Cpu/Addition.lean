import M6502.Proof.Cpu.Adder
import M6502.Proof.Cpu.StraightLine

/-!
# Multi-byte addition

`CLC`, then `LDA`, `ADC`, `STA` for each byte from the lowest up: the code every 6502 program
adds with. The invariant of the loop is `AddInvariant`, that after `k` bytes the carry flag
is the carry of the chain into byte `k` and the bytes below `k` are its digits; the rest is
`Lib.value_digit_div` and `Lib.signed_sum_iff`.
-/

set_option autoImplicit false

namespace M6502

open Lib Cpu

variable {b : Build} (PROGMEM : Progmem)

/-! ## The program -/

/-- `LDA a₁+i`, `ADC a₂+i`, `STA c+i`. -/
def addBlock (a₁ a₂ c i : Nat) : List U8 :=
  absolute (.ldaAbs, .ofNat 16 (a₁ + i)) ++ (absolute (.adcAbs, .ofNat 16 (a₂ + i)) ++
    absolute (.staAbs, .ofNat 16 (c + i)))

/-- The addition of the `n`-byte numbers at `a₁` and `a₂` into the one at `c`. -/
def addCode (a₁ a₂ c n : Nat) : List U8 :=
  Ins.clc.opcode :: (List.range n).flatMap (addBlock a₁ a₂ c)

/-- Two ranges of `n` bytes are the same or have no byte in common. -/
def EqualOrDisjoint (a c n : Nat) : Prop := c = a ∨ a + n ≤ c ∨ c + n ≤ a

/-! ## Its instructions -/

theorem adcAbs_step {w : U16} {x : Machine b} (h : AtAbsolute PROGMEM (.adcAbs, w) x) :
    (stepOf PROGMEM x).1.cpu = (x.1.cpu.past 3).added 3 (peek PROGMEM x.2 w) ∧
      (stepOf PROGMEM x).2 = x.2 := by
  obtain rfl : operandWord PROGMEM x = w := h.operand
  have haaa : fieldAaa Ins.adcAbs.opcode = 3 := by decide
  rw [stepOf_adc PROGMEM h.opcode rfl, Olc6502.advanced_eq, stepOf_mem PROGMEM h.opcode, haaa]
  exact ⟨rfl, rfl⟩

theorem clc_step {x : Machine b} (h : At PROGMEM .clc x) :
    (stepOf PROGMEM x).1.cpu.PC = x.1.cpu.PC + 1 ∧ (stepOf PROGMEM x).1.cpu.PS.C = false ∧
      (stepOf PROGMEM x).2 = x.2 := by
  rw [stepOf_arms PROGMEM h]
  exact ⟨rfl, rfl, rfl⟩

/-- The CPU after `LDA M₁` and `ADC M₂`. -/
def Olc6502.addedByte (cpu : Olc6502) (M₁ M₂ : U8) : Olc6502 :=
  (((cpu.past 3).loaded .A M₁).past 3).added 3 M₂

/-- What the three instructions of a block do. -/
theorem addBlock_run {q a₁ a₂ c k : Nat} {z : Machine b}
    (hcode : CodeAt PROGMEM q (addBlock a₁ a₂ c k)) (hpc : z.1.cpu.PC = .ofNat 16 q)
    (h₁ : a₁ + k < 0x800) (h₂ : a₂ + k < 0x800) (hc : c + k < 0x800) :
    Leads (Next PROGMEM) 3 z fun y =>
      let cpu := z.1.cpu.addedByte (peek PROGMEM z.2 (.ofNat 16 (a₁ + k)))
        (peek PROGMEM z.2 (.ofNat 16 (a₂ + k)))
      y.1.cpu = cpu.past 3 ∧ y.2 = poke z.2 (.ofNat 16 (c + k)) cpu.A := by
  -- `LDA`
  have hat₁ := hcode.absolute PROGMEM hpc
  obtain ⟨hcpu₁, hmem₁⟩ := ldaAbs_step PROGMEM hat₁
  refine leads_instruction PROGMEM (hat₁.stepSafe PROGMEM rfl (toNat_ram_lt h₁))
    fun y₁ hy₁ hm₁ => ?_
  rw [hcpu₁] at hy₁
  rw [hmem₁] at hm₁
  have hpc₁ : y₁.1.cpu.PC = .ofNat 16 (q + 3) := by
    rw [hy₁]
    exact pc_next hpc
  -- `ADC`
  have hat₂ := (hcode.append PROGMEM).absolute PROGMEM hpc₁
  obtain ⟨hcpu₂, hmem₂⟩ := adcAbs_step PROGMEM hat₂
  refine leads_instruction PROGMEM (hat₂.stepSafe PROGMEM rfl (toNat_ram_lt h₂))
    fun y₂ hy₂ hm₂ => ?_
  rw [hcpu₂, hm₁, hy₁] at hy₂
  rw [hmem₂, hm₁] at hm₂
  have hpc₂ : y₂.1.cpu.PC = .ofNat 16 (q + 3 + 3) := by
    rw [hy₂]
    exact pc_next (pc_next hpc)
  -- `STA`
  have hcode₃ := (hcode.append PROGMEM).append PROGMEM
  rw [← List.append_nil (absolute _)] at hcode₃
  have hat₃ := hcode₃.absolute PROGMEM hpc₂
  obtain ⟨hcpu₃, hmem₃⟩ := staAbs_step PROGMEM hat₃
  refine leads_instruction PROGMEM (hat₃.stepSafe PROGMEM rfl (toNat_ram_lt hc))
    fun y₃ hy₃ hm₃ => .done ?_
  rw [hcpu₃, hy₂] at hy₃
  rw [hmem₃, hm₂, hy₂] at hm₃
  exact ⟨hy₃, hm₃⟩

/-! ## The invariant -/

/-- The digits of the sum, not normalised. -/
def sumDigits (mem : Memory b) (a₁ a₂ i : Nat) : Nat :=
  byteAt PROGMEM mem (a₁ + i) + byteAt PROGMEM mem (a₂ + i)

/-- The sum of the bytes `j`, read in two's complement, and the carry into them. -/
def signedDigit (mem : Memory b) (a₁ a₂ j : Nat) : Int :=
  (peek PROGMEM mem (.ofNat 16 (a₁ + j))).toInt + (peek PROGMEM mem (.ofNat 16 (a₂ + j))).toInt +
    carry 256 (sumDigits PROGMEM mem a₁ a₂) j

/-- `V`, `Z` and `N` are those of byte `j` of the sum. -/
structure LastByte (mem : Memory b) (a₁ a₂ c j : Nat) (z : Machine b) : Prop where
  V : z.1.cpu.PS.V = true ↔ ¬ (-128 ≤ signedDigit PROGMEM mem a₁ a₂ j ∧
    signedDigit PROGMEM mem a₁ a₂ j < 128)
  Z : z.1.cpu.PS.Z = (peek PROGMEM z.2 (.ofNat 16 (c + j)) == 0)
  N : z.1.cpu.PS.N = (peek PROGMEM z.2 (.ofNat 16 (c + j))).getLsbD 7

/-- After `k` bytes of the addition, started on the memory `mem` with its loop at `p`. -/
structure AddInvariant (mem : Memory b) (p a₁ a₂ c k : Nat) (z : Machine b) : Prop where
  pc : z.1.cpu.PC = .ofNat 16 (p + 9 * k)
  carryIn : z.1.cpu.PS.C.toNat = carry 256 (sumDigits PROGMEM mem a₁ a₂) k
  digits : ∀ i < k, byteAt PROGMEM z.2 (c + i) = digit 256 (sumDigits PROGMEM mem a₁ a₂) i
  same : SameOutside PROGMEM c k mem z.2
  flags : ∀ j, k = j + 1 → LastByte PROGMEM mem a₁ a₂ c j z

/-- A byte of an operand is read before it is overwritten. -/
theorem AddInvariant.peek_operand {mem : Memory b} {p a₁ a₂ c k n a : Nat} {z : Machine b}
    (h : AddInvariant PROGMEM mem p a₁ a₂ c k z) (hk : k < n) (ha : a + n ≤ 0x800)
    (hac : EqualOrDisjoint a c n) :
    peek PROGMEM z.2 (.ofNat 16 (a + k)) = peek PROGMEM mem (.ofNat 16 (a + k)) := by
  refine h.same _ fun i hi => ?_
  rw [cellIndex_ram (by omega)]
  rcases hac with rfl | hlt | hlt <;> omega

/-- **One byte of the addition.** -/
theorem AddInvariant.block {mem : Memory b} {p a₁ a₂ c k n : Nat} {z : Machine b}
    (h : AddInvariant PROGMEM mem p a₁ a₂ c k z) (hk : k < n)
    (hcode : CodeAt PROGMEM (p + 9 * k) (addBlock a₁ a₂ c k)) (h₁ : a₁ + n ≤ 0x800)
    (h₂ : a₂ + n ≤ 0x800) (hc : c + n ≤ 0x800) (hac₁ : EqualOrDisjoint a₁ c n)
    (hac₂ : EqualOrDisjoint a₂ c n) :
    Leads (Next PROGMEM) 3 z (AddInvariant PROGMEM mem p a₁ a₂ c (k + 1)) := by
  refine (addBlock_run PROGMEM hcode h.pc (by omega) (by omega) (by omega)).mono ?_
  rintro y ⟨hcpu, hmem⟩
  rw [h.peek_operand PROGMEM hk h₁ hac₁, h.peek_operand PROGMEM hk h₂ hac₂] at hcpu hmem
  obtain ⟨hA, hC, hV, hZ, hN⟩ := Olc6502.added_spec
    (((z.1.cpu.past 3).loaded .A (peek PROGMEM mem (.ofNat 16 (a₁ + k)))).past 3)
    (peek PROGMEM mem (.ofNat 16 (a₂ + k)))
  have hcarry : (((z.1.cpu.past 3).loaded .A
      (peek PROGMEM mem (.ofNat 16 (a₁ + k)))).past 3).PS.C.toNat =
        carry 256 (sumDigits PROGMEM mem a₁ a₂) k := h.carryIn
  rw [hcarry] at hA hC hV
  refine ⟨?_, ?_, ?_, ?_, ?_⟩
  · rw [hcpu]
    exact pc_next (pc_next (pc_next h.pc))
  · rw [hcpu]
    exact hC
  · intro i hi
    rw [hmem]
    -- the bytes below are as they were, byte `k` is the one stored
    rcases Nat.lt_succ_iff_lt_or_eq.mp hi with hlt | rfl
    · rw [byteAt_poke_of_ne PROGMEM _ (by omega) (by omega) (by omega)]
      exact h.digits i hlt
    · rw [byteAt_poke_same PROGMEM _ (by omega)]
      exact hA
  · rw [hmem]
    exact h.same.poke PROGMEM _ (by omega)
  · intro j hj
    obtain rfl := Nat.succ.inj hj
    have hlast := peek_poke_same PROGMEM z.2
      ((z.1.cpu.addedByte (peek PROGMEM mem (.ofNat 16 (a₁ + k)))
        (peek PROGMEM mem (.ofNat 16 (a₂ + k)))).A)
      (toNat_ram_lt (show c + k < 0x800 by omega)) rfl
    refine ⟨?_, ?_, ?_⟩
    · rw [hcpu]
      exact hV
    · rw [hmem, hlast, hcpu]
      exact hZ
    · rw [hmem, hlast, hcpu]
      exact hN

/-! ## The sum -/

/-- In `y`, started on `mem`, the `n` bytes at `c` are the sum of those at `a₁` and `a₂`. -/
structure Sum (mem : Memory b) (a₁ a₂ c n : Nat) (y : Machine b) : Prop where
  number : number PROGMEM y.2 c n =
    (number PROGMEM mem a₁ n + number PROGMEM mem a₂ n) % 2 ^ (8 * n)
  C : y.1.cpu.PS.C = decide (2 ^ (8 * n) ≤ M6502.number PROGMEM mem a₁ n +
    M6502.number PROGMEM mem a₂ n)
  V : y.1.cpu.PS.V = true ↔
    ¬ (-2 ^ (8 * n - 1) ≤ signedNumber PROGMEM mem a₁ n + signedNumber PROGMEM mem a₂ n ∧
      signedNumber PROGMEM mem a₁ n + signedNumber PROGMEM mem a₂ n < 2 ^ (8 * n - 1))
  Z : y.1.cpu.PS.Z = (peek PROGMEM y.2 (.ofNat 16 (c + (n - 1))) == 0)
  N : y.1.cpu.PS.N = (peek PROGMEM y.2 (.ofNat 16 (c + (n - 1)))).getLsbD 7
  same : SameOutside PROGMEM c n mem y.2

theorem value_sumDigits (mem : Memory b) (a₁ a₂ n : Nat) :
    value 256 (sumDigits PROGMEM mem a₁ a₂) n =
      number PROGMEM mem a₁ n + number PROGMEM mem a₂ n :=
  value_add 256 (fun i => byteAt PROGMEM mem (a₁ + i)) (fun i => byteAt PROGMEM mem (a₂ + i)) n

/-- The highest bytes decide whether the signed sum is in range. -/
theorem signedNumber_sum_iff (mem : Memory b) (a₁ a₂ m : Nat) :
    (-2 ^ (8 * (m + 1) - 1) ≤ signedNumber PROGMEM mem a₁ (m + 1) +
          signedNumber PROGMEM mem a₂ (m + 1) ∧
        signedNumber PROGMEM mem a₁ (m + 1) + signedNumber PROGMEM mem a₂ (m + 1) <
          2 ^ (8 * (m + 1) - 1)) ↔
      -128 ≤ signedDigit PROGMEM mem a₁ a₂ m ∧ signedDigit PROGMEM mem a₁ a₂ m < 128 := by
  have hlow : value 256 (digit 256 (sumDigits PROGMEM mem a₁ a₂)) m < 256 ^ m :=
    value_lt (by simp) fun i _ => digit_lt (by simp) _ i
  have hsum := value_digit 256 (sumDigits PROGMEM mem a₁ a₂) m
  rw [value_sumDigits] at hsum
  have hiff := signed_sum_iff (h := 128) (number_lt PROGMEM mem a₁ m) (number_lt PROGMEM mem a₂ m)
    hlow (byteAt_lt PROGMEM mem (a₁ + m)) (byteAt_lt PROGMEM mem (a₂ + m)) hsum.symm
  have hpow : (2 : Nat) ^ (8 * (m + 1)) = 256 ^ m * (2 * 128) := by
    rw [pow_256, Nat.pow_succ]
  have hhalf : (2 : Int) ^ (8 * (m + 1) - 1) = (256 ^ m : Nat) * (128 : Nat) := by
    rw [show 8 * (m + 1) - 1 = 8 * m + 7 by omega, pow_add, pow_mul]
    norm_num
  have hbmod : ∀ a, signedNumber PROGMEM mem a (m + 1) =
      Int.bmod (number PROGMEM mem a m + (256 ^ m : Nat) * byteAt PROGMEM mem (a + m))
        (256 ^ m * (2 * 128)) := by
    intro a
    unfold signedNumber
    rw [hpow]
    unfold number
    rw [value_succ]
    norm_cast
  rw [hhalf, hbmod, hbmod, hiff]
  unfold signedDigit
  rw [BitVec.toInt_eq_toNat_bmod, BitVec.toInt_eq_toNat_bmod]
  exact Iff.rfl

/-- A quotient that is a flag says whether the divisor fits. -/
theorem carry_eq_decide {C : Bool} {B N : Nat} (hB : 0 < B) (h : C.toNat = N / B) :
    C = decide (B ≤ N) := by
  by_cases hle : B ≤ N
  · have hone := (Nat.one_le_div_iff hB).mpr hle
    rw [decide_eq_true hle]
    cases C with
    | true => rfl
    | false =>
      rw [Bool.toNat_false] at h
      omega
  · rw [Nat.div_eq_of_lt (Nat.lt_of_not_le hle)] at h
    rw [decide_eq_false hle]
    cases C with
    | true =>
      rw [Bool.toNat_true] at h
      omega
    | false => rfl

theorem AddInvariant.sum {mem : Memory b} {p a₁ a₂ c n : Nat} {y : Machine b}
    (h : AddInvariant PROGMEM mem p a₁ a₂ c n y) (hn : 1 ≤ n) : Sum PROGMEM mem a₁ a₂ c n y := by
  obtain ⟨hmod, hdiv⟩ := value_digit_div (show 1 < 256 by simp) (sumDigits PROGMEM mem a₁ a₂) n
  rw [value_sumDigits, ← pow_256] at hmod hdiv
  have hnumber : number PROGMEM y.2 c n = value 256 (digit 256 (sumDigits PROGMEM mem a₁ a₂)) n :=
    value_congr h.digits
  obtain ⟨m, rfl⟩ := Nat.exists_eq_add_of_le' hn
  obtain ⟨hV, hZ, hN⟩ := h.flags m rfl
  refine ⟨hnumber.trans hmod, ?_, ?_, hZ, hN, h.same⟩
  · exact carry_eq_decide (Nat.two_pow_pos _) (h.carryIn.trans hdiv)
  · rw [hV, signedNumber_sum_iff]

/-- **Multi-byte addition**: from its first instruction the code runs to its end, and leaves the
    sum of the two numbers, its carry and its overflow. -/
theorem multiByteAdd {p a₁ a₂ c n : Nat} {x : Machine b} (hn : 1 ≤ n) (h₁ : a₁ + n ≤ 0x800)
    (h₂ : a₂ + n ≤ 0x800) (hc : c + n ≤ 0x800) (hac₁ : EqualOrDisjoint a₁ c n)
    (hac₂ : EqualOrDisjoint a₂ c n) (hcode : CodeAt PROGMEM p (addCode a₁ a₂ c n))
    (hpc : x.1.cpu.PC = .ofNat 16 p) :
    Leads (Next PROGMEM) (3 * n + 1) x (Sum PROGMEM x.2 a₁ a₂ c n) := by
  have hclc : At PROGMEM .clc x := by
    unfold At opcodeAt
    rw [hpc]
    exact hcode.peek PROGMEM x.2
  have hsafe : StepSafe PROGMEM x := by
    refine (stepSafe_iff PROGMEM hclc).mpr ⟨?_, ?_⟩ <;> intro h <;> cases h
  obtain ⟨hpc', hC, hsame⟩ := clc_step PROGMEM hclc
  refine leads_instruction PROGMEM hsafe fun y hy hm => ?_
  have hstart : AddInvariant PROGMEM x.2 (p + 1) a₁ a₂ c 0 y := by
    refine ⟨?_, ?_, ?_, ?_, ?_⟩
    · rw [hy, hpc']
      exact pc_next (k := 1) hpc
    · rw [hy, hC]
      rfl
    · intro i hi
      exact absurd hi (Nat.not_lt_zero i)
    · intro v _
      rw [hm, hsame]
    · intro j hj
      exact absurd hj (Nat.succ_ne_zero j).symm
  have hloop : Leads (Next PROGMEM) (3 * n) y (AddInvariant PROGMEM x.2 (p + 1) a₁ a₂ c n) := by
    refine Leads.loop (fun i hi z hz => ?_) hstart
    have hblock := (hcode.tail PROGMEM).block PROGMEM (m := 9) (fun _ => rfl) hi
    exact hz.block PROGMEM hi hblock h₁ h₂ hc hac₁ hac₂
  exact hloop.mono fun z hz => hz.sum PROGMEM hn

/-- Two 16-bit numbers, the sum over the first of them, from the first address of PRG ROM. -/
theorem multiByteAdd_word :
    Leads (Next (progmemOf (addCode 0x10 0x20 0x10 2))) 7
      (callStart { olc6502Init with PC := 0x8000 } false (⟨fun _ => 0xC3⟩ : Memory ⟨false⟩) 24)
      (Sum (progmemOf (addCode 0x10 0x20 0x10 2)) ⟨fun _ => 0xC3⟩ 0x10 0x20 0x10 2) :=
  multiByteAdd _ (n := 2) (by simp) (by simp) (by simp) (by simp) (.inl rfl) (.inr (.inr (by simp)))
    (codeAt_progmemOf (by decide)) rfl

end M6502
