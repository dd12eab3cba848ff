import M6502.Proof.Cpu.StraightLine

/-!
# Multi-byte shifts

`ASL` on the lowest byte and `ROL` on the others shift a number left, `LSR` on the highest and
`ROR` on the others shift it right. Both are one loop: round `k` works on byte `pos k`, takes
the carry `κ k` in and hands `κ (k + 1)` on (`ShiftPlan.run`). What is left of a number is
`Lib.value_digit_div` one way and `Lib.value_chain` the other.
-/

set_option autoImplicit false

namespace M6502

open Lib Cpu

variable {b : Build} (PROGMEM : Progmem)

/-! ## The programs -/

/-- `ASL a`, `ROL a+1`, …, `ROL a+n-1`. -/
def shiftLeftCode (a n : Nat) : List U8 :=
  (List.range n).flatMap fun k => absolute (if k = 0 then .aslAbs else .rolAbs, .ofNat 16 (a + k))

/-- `LSR a+n-1`, `ROR a+n-2`, …, `ROR a`. -/
def shiftRightCode (a n : Nat) : List U8 :=
  (List.range n).flatMap fun k =>
    absolute (if k = 0 then .lsrAbs else .rorAbs, .ofNat 16 (a + (n - 1 - k)))

/-! ## One shift -/

/-- The flags after the shift group has shifted `v`. -/
def Olc6502.shifted (cpu : Olc6502) (aaa v : U8) : Olc6502 :=
  let r := shiftResult aaa cpu.PS.C v
  { cpu with PS := { cpu.PS with C := r.2, Z := r.1 == 0, N := r.1 &&& 0x80 != 0 } }

theorem stepOf_shift {i : Ins} {x : Machine b} (h : At PROGMEM i x) (hg : i.group = .shift)
    (hm : i.mode ≠ .accumulator) :
    (stepOf PROGMEM x).1.cpu =
        (x.1.cpu.advanced i.mode.length).shifted (fieldAaa i.opcode)
          (peek PROGMEM x.2 (effectiveAddress PROGMEM i.mode x)) ∧
      (stepOf PROGMEM x).2 = poke x.2 (effectiveAddress PROGMEM i.mode x)
        (shiftResult (fieldAaa i.opcode) x.1.cpu.PS.C
          (peek PROGMEM x.2 (effectiveAddress PROGMEM i.mode x))).1 := by
  rw [stepOf_mem PROGMEM h, stepOf_arms PROGMEM h]
  cases i <;> first | exact absurd hg (by decide) | exact absurd rfl hm | exact ⟨rfl, rfl⟩

theorem shiftAbs_step {i : Ins} {w : U16} {x : Machine b} (h : AtAbsolute PROGMEM (i, w) x)
    (hg : i.group = .shift) (hm : i.mode = .absolute) :
    (stepOf PROGMEM x).1.cpu = (x.1.cpu.past 3).shifted (fieldAaa i.opcode) (peek PROGMEM x.2 w) ∧
      (stepOf PROGMEM x).2 =
        poke x.2 w (shiftResult (fieldAaa i.opcode) x.1.cpu.PS.C (peek PROGMEM x.2 w)).1 := by
  obtain rfl : operandWord PROGMEM x = w := h.operand
  have hstep := stepOf_shift PROGMEM h.opcode hg (by simp [hm])
  rw [Olc6502.advanced_eq, hm] at hstep
  exact hstep

/-- What the four operations do to a byte and the carry. -/
theorem shiftResult_bytes : ∀ (C : Bool) (v : U8),
    ((shiftResult 0 C v).1.toNat = 2 * v.toNat % 256 ∧
      (shiftResult 0 C v).2.toNat = 2 * v.toNat / 256) ∧
    ((shiftResult 1 C v).1.toNat = (2 * v.toNat + C.toNat) % 256 ∧
      (shiftResult 1 C v).2.toNat = (2 * v.toNat + C.toNat) / 256) ∧
    ((shiftResult 2 C v).1.toNat = v.toNat / 2 ∧ (shiftResult 2 C v).2.toNat = v.toNat % 2) ∧
    ((shiftResult 3 C v).1.toNat = (v.toNat + 256 * C.toNat) / 2 ∧
      (shiftResult 3 C v).2.toNat = v.toNat % 2) := by
  decide +kernel

/-! ## The loop -/

/-- The plan of a shift of the `n` bytes `f`: round `k` executes `ins k` on byte `pos k`, and
    leaves `out k` there and `κ (k + 1)` in the carry. -/
structure ShiftPlan (f : Nat → Nat) (n : Nat) (ins : Nat → Ins) (pos out κ : Nat → Nat) : Prop where
  group : ∀ k, (ins k).group = .shift
  mode : ∀ k, (ins k).mode = .absolute
  pos_lt : ∀ k < n, pos k < n
  pos_inj : ∀ j < n, ∀ k < n, pos j = pos k → j = k
  rule : ∀ k < n, ∀ (C : Bool) (v : U8), (k ≠ 0 → C.toNat = κ k) → v.toNat = f (pos k) →
    (shiftResult (fieldAaa (ins k).opcode) C v).1.toNat = out k ∧
      (shiftResult (fieldAaa (ins k).opcode) C v).2.toNat = κ (k + 1)

/-- `y` has the registers of `x`, and its `V`. -/
structure SameRegisters (x y : Machine b) : Prop where
  A : y.1.cpu.A = x.1.cpu.A
  X : y.1.cpu.X = x.1.cpu.X
  Y : y.1.cpu.Y = x.1.cpu.Y
  SP : y.1.cpu.SP = x.1.cpu.SP
  V : y.1.cpu.PS.V = x.1.cpu.PS.V

/-- After `k` rounds of a shift of the bytes at `a`, started in `x` at `p`. -/
structure ShiftInvariant (x : Machine b) (p a n : Nat) (pos out κ : Nat → Nat) (k : Nat)
    (z : Machine b) : Prop where
  pc : z.1.cpu.PC = .ofNat 16 (p + 3 * k)
  carryIn : k ≠ 0 → z.1.cpu.PS.C.toNat = κ k
  bytes : ∀ j < n,
    byteAt PROGMEM z.2 (a + pos j) = if j < k then out j else byteAt PROGMEM x.2 (a + pos j)
  registers : SameRegisters x z
  same : SameOutside PROGMEM a n x.2 z.2

section

variable {x : Machine b} {p a n : Nat} {ins : Nat → Ins} {pos out κ : Nat → Nat}
variable (plan : ShiftPlan (fun i => byteAt PROGMEM x.2 (a + i)) n ins pos out κ)
include plan

/-- **One byte of a shift.** -/
theorem ShiftPlan.round {k : Nat} {z : Machine b}
    (h : ShiftInvariant PROGMEM x p a n pos out κ k z) (hk : k < n) (ha : a + n ≤ 0x800)
    (hcode : CodeAt PROGMEM (p + 3 * k) (absolute (ins k, .ofNat 16 (a + pos k)))) :
    Leads (Next PROGMEM) 1 z (ShiftInvariant PROGMEM x p a n pos out κ (k + 1)) := by
  have hpos := plan.pos_lt k hk
  -- `CodeAt.absolute` wants something after the instruction
  rw [← List.append_nil (absolute _)] at hcode
  have hat := hcode.absolute PROGMEM h.pc
  obtain ⟨hcpu, hmem⟩ := shiftAbs_step PROGMEM hat (plan.group k) (plan.mode k)
  have hsafe := hat.stepSafe PROGMEM (plan.mode k) (toNat_ram_lt (by omega))
  refine leads_instruction PROGMEM hsafe fun y hy hm => .done ?_
  rw [hcpu] at hy
  rw [hmem] at hm
  have hbyte : byteAt PROGMEM z.2 (a + pos k) = byteAt PROGMEM x.2 (a + pos k) := by
    rw [h.bytes k hk, if_neg (Nat.lt_irrefl k)]
  obtain ⟨hout, hC⟩ := plan.rule k hk z.1.cpu.PS.C _ h.carryIn hbyte
  obtain ⟨hA, hX, hY, hSP, hV⟩ := h.registers
  refine ⟨?_, ?_, ?_, ?_, ?_⟩
  · rw [hy]
    exact pc_next h.pc
  · intro _
    rw [hy]
    exact hC
  · intro j hj
    have hposj := plan.pos_lt j hj
    rw [hm]
    by_cases hjk : j = k
    · subst hjk
      rw [byteAt_poke_same PROGMEM _ (by omega), if_pos (Nat.lt_succ_self j)]
      exact hout
    · have hne : pos j ≠ pos k := fun he => hjk (plan.pos_inj j hj k hk he)
      have hiff : j < k ↔ j < k + 1 := by omega
      rw [byteAt_poke_of_ne PROGMEM _ (by omega) (by omega) (by omega), h.bytes j hj]
      simp only [hiff]
  · exact ⟨by rw [hy]; exact hA, by rw [hy]; exact hX, by rw [hy]; exact hY,
      by rw [hy]; exact hSP, by rw [hy]; exact hV⟩
  · intro u hu
    rw [hm, peek_poke_of_ne PROGMEM z.2 _ fun _ => ?_]
    · exact h.same u hu
    · rw [cellIndex_ram (by omega)]
      exact Ne.symm (hu (pos k) hpos)

theorem ShiftPlan.run (ha : a + n ≤ 0x800)
    (hcode : CodeAt PROGMEM p
      ((List.range n).flatMap fun k => absolute (ins k, .ofNat 16 (a + pos k))))
    (hpc : x.1.cpu.PC = .ofNat 16 p) :
    Leads (Next PROGMEM) n x (ShiftInvariant PROGMEM x p a n pos out κ n) := by
  have hstart : ShiftInvariant PROGMEM x p a n pos out κ 0 x :=
    ⟨hpc, fun h => absurd rfl h, fun _ _ => rfl, ⟨rfl, rfl, rfl, rfl, rfl⟩, fun _ _ => rfl⟩
  have hloop : Leads (Next PROGMEM) (1 * n) x (ShiftInvariant PROGMEM x p a n pos out κ n) :=
    Leads.loop (fun k hk z hz => plan.round PROGMEM hz hk ha
      (hcode.block PROGMEM (m := 3) (fun _ => rfl) hk)) hstart
  rwa [Nat.one_mul] at hloop

end

/-! ## The two directions -/

/-- `y` follows `x`, with `result` in the bytes at `a`, `C` as given and nothing else changed. -/
structure Shifted (x : Machine b) (a n result : Nat) (C : Bool) (y : Machine b) : Prop where
  number : number PROGMEM y.2 a n = result
  C : y.1.cpu.PS.C = C
  registers : SameRegisters x y
  same : SameOutside PROGMEM a n x.2 y.2

/-- To the left, each byte is doubled and the carry added: the digits of the number added to
    itself. -/
theorem shiftLeftPlan (f : Nat → Nat) (n : Nat) :
    ShiftPlan f n (fun k => if k = 0 then .aslAbs else .rolAbs) (fun k => k)
      (digit 256 fun i => 2 * f i) (carry 256 fun i => 2 * f i) := by
  refine ⟨?_, ?_, fun k hk => hk, fun j _ k _ h => h, ?_⟩
  · intro k
    split <;> rfl
  · intro k
    split <;> rfl
  · intro k hk C v hC hv
    obtain ⟨⟨hout, hcarry⟩, ⟨hout', hcarry'⟩, -⟩ := shiftResult_bytes C v
    have hasl : fieldAaa Ins.aslAbs.opcode = 0 := by decide
    have hrol : fieldAaa Ins.rolAbs.opcode = 1 := by decide
    cases k with
    | zero =>
      simp only [if_true, hasl]
      rw [hout, hcarry, hv]
      exact ⟨rfl, rfl⟩
    | succ k =>
      simp only [Nat.succ_ne_zero, if_false, hrol]
      rw [hout', hcarry', hC (Nat.succ_ne_zero k), hv]
      exact ⟨rfl, rfl⟩

/-- To the right, from the highest byte down, each byte is halved with the bit above it. -/
theorem shiftRightPlan (f : Nat → Nat) (n : Nat) :
    ShiftPlan f n (fun k => if k = 0 then .lsrAbs else .rorAbs) (fun k => n - 1 - k)
      (fun k => (f (n - 1 - k) + 256 * if k = 0 then 0 else f (n - k) % 2) / 2)
      (fun k => f (n - k) % 2) := by
  refine ⟨?_, ?_, fun k hk => by omega, fun j hj k hk h => by omega, ?_⟩
  · intro k
    split <;> rfl
  · intro k
    split <;> rfl
  · intro k hk C v hC hv
    obtain ⟨-, -, ⟨hout, hcarry⟩, ⟨hout', hcarry'⟩⟩ := shiftResult_bytes C v
    have hlsr : fieldAaa Ins.lsrAbs.opcode = 2 := by decide
    have hror : fieldAaa Ins.rorAbs.opcode = 3 := by decide
    have hsub : n - (k + 1) = n - 1 - k := by omega
    rw [hsub]
    by_cases h0 : k = 0
    · simp only [if_pos h0, hlsr]
      rw [hout, hcarry, hv]
      exact ⟨rfl, rfl⟩
    · simp only [if_neg h0, hror]
      rw [hout', hcarry', hC h0, hv]
      exact ⟨rfl, rfl⟩

theorem bool_eq_of_toNat {C : Bool} {v : Nat} (h : C.toNat = v % 2) : C = v.testBit 0 := by
  rw [Nat.testBit_zero, ← h]
  cases C <;> rfl

theorem ShiftInvariant.left {x y : Machine b} {p a n : Nat}
    (h : ShiftInvariant PROGMEM x p a n (fun k => k)
      (digit 256 fun i => 2 * byteAt PROGMEM x.2 (a + i))
      (carry 256 fun i => 2 * byteAt PROGMEM x.2 (a + i)) n y) (hn : 1 ≤ n) :
    Shifted PROGMEM x a n (2 * number PROGMEM x.2 a n % 2 ^ (8 * n))
      ((number PROGMEM x.2 a n).testBit (8 * n - 1)) y := by
  have hvalue : value 256 (fun i => 2 * byteAt PROGMEM x.2 (a + i)) n =
      2 * number PROGMEM x.2 a n := value_mul 256 2 _ n
  obtain ⟨hmod, hdiv⟩ :=
    value_digit_div (show 1 < 256 by simp) (fun i => 2 * byteAt PROGMEM x.2 (a + i)) n
  rw [hvalue, ← pow_256] at hmod hdiv
  have hdouble : 2 ^ (8 * n) = 2 * 2 ^ (8 * n - 1) := by
    rw [← Nat.pow_succ', Nat.succ_eq_add_one, Nat.sub_add_cancel (by omega)]
  refine ⟨?_, ?_, h.registers, h.same⟩
  · rw [← hmod]
    exact value_congr fun i hi => (h.bytes i hi).trans (if_pos hi)
  · have hlt := number_lt PROGMEM x.2 a n
    rw [← pow_256, hdouble] at hlt
    -- the carry out is the number over its highest place, a single bit
    have hbit : number PROGMEM x.2 a n / 2 ^ (8 * n - 1) < 2 :=
      Nat.div_lt_of_lt_mul (by rwa [Nat.mul_comm])
    have hC := h.carryIn (by omega)
    rw [hdiv, hdouble, Nat.mul_div_mul_left _ _ (by simp), ← Nat.mod_eq_of_lt hbit] at hC
    rw [bool_eq_of_toNat hC, Nat.testBit_div_two_pow, Nat.zero_add]

theorem ShiftInvariant.right {x y : Machine b} {p a n : Nat}
    (h : ShiftInvariant PROGMEM x p a n (fun k => n - 1 - k)
      (fun k => (byteAt PROGMEM x.2 (a + (n - 1 - k)) +
        256 * if k = 0 then 0 else byteAt PROGMEM x.2 (a + (n - k)) % 2) / 2)
      (fun k => byteAt PROGMEM x.2 (a + (n - k)) % 2) n y) (hn : 1 ≤ n) :
    Shifted PROGMEM x a n (number PROGMEM x.2 a n / 2) ((number PROGMEM x.2 a n).testBit 0) y := by
  -- the bit each byte hands down, nothing coming into the highest
  let κ : Nat → Nat := fun i => if i = n then 0 else byteAt PROGMEM x.2 (a + i) % 2
  have hbyte : ∀ i < n, byteAt PROGMEM y.2 (a + i) =
      (byteAt PROGMEM x.2 (a + i) + 256 * κ (i + 1)) / 2 := by
    intro i hi
    have hb := h.bytes (n - 1 - i) (by omega)
    rw [if_pos (by omega), show n - 1 - (n - 1 - i) = i by omega,
      show n - (n - 1 - i) = i + 1 by omega] at hb
    rw [hb]
    by_cases htop : i + 1 = n
    · simp only [κ, if_pos htop, if_pos (show n - 1 - i = 0 by omega)]
    · simp only [κ, if_neg htop, if_neg (show n - 1 - i ≠ 0 by omega)]
  have hchain : number PROGMEM x.2 a n + 256 ^ n * κ n =
      value 256 (fun i => 2 * byteAt PROGMEM y.2 (a + i)) n + κ 0 := by
    refine value_chain fun i hi => ?_
    have hκ : κ i = byteAt PROGMEM x.2 (a + i) % 2 := if_neg (by omega)
    rw [hbyte i hi, hκ]
    omega
  have hvalue : value 256 (fun i => 2 * byteAt PROGMEM y.2 (a + i)) n =
      2 * number PROGMEM y.2 a n := value_mul 256 2 _ n
  have hκn : κ n = 0 := if_pos rfl
  have hκ0 : κ 0 = byteAt PROGMEM x.2 a % 2 := if_neg (by omega)
  rw [hvalue, hκn, hκ0, Nat.mul_zero, Nat.add_zero] at hchain
  refine ⟨by omega, bool_eq_of_toNat ?_, h.registers, h.same⟩
  have hC := h.carryIn (by omega)
  rw [Nat.sub_self, Nat.add_zero] at hC
  omega

/-- **Multi-byte shifts**: from its first instruction the code runs to its end, and leaves the
    number shifted by one bit, the bit shifted out in `C`. -/
theorem multiByteShift {p a n : Nat} {x : Machine b} (hn : 1 ≤ n) (ha : a + n ≤ 0x800)
    (hpc : x.1.cpu.PC = .ofNat 16 p) :
    (CodeAt PROGMEM p (shiftLeftCode a n) →
      Leads (Next PROGMEM) n x
        (Shifted PROGMEM x a n (2 * number PROGMEM x.2 a n % 2 ^ (8 * n))
          ((number PROGMEM x.2 a n).testBit (8 * n - 1)))) ∧
    (CodeAt PROGMEM p (shiftRightCode a n) →
      Leads (Next PROGMEM) n x
        (Shifted PROGMEM x a n (number PROGMEM x.2 a n / 2)
          ((number PROGMEM x.2 a n).testBit 0))) := by
  constructor
  · intro hcode
    exact ((shiftLeftPlan _ n).run PROGMEM ha hcode hpc).mono fun y hy => hy.left PROGMEM hn
  · intro hcode
    exact ((shiftRightPlan _ n).run PROGMEM ha hcode hpc).mono fun y hy => hy.right PROGMEM hn

/-- A 16-bit number at `0x24`, both ways, from the first address of PRG ROM. -/
def shiftState : Machine ⟨false⟩ :=
  callStart { olc6502Init with PC := 0x8000 } false ⟨fun _ => 0xC3⟩ 12

theorem multiByteShift_word :
    Leads (Next (progmemOf (shiftLeftCode 0x24 2))) 2 shiftState
      (Shifted (progmemOf (shiftLeftCode 0x24 2)) shiftState 0x24 2 0x8786 true) ∧
    Leads (Next (progmemOf (shiftRightCode 0x24 2))) 2 shiftState
      (Shifted (progmemOf (shiftRightCode 0x24 2)) shiftState 0x24 2 0x61E1 true) :=
  ⟨(multiByteShift _ (n := 2) (by simp) (by simp) rfl).1 (codeAt_progmemOf (by decide)),
    (multiByteShift _ (n := 2) (by simp) (by simp) rfl).2 (codeAt_progmemOf (by decide))⟩

end M6502
