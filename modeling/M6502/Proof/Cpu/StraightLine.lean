import M6502.Lib.Digits
import M6502.Lib.Leads
import M6502.Proof.Cpu.Family
import M6502.Proof.Cpu.Run

/-!
# Straight-line code in absolute mode

`CodeAt p code` says the program image holds `code` from address `p` on. For a list of
instructions in absolute mode it gives, one after the other, what a run needs of each: its
opcode and operand are where `PC` points, and its accesses stay inside the arrays
(`CodeAt.absolute`). `leads_instruction` is then the rule of one step.

Multi-byte numbers in RAM are `number`: the bytes the bus answers, lowest first.
-/

set_option autoImplicit false

namespace M6502

open Lib Cpu

variable {b : Build} (PROGMEM : Progmem)

/-! ## Code in the program image -/

/-- The program image holds `code` at the addresses from `p` on. -/
structure CodeAt (p : Nat) (code : List U8) : Prop where
  rom : 0x8000 ≤ p
  fits : p + code.length ≤ 0x10000
  bytes : ∀ k v, code[k]? = some v → progmemGet PROGMEM (p - 0x8000 + k) = some v

theorem CodeAt.tail {p : Nat} {v : U8} {code : List U8} (h : CodeAt PROGMEM p (v :: code)) :
    CodeAt PROGMEM (p + 1) code := by
  obtain ⟨hrom, hfits, hbytes⟩ := h
  simp only [List.length_cons] at hfits
  refine ⟨by omega, by omega, fun k w hk => ?_⟩
  rw [show p + 1 - 0x8000 + k = p - 0x8000 + (k + 1) by omega]
  exact hbytes (k + 1) w hk

theorem CodeAt.append {p : Nat} {code code' : List U8} (h : CodeAt PROGMEM p (code ++ code')) :
    CodeAt PROGMEM (p + code.length) code' := by
  induction code generalizing p with
  | nil => exact h
  | cons v code ih =>
    have htail := ih h.tail
    rw [List.length_cons, ← Nat.add_assoc, Nat.add_right_comm]
    exact htail

theorem CodeAt.drop {p k : Nat} {code : List U8} (h : CodeAt PROGMEM p code)
    (hk : k ≤ code.length) : CodeAt PROGMEM (p + k) (code.drop k) := by
  rw [← List.take_append_drop k code] at h
  have hdrop := h.append
  rwa [List.length_take, Nat.min_eq_left hk] at hdrop

theorem CodeAt.take {p : Nat} {code code' : List U8} (h : CodeAt PROGMEM p (code ++ code')) :
    CodeAt PROGMEM p code := by
  obtain ⟨hrom, hfits, hbytes⟩ := h
  simp only [List.length_append] at hfits
  refine ⟨hrom, by omega, fun k v hk => hbytes k v ?_⟩
  have hlt := (List.getElem?_eq_some_iff.mp hk).1
  rw [List.getElem?_append_left hlt, hk]

/-- Code made of blocks of one length. -/
theorem CodeAt.block {p m n k : Nat} {f : Nat → List U8} (hm : ∀ i, (f i).length = m)
    (h : CodeAt PROGMEM p ((List.range n).flatMap f)) (hk : k < n) :
    CodeAt PROGMEM (p + m * k) (f k) := by
  have hlen : ∀ j, ((List.range j).flatMap f).length = m * j := by
    intro j
    simp only [List.length_flatMap, hm, List.map_const', List.sum_replicate_nat,
      List.length_range, Nat.mul_comm]
  induction n with
  | zero => exact absurd hk (Nat.not_lt_zero k)
  | succ n ih =>
    -- the last block, or one of those before it
    simp only [List.range_succ, List.flatMap_append, List.flatMap_singleton] at h
    rcases Nat.lt_succ_iff_lt_or_eq.mp hk with hlt | rfl
    · exact ih h.take hlt
    · rw [← hlen k]
      exact h.append

theorem CodeAt.peek {p : Nat} {v : U8} {code : List U8} (h : CodeAt PROGMEM p (v :: code))
    (mem : Memory b) : M6502.peek PROGMEM mem (.ofNat 16 p) = v := by
  obtain ⟨hrom, hfits, hbytes⟩ := h
  simp only [List.length_cons] at hfits
  have hval := toNat_ofNat_address (show p < 0x10000 by omega)
  have hbyte := hbytes 0 v rfl
  rw [Nat.add_zero, ← hval, progmemGet_eq_peek PROGMEM mem (by omega)] at hbyte
  exact Option.some.inj hbyte

theorem CodeAt.peekWord {p : Nat} {w : U16} {code : List U8}
    (h : CodeAt PROGMEM p (w.setWidth 8 :: (w >>> 8).setWidth 8 :: code)) (mem : Memory b) :
    WordInBounds b (.ofNat 16 p) ∧ M6502.peekWord PROGMEM mem (.ofNat 16 p) = w := by
  have hrom := h.rom
  have hfits := h.fits
  simp only [List.length_cons] at hfits
  have hval := toNat_ofNat_address (show p < 0x10000 by omega)
  have hin : WordInBounds b (.ofNat 16 p) := by
    unfold WordInBounds
    rw [hval]
    omega
  have hnext : (BitVec.ofNat 16 p + 1 : U16) = .ofNat 16 (p + 1) := (BitVec.ofNat_add p 1).symm
  have hword := busReadWord_val PROGMEM mem hin
  rw [busReadWord_eq, if_pos hin, Option.some_inj, secondByte, hval, if_neg (by omega), hnext,
    h.peek, h.tail.peek, word_bytes] at hword
  exact ⟨hin, hword⟩

/-- The image that begins with `code`. -/
def progmemOf (code : List U8) : Progmem := fun i => code.getD i 0

theorem codeAt_progmemOf {code : List U8} (h : code.length ≤ 0x8000) :
    CodeAt (progmemOf code) 0x8000 code := by
  refine ⟨Nat.le_refl _, by omega, fun k v hk => ?_⟩
  have hlt := (List.getElem?_eq_some_iff.mp hk).1
  unfold progmemGet progmemOf
  rw [Nat.sub_self, Nat.zero_add, dif_pos (by omega), List.getD_eq_getElem?_getD, hk,
    Option.getD_some]

/-- An opcode and the byte after it. -/
theorem CodeAt.operand {p : Nat} {i : Ins} {v : U8} {code : List U8} {x : Machine b}
    (h : CodeAt PROGMEM p (i.opcode :: v :: code)) (hpc : x.1.cpu.PC = .ofNat 16 p) :
    At PROGMEM i x ∧ operandByte PROGMEM x = v := by
  have hoperand : operandAt x = .ofNat 16 (p + 1) := by
    unfold operandAt
    rw [hpc]
    exact (BitVec.ofNat_add p 1).symm
  constructor
  · unfold At opcodeAt
    rw [hpc]
    exact h.peek PROGMEM x.2
  · unfold operandByte
    rw [hoperand]
    exact h.tail.peek PROGMEM x.2

/-! ## Instructions in absolute mode -/

/-- The bytes of an instruction in absolute mode. -/
def absolute (q : Ins × U16) : List U8 :=
  [q.1.opcode, q.2.setWidth 8, (q.2 >>> 8).setWidth 8]

/-- The next instruction is `i`, and its operand word, in bounds, is `w`. -/
structure AtAbsolute (q : Ins × U16) (x : Machine b) : Prop where
  opcode : At PROGMEM q.1 x
  inBounds : WordInBounds b (operandAt x)
  operand : operandWord PROGMEM x = q.2

theorem CodeAt.absolute {p : Nat} {q : Ins × U16} {code : List U8} {x : Machine b}
    (h : CodeAt PROGMEM p (M6502.absolute q ++ code)) (hpc : x.1.cpu.PC = .ofNat 16 p) :
    AtAbsolute PROGMEM q x := by
  have hoperand : operandAt x = .ofNat 16 (p + 1) := by
    unfold operandAt
    rw [hpc]
    exact (BitVec.ofNat_add p 1).symm
  obtain ⟨hin, hword⟩ := h.tail.peekWord PROGMEM x.2
  refine ⟨?_, hoperand ▸ hin, ?_⟩
  · unfold At opcodeAt
    rw [hpc]
    exact h.peek PROGMEM x.2
  · unfold operandWord
    rw [hoperand]
    exact hword

theorem AtAbsolute.effectiveAddress {q : Ins × U16} {x : Machine b} (h : AtAbsolute PROGMEM q x) :
    M6502.effectiveAddress PROGMEM .absolute x = q.2 := h.operand

theorem AtAbsolute.stepSafe {q : Ins × U16} {x : Machine b} (h : AtAbsolute PROGMEM q x)
    (hm : q.1.mode = .absolute) (hlow : q.2.toNat < 0x8000) : StepSafe PROGMEM x := by
  refine (stepSafe_iff PROGMEM h.opcode).mpr ⟨fun _ => h.inBounds, fun _ => ?_⟩
  rw [hm, h.effectiveAddress]
  exact storeInBounds_of_lt hlow

theorem ldaAbs_step {w : U16} {x : Machine b} (h : AtAbsolute PROGMEM (.ldaAbs, w) x) :
    (stepOf PROGMEM x).1.cpu = (x.1.cpu.past 3).loaded .A (peek PROGMEM x.2 w) ∧
      (stepOf PROGMEM x).2 = x.2 := by
  obtain rfl : operandWord PROGMEM x = w := h.operand
  have hcpu := stepOf_effect PROGMEM h.opcode rfl
  simp only [Effect.codeCpu, Olc6502.advanced_eq, Olc6502.updated_eq] at hcpu
  rw [hcpu, stepOf_mem PROGMEM h.opcode]
  exact ⟨rfl, rfl⟩

theorem staAbs_step {w : U16} {x : Machine b} (h : AtAbsolute PROGMEM (.staAbs, w) x) :
    (stepOf PROGMEM x).1.cpu = x.1.cpu.past 3 ∧ (stepOf PROGMEM x).2 = poke x.2 w x.1.cpu.A := by
  obtain rfl : operandWord PROGMEM x = w := h.operand
  have hcpu := stepOf_effect PROGMEM h.opcode rfl
  simp only [Effect.codeCpu, Olc6502.advanced_eq] at hcpu
  rw [hcpu, stepOf_mem PROGMEM h.opcode]
  exact ⟨rfl, rfl⟩

theorem pc_next {p k : Nat} {pc : U16} (h : pc = .ofNat 16 p) :
    pc + .ofNat 16 k = .ofNat 16 (p + k) := by
  rw [h, BitVec.ofNat_add]

/-- **The rule of one step**: where the next instruction is safe, it leads to whatever holds of
    every state with the CPU and the memory it leaves. -/
theorem leads_instruction {k : Nat} {x : Machine b} {Q : Machine b → Prop}
    (hs : StepSafe PROGMEM x)
    (h : ∀ y : Machine b, y.1.cpu = (stepOf PROGMEM x).1.cpu → y.2 = (stepOf PROGMEM x).2 →
      Leads (Next PROGMEM) k y Q) : Leads (Next PROGMEM) (k + 1) x Q := by
  refine .step ⟨_, .of_safe PROGMEM hs⟩ fun y hy => ?_
  obtain ⟨hcpu, hmem⟩ := hy.stepOf PROGMEM
  exact h y hcpu hmem

/-! ## Numbers in RAM -/

/-- The byte at an address, as a digit. -/
def byteAt (mem : Memory b) (a : Nat) : Nat := (peek PROGMEM mem (.ofNat 16 a)).toNat

/-- The `n`-byte little-endian number at `a`. -/
def number (mem : Memory b) (a n : Nat) : Nat := value 256 (fun i => byteAt PROGMEM mem (a + i)) n

/-- Read in two's complement. -/
def signedNumber (mem : Memory b) (a n : Nat) : Int :=
  Int.bmod (number PROGMEM mem a n) (2 ^ (8 * n))

/-- No byte differs but those of the cells `a`, …, `a + n - 1` of RAM. -/
def SameOutside (a n : Nat) (mem mem' : Memory b) : Prop :=
  ∀ v : U16, (∀ i < n, cellIndex b v ≠ a + i) → peek PROGMEM mem' v = peek PROGMEM mem v

theorem byteAt_lt (mem : Memory b) (a : Nat) : byteAt PROGMEM mem a < 256 :=
  (peek PROGMEM mem (.ofNat 16 a)).isLt

theorem number_lt (mem : Memory b) (a n : Nat) : number PROGMEM mem a n < 256 ^ n :=
  value_lt (by simp) fun i _ => byteAt_lt PROGMEM mem (a + i)

theorem pow_256 (n : Nat) : 2 ^ (8 * n) = 256 ^ n := Nat.pow_mul 2 8 n

/-- A store at the cell after them. -/
theorem SameOutside.poke {a n : Nat} {mem mem' : Memory b} (h : SameOutside PROGMEM a n mem mem')
    (v : U8) (ha : a + n < 0x800) :
    SameOutside PROGMEM a (n + 1) mem (M6502.poke mem' (.ofNat 16 (a + n)) v) := by
  intro u hu
  have hne := hu n (Nat.lt_succ_self n)
  rw [peek_poke_of_ne PROGMEM mem' v fun _ => ?_]
  · exact h u fun i hi => hu i (Nat.lt_succ_of_lt hi)
  · rw [cellIndex_ram ha]
    exact Ne.symm hne

theorem toNat_ram_lt {a : Nat} (h : a < 0x800) : (BitVec.ofNat 16 a).toNat < 0x8000 := by
  rw [BitVec.toNat_ofNat]
  omega

theorem byteAt_poke_same {mem : Memory b} {a : Nat} (v : U8) (h : a < 0x800) :
    byteAt PROGMEM (poke mem (.ofNat 16 a) v) a = v.toNat := by
  unfold byteAt
  rw [peek_poke_same PROGMEM mem v (toNat_ram_lt h) rfl]

theorem byteAt_poke_of_ne {mem : Memory b} {a a' : Nat} (v : U8) (h : a < 0x800) (h' : a' < 0x800)
    (hne : a ≠ a') :
    byteAt PROGMEM (poke mem (.ofNat 16 a) v) a' = byteAt PROGMEM mem a' := by
  unfold byteAt
  rw [peek_poke_of_ne PROGMEM mem v fun _ => ?_]
  rw [cellIndex_ram h, cellIndex_ram h']
  exact hne

end M6502
