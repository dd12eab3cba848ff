import M6502.Proof.Monitor.Print

/-!
# What the monitor reads

From `NEXTITEM` a number typed in hexadecimal is read into `L` and `H`: one round of `HEXSHIFT`
shifts a bit in, four of them a digit (`digit_step`), and by induction on the text the loop at
`NEXTHEX` leaves its value modulo 65536 (`digits`). What stops it is the first character that is
no digit.
-/

set_option autoImplicit false

namespace M6502

open Lib Cpu Isa

namespace Monitor

variable {b : Build} {PROGMEM : Progmem}

/-! ## Characters -/

/-- What the code makes of a character, and of one that is not `0` to `9`. -/
def figure (v : U8) : U8 := v ^^^ 0x30
def letter (v : U8) : U8 := .ofNat 8 ((figure v).toNat + 0x88 + 1)

/-- The overflow of that sum. -/
def overflows (v : U8) : Bool :=
  decide ((figure v).toInt + (0x88 : U8).toInt + 1 < -128 ∨
    128 ≤ (figure v).toInt + (0x88 : U8).toInt + 1)

/-- The characters the monitor takes for digits: no small letters. -/
def IsDigit (c : Char) : Prop := ∃ d < 16, c = hexUpper d

theorem figure_digit : ∀ d < 16, (figure (asciiByte (hexUpper d))).toNat < 0x0A →
    (figure (asciiByte (hexUpper d))).toNat % 16 = d := by
  decide

theorem letter_digit : ∀ d < 16, ¬ (figure (asciiByte (hexUpper d))).toNat < 0x0A →
    0xFA ≤ (letter (asciiByte (hexUpper d))).toNat ∧
      (letter (asciiByte (hexUpper d))).toNat % 16 = d := by
  decide

/-- A character that is none ends a number. -/
def NotDigit (v : U8) : Prop := ∀ d < 16, v ≠ asciiByte (hexUpper d)

instance (v : U8) : Decidable (NotDigit v) := inferInstanceAs (Decidable (∀ d < 16, _))

theorem letter_end : ∀ v : U8, NotDigit v → 0x0A ≤ (figure v).toNat ∧ (letter v).toNat < 0xFA := by
  decide +kernel

/-- In ASCII the sum that recognises it does not overflow. -/
def EndsNumber (v : U8) : Prop := v.toNat < 0x80 ∧ NotDigit v

theorem overflows_ascii (v : U8) (h : v.toNat < 0x80) : overflows v = false := by
  have hlt : (v ^^^ 0x30).toNat < 2 ^ 7 := by
    rw [BitVec.toNat_xor]
    exact Nat.xor_lt_two_pow h (by decide)
  have hterm : (0x88 : U8).toInt = -120 := by decide
  unfold overflows figure
  rw [decide_eq_false_iff_not, BitVec.toInt_eq_toNat_of_lt (by omega)]
  omega

/-- A digit is none of the characters that mean something at `NEXTITEM`. -/
theorem digit_item : ∀ d < 16, ((asciiByte (hexUpper d)) - 0x0D == 0) = false ∧
    (!decide (0x2E ≤ (asciiByte (hexUpper d)).toNat)) = false ∧
    ((asciiByte (hexUpper d)) - 0x2E == 0) = false ∧
    ((asciiByte (hexUpper d)) - 0x3A == 0) = false ∧
    ((asciiByte (hexUpper d)) - 0x52 == 0) = false := by
  decide

/-! ## The number read -/

/-- `H` and `L` hold `n` modulo 65536, and no other byte differs. -/
structure Parsed (PROGMEM : Progmem) (mem₀ : Memory b) (n : Nat) (mem : Memory b) : Prop where
  value : (peek PROGMEM mem L).toNat + 256 * (peek PROGMEM mem H).toNat = n % 65536
  kept : ∀ a : U16, cellIndex b a ≠ cellIndex b L → cellIndex b a ≠ cellIndex b H →
    peek PROGMEM mem a = peek PROGMEM mem₀ a

/-- Cell `y` of `IN`. -/
def inCell (y : Nat) : U16 := .ofNat 16 (0x200 + y)

theorem inCell_eq {y : Nat} (hy : y < 256) :
    inBuffer + (BitVec.ofNat 8 y).setWidth 16 = inCell y := by
  unfold inCell inBuffer
  apply BitVec.eq_of_toNat_eq
  rw [BitVec.toNat_add, BitVec.toNat_setWidth, BitVec.toNat_ofNat, BitVec.toNat_ofNat]
  show (512 + y % 256 % 65536) % 65536 = (0x200 + y) % 65536
  omega

theorem cellIndex_inCell {y : Nat} (hy : y < 256) : cellIndex b (inCell y) = 0x200 + y :=
  cellIndex_ram (by omega)

theorem cellIndex_L : cellIndex b L = 0x28 := rfl
theorem cellIndex_H : cellIndex b H = 0x29 := rfl
theorem cellIndex_YSAV : cellIndex b YSAV = 0x2A := rfl

theorem Parsed.kept_in {mem₀ mem : Memory b} {n y : Nat} (hm : Parsed PROGMEM mem₀ n mem)
    (hy : y < 256) : peek PROGMEM mem (inCell y) = peek PROGMEM mem₀ (inCell y) := by
  refine hm.kept _ ?_ ?_
  · rw [cellIndex_inCell hy, cellIndex_L]
    omega
  · rw [cellIndex_inCell hy, cellIndex_H]
    omega

/-- After a number: `H` and `L` hold it, `YSAV` where it began. -/
structure Read (PROGMEM : Progmem) (mem₀ : Memory b) (y n : Nat) (mem : Memory b) : Prop where
  value : (peek PROGMEM mem L).toNat + 256 * (peek PROGMEM mem H).toNat = n % 65536
  start : peek PROGMEM mem YSAV = .ofNat 8 y
  kept : ∀ a : U16, cellIndex b a ∉ [0x28, 0x29, 0x2A] →
    peek PROGMEM mem a = peek PROGMEM mem₀ a

theorem toNat_rol : ∀ (C : Bool) (v : U8),
    (Op.rol.shift C v).1.toNat = (2 * v.toNat + C.toNat) % 256 ∧
      (v.getLsbD 7).toNat = v.toNat / 128 := by
  decide +kernel

attribute [local irreducible] storeByte

variable {mem₀ mem : Memory b} {n : Nat}

/-- A bit shifted into `L`, and what comes out there into `H`. -/
theorem Parsed.rol (hm : Parsed PROGMEM mem₀ n mem) (C : Bool) :
    let mem₁ := storeByte mem L (Op.rol.shift C (peek PROGMEM mem L)).1
    Parsed PROGMEM mem₀ (2 * n + C.toNat) (storeByte mem₁ H
      (Op.rol.shift ((peek PROGMEM mem L).getLsbD 7) (peek PROGMEM mem₁ H)).1) := by
  intro mem₁
  have hlow : (L : U16).toNat < 0x8000 := by decide
  have hhigh : (H : U16).toNat < 0x8000 := by decide
  have hne : cellIndex b H ≠ cellIndex b L := by
    rw [cellIndex_L, cellIndex_H]
    decide
  have hH : peek PROGMEM mem₁ H = peek PROGMEM mem H := peek_storeByte_of_ne mem _ hlow hne
  constructor
  · rw [peek_storeByte_same _ _ hhigh, peek_storeByte_of_ne _ _ hhigh hne.symm, hH,
      peek_storeByte_same _ _ hlow, (toNat_rol C _).1, (toNat_rol _ (peek PROGMEM mem H)).1,
      (toNat_rol C (peek PROGMEM mem L)).2]
    have hvalue := hm.value
    have hL := (peek PROGMEM mem L).isLt
    have hC := C.toNat_le
    omega
  · intro a haL haH
    rw [peek_storeByte_of_ne _ _ hhigh haH, peek_storeByte_of_ne _ _ hlow haL]
    exact hm.kept a haL haH

theorem printed_ram (ws : List (U16 × U8)) {a : U16} (ha : a ≠ aciaData) (v : U8) :
    printed (ws ++ [(a, v)]) = printed ws := by
  rw [printed_append]
  unfold printed
  rw [List.filter_cons_of_neg (by simpa using ha)]
  exact List.append_nil _

/-- The three cells before the first digit. -/
theorem read_start (mem : Memory b) (y : Nat) : Read PROGMEM mem y 0
    (storeByte (storeByte (storeByte mem L 0) H 0) YSAV (.ofNat 8 y)) := by
  have hL : (L : U16).toNat < 0x8000 := by decide
  have hH : (H : U16).toNat < 0x8000 := by decide
  have hY : (YSAV : U16).toNat < 0x8000 := by decide
  have hne : cellIndex b L ≠ cellIndex b H ∧ cellIndex b L ≠ cellIndex b YSAV ∧
      cellIndex b H ≠ cellIndex b YSAV := by
    rw [cellIndex_L, cellIndex_H, cellIndex_YSAV]
    decide
  obtain ⟨hLH, hLY, hHY⟩ := hne
  refine ⟨?_, peek_storeByte_same _ _ hY, fun a ha => ?_⟩
  · rw [peek_storeByte_of_ne _ _ hY hLY, peek_storeByte_of_ne _ _ hY hHY,
      peek_storeByte_of_ne _ _ hH hLH, peek_storeByte_same _ _ hH, peek_storeByte_same _ _ hL]
    rfl
  · simp only [List.mem_cons, List.not_mem_nil, or_false, not_or] at ha
    obtain ⟨haL, haH, haY⟩ := ha
    rw [peek_storeByte_of_ne _ _ hY haY, peek_storeByte_of_ne _ _ hH haH,
      peek_storeByte_of_ne _ _ hL haL]

/-- `CPY YSAV` after a number of `k` digits: it is not empty. -/
theorem Read.compared {y k : Nat} (h : Read PROGMEM mem₀ y n mem) (hk : 0 < k) (hk' : k < 128) :
    ((BitVec.ofNat 8 (y + k) : U8) - peek PROGMEM mem YSAV == 0) = false ∧
      ((BitVec.ofNat 8 (y + k) : U8) - peek PROGMEM mem YSAV).getLsbD 7 = false := by
  have hsub : (BitVec.ofNat 8 (y + k) - BitVec.ofNat 8 y : U8) = .ofNat 8 k := by
    rw [BitVec.ofNat_add]
    bv_omega
  rw [h.start, hsub]
  constructor
  · exact beq_eq_false_iff_ne.mpr (by bv_omega)
  · rw [getLsbD_seven, decide_eq_false_iff_not, BitVec.toNat_ofNat]
    omega

section Rules

variable {G : Line → State (Memory b) → Prop} (hcode : RomCode b PROGMEM G code)
  {Q : Run (Memory b) → Prop} {A X Y SP : U8} {P : Status}
  {ws : List (U16 × U8)}
include hcode

/-- **A round of `HEXSHIFT`.** -/
theorem hexshift (hm : Parsed PROGMEM mem₀ n mem) (last : Bool) (hX : (X - 1 == 0) = last)
    (h : ∀ P' mem' ws', Parsed PROGMEM mem₀ (2 * n + A.toNat / 128) mem' →
      printed ws' = printed ws → Arrives ((busSpace PROGMEM b).Step G) Q
        ⟨⟨⟨A <<< 1, X - 1, Y, SP, P', bif last then 0xFF75 else HEXSHIFT⟩, mem'⟩, ws'⟩) :
    Arrives ((busSpace PROGMEM b).Step G) Q
      ⟨⟨⟨A, X, Y, SP, P, HEXSHIFT⟩, mem⟩, ws⟩ := by
  have hm' := hm.rol (A.getLsbD 7)
  rw [(toNat_rol false A).2] at hm'
  have hws : ∀ v w : U8, printed (ws ++ [(L, v)] ++ [(H, w)]) = printed ws := by
    intro v w
    rw [printed_ram _ (by decide), printed_ram _ (by decide)]
  refine hcode.quiet HEXSHIFT rfl (.acc .asl) ⟨mem_listing rfl, rfl⟩ (fun _ => rfl) rfl ?_
  refine hcode.line 0xFF6E rfl (.zp .rol L) ⟨mem_listing rfl, rfl⟩
    (fun _ _ => show (L : U16).toNat < 0x8000 by decide) ?_
  refine hcode.line 0xFF70 rfl (.zp .rol H) ⟨mem_listing rfl, rfl⟩
    (fun _ _ => show (H : U16).toNat < 0x8000 by decide) ?_
  refine hcode.quiet 0xFF72 rfl (.imp .dex) ⟨mem_listing rfl, rfl⟩ nofun rfl ?_
  cases last with
  | false =>
    refine hcode.taken 0xFF73 rfl .bne HEXSHIFT (mem_listing rfl) rfl (congrArg not hX) ?_
    exact h _ _ _ hm' (hws _ _)
  | true =>
    refine hcode.passed 0xFF73 rfl .bne HEXSHIFT (mem_listing rfl) rfl (congrArg not hX) ?_
    exact h _ _ _ hm' (hws _ _)

/-- **A digit is shifted in**, of the low half of `A`. -/
theorem dig (hm : Parsed PROGMEM mem₀ n mem)
    (h : ∀ A' P' mem' ws', Parsed PROGMEM mem₀ (16 * n + A.toNat % 16) mem' →
      printed ws' = printed ws → Arrives ((busSpace PROGMEM b).Step G) Q
        ⟨⟨⟨A', 0, Y, SP, P', 0xFF75⟩, mem'⟩, ws'⟩) :
    Arrives ((busSpace PROGMEM b).Step G) Q ⟨⟨⟨A, X, Y, SP, P, DIG⟩, mem⟩, ws⟩ := by
  refine hcode.quiet DIG rfl (.acc .asl) ⟨mem_listing rfl, rfl⟩ (fun _ => rfl) rfl ?_
  refine hcode.quiet 0xFF68 rfl (.acc .asl) ⟨mem_listing rfl, rfl⟩ (fun _ => rfl) rfl ?_
  refine hcode.quiet 0xFF69 rfl (.acc .asl) ⟨mem_listing rfl, rfl⟩ (fun _ => rfl) rfl ?_
  refine hcode.quiet 0xFF6A rfl (.acc .asl) ⟨mem_listing rfl, rfl⟩ (fun _ => rfl) rfl ?_
  refine hcode.quiet 0xFF6B rfl (.imm .ldx 0x04) ⟨mem_listing rfl, rfl⟩ nofun rfl ?_
  show Arrives _ Q ⟨⟨⟨A <<< 1 <<< 1 <<< 1 <<< 1, 0x04, Y, SP, _, HEXSHIFT⟩, mem⟩, ws⟩
  refine hexshift hcode hm false rfl fun P₁ mem₁ ws₁ hm₁ hws₁ => ?_
  refine hexshift hcode hm₁ false rfl fun P₂ mem₂ ws₂ hm₂ hws₂ => ?_
  refine hexshift hcode hm₂ false rfl fun P₃ mem₃ ws₃ hm₃ hws₃ => ?_
  refine hexshift hcode hm₃ true rfl fun P₄ mem₄ ws₄ hm₄ hws₄ => ?_
  refine h _ P₄ mem₄ ws₄ ?_ (hws₄.trans (hws₃.trans (hws₂.trans hws₁)))
  -- the four bits shifted out of `A`
  have hbits : ∀ A : U8, ∀ m : Nat,
      2 * (2 * (2 * (2 * m + (A <<< 1 <<< 1 <<< 1 <<< 1).toNat / 128) +
      (A <<< 1 <<< 1 <<< 1 <<< 1 <<< 1).toNat / 128) +
      (A <<< 1 <<< 1 <<< 1 <<< 1 <<< 1 <<< 1).toNat / 128) +
      (A <<< 1 <<< 1 <<< 1 <<< 1 <<< 1 <<< 1 <<< 1).toNat / 128 = 16 * m + A.toNat % 16 := by
    intro A m
    simp only [BitVec.toNat_shiftLeft, Nat.shiftLeft_eq]
    omega
  exact hbits A n ▸ hm₄

/-- **One character is looked at.** -/
theorem nexthex {c : U8} (hc : peek PROGMEM mem (inBuffer + Y.setWidth 16) = c)
    (hfigure : (figure c).toNat < 0x0A → ∀ P',
      Arrives ((busSpace PROGMEM b).Step G) Q
        ⟨⟨⟨figure c, X, Y, SP, P', DIG⟩, mem⟩, ws⟩)
    (hletter : 0x0A ≤ (figure c).toNat → 0xFA ≤ (letter c).toNat → ∀ P',
      Arrives ((busSpace PROGMEM b).Step G) Q
        ⟨⟨⟨letter c, X, Y, SP, P', DIG⟩, mem⟩, ws⟩)
    (hend : 0x0A ≤ (figure c).toNat → (letter c).toNat < 0xFA → ∀ P', P'.V = overflows c →
      Arrives ((busSpace PROGMEM b).Step G) Q
        ⟨⟨⟨letter c, X, Y, SP, P', NOTHEX⟩, mem⟩, ws⟩) :
    Arrives ((busSpace PROGMEM b).Step G) Q
      ⟨⟨⟨A, X, Y, SP, P, NEXTHEX⟩, mem⟩, ws⟩ := by
  subst hc
  refine hcode.quiet NEXTHEX rfl (.absY .lda inBuffer) ⟨mem_listing rfl, rfl⟩ nofun rfl ?_
  refine hcode.quiet 0xFF5B rfl (.imm .eor 0x30) ⟨mem_listing rfl, rfl⟩ nofun rfl ?_
  refine hcode.quiet 0xFF5D rfl (.imm .cmp 0x0A) ⟨mem_listing rfl, rfl⟩ nofun rfl ?_
  refine hcode.branch 0xFF5F rfl .bcc DIG (mem_listing rfl) rfl (fun hC => ?_) fun hC => ?_
  · exact hfigure (Nat.lt_of_not_le (of_decide_eq_false (Bool.not_inj hC))) _
  have hge : decide (0x0A ≤ (figure (peek PROGMEM mem (inBuffer + Y.setWidth 16))).toNat) = true :=
    Bool.not_inj hC
  refine hcode.adcCarry 0xFF61 rfl 0x88 (mem_listing rfl) hge fun P₁ hV => ?_
  refine hcode.quiet 0xFF63 rfl (.imm .cmp 0xFA) ⟨mem_listing rfl, rfl⟩ nofun rfl ?_
  refine hcode.branch 0xFF65 rfl .bcc NOTHEX (mem_listing rfl) rfl (fun hC => ?_) fun hC => ?_
  · exact hend (of_decide_eq_true hge)
      (Nat.lt_of_not_le (of_decide_eq_false (Bool.not_inj hC))) _ hV
  · exact hletter (of_decide_eq_true hge) (of_decide_eq_true (Bool.not_inj hC)) _

/-- **A digit is read.** -/
theorem digit_step (hm : Parsed PROGMEM mem₀ n mem) {y d : Nat} (hy : y + 1 < 256) (hd : d < 16)
    (hc : peek PROGMEM mem₀ (inCell y) = asciiByte (hexUpper d))
    (h : ∀ A' P' mem' ws', Parsed PROGMEM mem₀ (16 * n + d) mem' → printed ws' = printed ws →
      Arrives ((busSpace PROGMEM b).Step G) Q
        ⟨⟨⟨A', 0, .ofNat 8 (y + 1), SP, P', NEXTHEX⟩, mem'⟩, ws'⟩) :
    Arrives ((busSpace PROGMEM b).Step G) Q
      ⟨⟨⟨A, X, .ofNat 8 y, SP, P, NEXTHEX⟩, mem⟩, ws⟩ := by
  have hnext : ∀ A' P' mem' ws', Parsed PROGMEM mem₀ (16 * n + d) mem' →
      printed ws' = printed ws → Arrives ((busSpace PROGMEM b).Step G) Q
        ⟨⟨⟨A', 0, .ofNat 8 y, SP, P', 0xFF75⟩, mem'⟩, ws'⟩ := by
    intro A' P' mem' ws' hm' hws
    have hY : BitVec.ofNat 8 y + 1 = BitVec.ofNat 8 (y + 1) := (BitVec.ofNat_add y 1).symm
    refine hcode.quiet 0xFF75 rfl (.imp .iny) ⟨mem_listing rfl, rfl⟩ nofun rfl ?_
    refine hcode.taken 0xFF76 rfl .bne NEXTHEX (mem_listing rfl) rfl ?_ ?_
    · have hne : (BitVec.ofNat 8 y + 1 == 0) = false := beq_eq_false_iff_ne.mpr (by bv_omega)
      exact congrArg not hne
    · show Arrives _ Q ⟨⟨⟨A', 0, .ofNat 8 y + 1, SP, _, NEXTHEX⟩, mem'⟩, ws'⟩
      rw [hY]
      exact h A' _ mem' ws' hm' hws
  have hread : peek PROGMEM mem (inBuffer + (BitVec.ofNat 8 y).setWidth 16) =
      asciiByte (hexUpper d) := by
    rw [← hc, inCell_eq (by omega)]
    exact hm.kept_in (by omega)
  refine nexthex hcode hread (fun hlt P' => ?_) (fun hge hle P' => ?_) fun hge hlt => ?_
  · exact dig hcode hm fun A' P'' mem' ws' hm' hws =>
      hnext A' P'' mem' ws' (figure_digit d hd hlt ▸ hm') hws
  · exact dig hcode hm fun A' P'' mem' ws' hm' hws =>
      hnext A' P'' mem' ws' ((letter_digit d hd (Nat.not_lt.mpr hge)).2 ▸ hm') hws
  · exact absurd (letter_digit d hd (Nat.not_lt.mpr hge)).1 (Nat.not_le.mpr hlt)

/-- **The digits of a text are read**, one after the other. -/
theorem digits (s : List Char) (hs : ∀ c ∈ s, IsDigit c) {y : Nat} (hy : y + s.length < 256)
    (htyped : ∀ i c, s[i]? = some c → peek PROGMEM mem₀ (inCell (y + i)) = asciiByte c)
    (hm : Parsed PROGMEM mem₀ n mem)
    (h : ∀ A' P' mem' ws', Parsed PROGMEM mem₀ (hexValue n s) mem' → printed ws' = printed ws →
      Arrives ((busSpace PROGMEM b).Step G) Q
        ⟨⟨⟨A', 0, .ofNat 8 (y + s.length), SP, P', NEXTHEX⟩, mem'⟩, ws'⟩) :
    Arrives ((busSpace PROGMEM b).Step G) Q
      ⟨⟨⟨A, 0, .ofNat 8 y, SP, P, NEXTHEX⟩, mem⟩, ws⟩ := by
  induction s generalizing y n A P mem ws with
  | nil => exact h A P mem ws hm rfl
  | cons c s ih =>
    obtain ⟨⟨d, hd, rfl⟩, hrest⟩ := List.forall_mem_cons.mp hs
    rw [List.length_cons] at hy
    have hvalue : hexValue n (hexUpper d :: s) = hexValue (16 * n + d) s := by
      rw [hexValue, (hexUpper_spec d hd).1]
    rw [hvalue, List.length_cons, Nat.add_comm s.length 1, ← Nat.add_assoc] at h
    refine digit_step hcode hm (by omega) hd (htyped 0 _ rfl) fun A' P' mem' ws' hm' hws => ?_
    refine ih hrest (by omega) (fun i c hi => ?_) hm' fun A'' P'' mem'' ws'' hm'' hws' =>
      h A'' P'' mem'' ws'' hm'' (hws'.trans hws)
    have hchar := htyped (i + 1) c hi
    rwa [Nat.add_comm i 1, ← Nat.add_assoc] at hchar

/-- **A number is read** up to the character after its last digit. -/
theorem number (s : List Char) (hs : ∀ c ∈ s, IsDigit c) {y : Nat} (hy : y + s.length < 256)
    (htyped : ∀ i c, s[i]? = some c → peek PROGMEM mem₀ (inCell (y + i)) = asciiByte c)
    (hend : NotDigit (peek PROGMEM mem₀ (inCell (y + s.length))))
    (hstart : Read PROGMEM mem₀ y 0 mem)
    (h : ∀ A' P' mem' ws', P'.V = overflows (peek PROGMEM mem₀ (inCell (y + s.length))) →
      Read PROGMEM mem₀ y (hexValue 0 s) mem' → printed ws' = printed ws →
      Arrives ((busSpace PROGMEM b).Step G) Q
        ⟨⟨⟨A', 0, .ofNat 8 (y + s.length), SP, P', NOTHEX⟩, mem'⟩, ws'⟩) :
    Arrives ((busSpace PROGMEM b).Step G) Q
      ⟨⟨⟨A, 0, .ofNat 8 y, SP, P, NEXTHEX⟩, mem⟩, ws⟩ := by
  have hin : ∀ k < 256, peek PROGMEM mem (inCell k) = peek PROGMEM mem₀ (inCell k) := by
    intro k hk
    refine hstart.kept _ fun hmem => ?_
    rw [cellIndex_inCell hk] at hmem
    simp only [List.mem_cons, List.not_mem_nil, or_false] at hmem
    omega
  refine digits hcode s hs hy (fun i c hi => ?_) ⟨hstart.value, fun _ _ _ => rfl⟩
    fun A' P' mem' ws' hm' hws => ?_
  · have hlt := (List.getElem?_eq_some_iff.mp hi).1
    rw [hin _ (by omega)]
    exact htyped i c hi
  have hread : peek PROGMEM mem' (inBuffer + (BitVec.ofNat 8 (y + s.length)).setWidth 16) =
      peek PROGMEM mem₀ (inCell (y + s.length)) := by
    rw [inCell_eq hy, hm'.kept_in hy, hin _ hy]
  obtain ⟨hge, hlt⟩ := letter_end _ hend
  have hdone : Read PROGMEM mem₀ y (hexValue 0 s) mem' := by
    refine ⟨hm'.value, ?_, fun a ha => ?_⟩
    · rw [← hstart.start]
      exact hm'.kept YSAV (by rw [cellIndex_YSAV, cellIndex_L]; decide)
        (by rw [cellIndex_YSAV, cellIndex_H]; decide)
    · rw [← hstart.kept a ha]
      simp only [List.mem_cons, List.not_mem_nil, or_false, not_or] at ha
      exact hm'.kept a ha.1 ha.2.1
  refine nexthex hcode hread (fun hlt' => ?_) (fun _ hle => ?_) fun _ _ P'' hV => ?_
  · exact absurd hge (Nat.not_le.mpr hlt')
  · exact absurd hle (Nat.not_le.mpr hlt)
  · exact h _ P'' mem' ws' hV hdone hws

/-- **And from `NEXTITEM`**, where the first character is a digit. -/
theorem nextitem (s : List Char) (hs : ∀ c ∈ s, IsDigit c) (hne : s ≠ []) {y : Nat}
    (hy : y + s.length < 256)
    (htyped : ∀ i c, s[i]? = some c → peek PROGMEM mem (inCell (y + i)) = asciiByte c)
    (hend : NotDigit (peek PROGMEM mem (inCell (y + s.length))))
    (h : ∀ A' P' mem' ws', P'.V = overflows (peek PROGMEM mem (inCell (y + s.length))) →
      Read PROGMEM mem y (hexValue 0 s) mem' → printed ws' = printed ws →
      Arrives ((busSpace PROGMEM b).Step G) Q
        ⟨⟨⟨A', 0, .ofNat 8 (y + s.length), SP, P', NOTHEX⟩, mem'⟩, ws'⟩) :
    Arrives ((busSpace PROGMEM b).Step G) Q
      ⟨⟨⟨A, 0, .ofNat 8 y, SP, P, NEXTITEM⟩, mem⟩, ws⟩ := by
  obtain ⟨c, hc⟩ : ∃ c, s[0]? = some c :=
    ⟨_, List.getElem?_eq_getElem (List.length_pos_iff.mpr hne)⟩
  obtain ⟨d, hd, rfl⟩ := hs c (List.mem_of_getElem? hc)
  obtain ⟨hcr, hlow, hdot, hcolon, hrun⟩ := digit_item d hd
  have hread : peek PROGMEM mem (inBuffer + (BitVec.ofNat 8 y).setWidth 16) =
      asciiByte (hexUpper d) := by
    rw [inCell_eq (by omega)]
    exact htyped 0 _ hc
  rw [← hread] at hcr hlow hdot hcolon hrun
  refine hcode.quiet NEXTITEM rfl (.absY .lda inBuffer) ⟨mem_listing rfl, rfl⟩ nofun rfl ?_
  refine hcode.quiet 0xFF40 rfl (.imm .cmp 0x0D) ⟨mem_listing rfl, rfl⟩ nofun rfl ?_
  refine hcode.passed 0xFF42 rfl .beq GETLINE (mem_listing rfl) rfl hcr ?_
  refine hcode.quiet 0xFF44 rfl (.imm .cmp 0x2E) ⟨mem_listing rfl, rfl⟩ nofun rfl ?_
  refine hcode.passed 0xFF46 rfl .bcc BLSKIP (mem_listing rfl) rfl hlow ?_
  refine hcode.passed 0xFF48 rfl .beq SETBLOCK (mem_listing rfl) rfl hdot ?_
  refine hcode.quiet 0xFF4A rfl (.imm .cmp 0x3A) ⟨mem_listing rfl, rfl⟩ nofun rfl ?_
  refine hcode.passed 0xFF4C rfl .beq SETSTOR (mem_listing rfl) rfl hcolon ?_
  refine hcode.quiet 0xFF4E rfl (.imm .cmp 0x52) ⟨mem_listing rfl, rfl⟩ nofun rfl ?_
  refine hcode.passed 0xFF50 rfl .beq RUN (mem_listing rfl) rfl hrun ?_
  refine hcode.line 0xFF52 rfl (.zp .stx L) ⟨mem_listing rfl, rfl⟩
    (fun _ _ => show (L : U16).toNat < 0x8000 by decide) ?_
  refine hcode.line 0xFF54 rfl (.zp .stx H) ⟨mem_listing rfl, rfl⟩
    (fun _ _ => show (H : U16).toNat < 0x8000 by decide) ?_
  refine hcode.line 0xFF56 rfl (.zp .sty YSAV) ⟨mem_listing rfl, rfl⟩
    (fun _ _ => show (YSAV : U16).toNat < 0x8000 by decide) ?_
  refine number hcode s hs hy htyped hend (read_start mem y) fun A' P' mem' ws' hV hm' hws => ?_
  refine h A' P' mem' ws' hV hm' (hws.trans ?_)
  show printed (ws ++ [(L, _)] ++ [(H, _)] ++ [(YSAV, _)]) = printed ws
  rw [printed_ram _ (by decide), printed_ram _ (by decide), printed_ram _ (by decide)]

end Rules

/-! ## On the code -/

/-- At `NOTHEX`, after a number `n` of `k` digits from cell `y` of `IN` on. -/
structure NumberRead (PROGMEM : Progmem) (y k n : Nat) (r r' : Run (Memory b)) : Prop where
  PC : r'.state.cpu.PC = NOTHEX
  X : r'.state.cpu.X = 0
  Y : r'.state.cpu.Y = .ofNat 8 (y + k)
  SP : r'.state.cpu.SP = r.state.cpu.SP
  read : Read PROGMEM r.state.mem y n r'.state.mem
  printed : printed r'.stores = Monitor.printed r.stores

theorem atItem {p : Logged b} {y : Nat} (hPC : p.1.1.cpu.PC = NEXTITEM) (hX : p.1.1.cpu.X = 0)
    (hY : p.1.1.cpu.Y = .ofNat 8 y) : p.run =
      ⟨⟨⟨p.1.1.cpu.A, 0, .ofNat 8 y, p.1.1.cpu.SP, p.1.1.cpu.status, NEXTITEM⟩, p.1.2⟩, p.2⟩ := by
  rw [← hX, ← hY, ← hPC]
  rfl

/-- **On the code a number typed in hexadecimal is read**: from `NEXTITEM`, with `X` zero, the
    digits in `IN` leave their value modulo 65536 in `L` and `H` and the place where they began
    in `YSAV`, and change nothing else; `Y` is past them, at the character that is no digit. -/
theorem nextitem_reads (b : Build) (PROGMEM : Progmem) (hcode : CodeAt PROGMEM 0xFF00 monitorCode)
    (p : Logged b) (s : List Char) (hs : ∀ c ∈ s, IsDigit c) (hne : s ≠ []) (y : Nat)
    (hy : y + s.length < 256) (hPC : p.1.1.cpu.PC = NEXTITEM) (hX : p.1.1.cpu.X = 0)
    (hY : p.1.1.cpu.Y = .ofNat 8 y)
    (htyped : ∀ i c, s[i]? = some c → peek PROGMEM p.1.2 (inCell (y + i)) = asciiByte c)
    (hend : NotDigit (peek PROGMEM p.1.2 (inCell (y + s.length)))) :
    Arrives (LogNext PROGMEM)
      (fun q => NumberRead PROGMEM y s.length (hexValue 0 s) p.run q.run) p := by
  refine arrives_code PROGMEM ?_
  rw [atItem hPC hX hY]
  exact nextitem (romCode_regular hcode) s hs hne hy htyped hend fun A' P' mem' ws' _ hm' hws =>
    .done ⟨rfl, rfl, rfl, rfl, hm', hws⟩

/-- `1F` and a return in `IN`, and a machine at `NEXTITEM`. -/
def typedState : Logged ⟨false⟩ :=
  (callStart { olc6502Init with PC := NEXTITEM } false
    ⟨fun i => if i.val = 0x200 then 0x31 else if i.val = 0x201 then 0x46
      else if i.val = 0x202 then 0x0D else 0x00⟩ 1, [])

theorem isDigit_1f : ∀ c ∈ ['1', 'F'], IsDigit c := by
  intro c hc
  rcases List.mem_cons.mp hc with rfl | hc
  · exact ⟨1, by decide, rfl⟩
  · obtain rfl := List.mem_singleton.mp hc
    exact ⟨15, by decide, rfl⟩

theorem typed_1f (i : Nat) (c : Char) (hi : ['1', 'F'][i]? = some c) :
    peek (progmemAt 0xFF00 monitorCode) typedState.1.2 (inCell (0 + i)) = asciiByte c := by
  match i with
  | 0 => exact Option.some.inj hi ▸ rfl
  | 1 => exact Option.some.inj hi ▸ rfl

theorem nextitem_reads_1f :
    Arrives (LogNext (progmemAt 0xFF00 monitorCode)) (fun q =>
      (peek (progmemAt 0xFF00 monitorCode) q.1.2 L).toNat +
        256 * (peek (progmemAt 0xFF00 monitorCode) q.1.2 H).toNat = 0x1F) typedState :=
  (nextitem_reads ⟨false⟩ (progmemAt 0xFF00 monitorCode)
    (codeAt_progmemAt (by decide) monitorCode_fits) typedState ['1', 'F'] isDigit_1f
    (List.cons_ne_nil _ _) 0 (by decide) rfl rfl rfl typed_1f
    (by decide)).mono fun q hq => hq.read.value

end Monitor

end M6502
