import M6502.Lib.CText
import M6502.Monitor
import M6502.Proof.Isa.Code

/-!
# What the monitor prints

The contracts of `ECHO`, `PRHEX` and `PRBYTE`, proved on the manual's machine. A subroutine comes
back with `X` and `Y` as they were and `SP` above the return address; it leaves every byte but
the cells below `SP` it pushes to and the one behind `ACIA_DATA` (`Kept`); and what it stores at
`ACIA_DATA` is what it prints. `call` is the rule of `JSR`.
-/

set_option autoImplicit false

namespace M6502

open Lib Cpu Isa

namespace Monitor

variable {b : Build} (PROGMEM : Progmem)

/-! ## What stays, and what is printed -/

/-- No byte differs but the one behind `ACIA_DATA` and those of `n` cells from `SP` down. -/
def Kept (SP : U8) (n : Nat) (mem mem' : Memory b) : Prop :=
  ∀ a : U16, cellIndex b a ≠ cellIndex b aciaData →
    (∀ j < n, cellIndex b a ≠ cellIndex b (stackAddress (SP - .ofNat 8 j))) →
    peek PROGMEM mem' a = peek PROGMEM mem a

/-- The bytes stored at `ACIA_DATA`, in order. -/
def printed (stores : List (U16 × U8)) : List U8 :=
  (stores.filter fun w => w.1 == aciaData).map (·.2)

variable {PROGMEM} {SP : U8} {mem mem' mem'' : Memory b}

theorem cellIndex_aciaData : cellIndex b aciaData = 0x908 := rfl

theorem Kept.refl (SP : U8) (n : Nat) (mem : Memory b) : Kept PROGMEM SP n mem mem :=
  fun _ _ _ => rfl

theorem Kept.trans {n : Nat} (h : Kept PROGMEM SP n mem mem') (h' : Kept PROGMEM SP n mem' mem'') :
    Kept PROGMEM SP n mem mem'' :=
  fun a ha hcells => (h' a ha hcells).trans (h a ha hcells)

/-- The cells below a stack pointer that is lower. -/
theorem Kept.below {n : Nat} (k : Nat) (h : Kept PROGMEM (SP - .ofNat 8 k) n mem mem') :
    Kept PROGMEM SP (k + n) mem mem' := by
  refine fun a ha hcells => h a ha fun j hj => ?_
  have hcell : SP - .ofNat 8 k - .ofNat 8 j = SP - .ofNat 8 (k + j) := by
    rw [BitVec.ofNat_add]
    bv_omega
  rw [hcell]
  exact hcells (k + j) (by omega)

theorem Kept.mono {n m : Nat} (h : Kept PROGMEM SP n mem mem') (hnm : n ≤ m) :
    Kept PROGMEM SP m mem mem' :=
  fun a ha hcells => h a ha fun j hj => hcells j (by omega)

theorem stack_lt (SP : U8) : (stack SP).toNat < 0x8000 :=
  Nat.lt_trans (stackAddress_lt SP) (by decide)

theorem kept_push {n : Nat} (hn : 0 < n) (mem : Memory b) (v : U8) :
    Kept PROGMEM SP n mem (storeByte mem (stack SP) v) := by
  intro a _ hcells
  have hcell := hcells 0 hn
  rw [show SP - BitVec.ofNat 8 0 = SP from BitVec.sub_zero SP] at hcell
  exact peek_storeByte_of_ne mem v (stack_lt SP) hcell

theorem kept_acia (n : Nat) (mem : Memory b) (v : U8) :
    Kept PROGMEM SP n mem (storeByte mem aciaData v) :=
  fun _ ha _ => peek_storeByte_of_ne mem v (by decide) ha

/-- The address a subroutine entered in `s` returns to. -/
def returnAddress (PROGMEM : Progmem) (s : State (Memory b)) : U16 :=
  Isa.word ((busSpace PROGMEM b).pulled s 1) ((busSpace PROGMEM b).pulled s 2) + 1

theorem pulled_eq (s : State (Memory b)) (k : Nat) :
    (busSpace PROGMEM b).pulled s k = peek PROGMEM s.mem (stack (s.cpu.SP + .ofNat 8 k)) := rfl

-- two states are compared by their stores, not by what the stores do
attribute [local irreducible] storeByte

/-- What is pushed last is what is pulled. -/
theorem pulled_pushed {cpu : Isa.Cpu} (hSP : cpu.SP + 1 = SP) (mem : Memory b) (v : U8) :
    (busSpace PROGMEM b).pulled ⟨cpu, storeByte mem (stack SP) v⟩ 1 = v := by
  subst hSP
  rw [pulled_eq]
  exact peek_storeByte_same mem v (stack_lt _)

/-- The return address a call pushes. -/
theorem returnAddress_pushed (cpu : Isa.Cpu) (mem : Memory b) (p : U16) :
    returnAddress PROGMEM ⟨{ cpu with SP := cpu.SP - 2 }, storeByte
      (storeByte mem (stack cpu.SP) ((p + 2).extractLsb' 8 8))
      (stack (cpu.SP - 1)) ((p + 2).extractLsb' 0 8)⟩ = p + 3 := by
  have hne : cellIndex b (stack cpu.SP) ≠ cellIndex b (stack (cpu.SP - 1)) := by
    rw [isa_stack, isa_stack, cellIndex_stackAddress, cellIndex_stackAddress]
    bv_omega
  unfold returnAddress
  rw [pulled_eq, pulled_eq]
  show Isa.word (peek PROGMEM _ (stack (cpu.SP - 2 + 1))) (peek PROGMEM _
    (stack (cpu.SP - 2 + 2))) + 1 = p + 3
  rw [show cpu.SP - 2 + 1 = cpu.SP - 1 by bv_omega, show cpu.SP - 2 + 2 = cpu.SP by bv_omega,
    peek_storeByte_same _ _ (stack_lt _), peek_storeByte_of_ne _ _ (stack_lt _) hne,
    peek_storeByte_same _ _ (stack_lt _), word_extract]
  exact BitVec.add_assoc p 2 1

/-- Above `SP` the stack stays. -/
theorem Kept.pulled {n k : Nat} (h : Kept PROGMEM SP n mem mem') (cpu cpu' : Isa.Cpu)
    (hSP : cpu.SP = SP) (hSP' : cpu'.SP = SP) (hk : 0 < k) (hn : n + k ≤ 256) :
    (busSpace PROGMEM b).pulled ⟨cpu', mem'⟩ k = (busSpace PROGMEM b).pulled ⟨cpu, mem⟩ k := by
  subst hSP
  rw [pulled_eq, pulled_eq, hSP', isa_stack]
  refine h _ ?_ fun j hj => ?_
  · rw [cellIndex_stackAddress, cellIndex_aciaData]
    have := (cpu.SP + .ofNat 8 k).isLt
    omega
  · rw [cellIndex_stackAddress, cellIndex_stackAddress]
    have hne : cpu.SP + .ofNat 8 k ≠ cpu.SP - .ofNat 8 j := by bv_omega
    intro heq
    exact hne (BitVec.eq_of_toNat_eq (by omega))

theorem Kept.returnAddress {n : Nat} (h : Kept PROGMEM SP n mem mem') (cpu cpu' : Isa.Cpu)
    (hSP : cpu.SP = SP) (hSP' : cpu'.SP = SP) (hn : n ≤ 254) :
    Monitor.returnAddress PROGMEM ⟨cpu', mem'⟩ = Monitor.returnAddress PROGMEM ⟨cpu, mem⟩ := by
  unfold Monitor.returnAddress
  rw [h.pulled cpu cpu' hSP hSP' Nat.one_pos (by omega),
    h.pulled cpu cpu' hSP hSP' Nat.two_pos (by omega)]

theorem printed_append (ws ws' : List (U16 × U8)) :
    printed (ws ++ ws') = printed ws ++ printed ws' := by
  unfold printed
  rw [List.filter_append, List.map_append]

/-- What is pushed is not printed. -/
theorem printed_push (ws : List (U16 × U8)) (SP v : U8) :
    printed (ws ++ [(stack SP, v)]) = printed ws := by
  have hne : (stack SP == aciaData) = false := by
    have hlt := stackAddress_lt SP
    rw [← isa_stack] at hlt
    refine beq_eq_false_iff_ne.mpr fun heq => ?_
    rw [heq] at hlt
    exact absurd hlt (by decide)
  rw [printed_append]
  unfold printed
  rw [List.filter_cons_of_neg (by rw [hne]; exact Bool.false_ne_true)]
  exact List.append_nil _

theorem printed_acia (ws : List (U16 × U8)) (v : U8) :
    printed (ws ++ [(aciaData, v)]) = printed ws ++ [v] := printed_append ws _

/-! ## Subroutines -/

/-- From `r` to `r'`: where `PC` and `SP` come to be, what is in `A` and what has been printed,
    at most `n` cells of the stack being used. -/
structure Leaves (PROGMEM : Progmem) (n : Nat) (out : List U8) (A SP : U8) (PC : U16)
    (r r' : Run (Memory b)) : Prop where
  A : r'.state.cpu.A = A
  X : r'.state.cpu.X = r.state.cpu.X
  Y : r'.state.cpu.Y = r.state.cpu.Y
  SP : r'.state.cpu.SP = SP
  PC : r'.state.cpu.PC = PC
  kept : Kept PROGMEM r.state.cpu.SP n r.state.mem r'.state.mem
  printed : printed r'.stores = Monitor.printed r.stores ++ out

/-- A subroutine entered in `r` comes back. -/
def Returns (PROGMEM : Progmem) (G : Line → State (Memory b) → Prop) (n : Nat) (out : List U8)
    (A : U8) (r : Run (Memory b)) : Prop :=
  Arrives ((busSpace PROGMEM b).Step G)
    (Leaves PROGMEM n out A (r.state.cpu.SP + 2) (returnAddress PROGMEM r.state) r) r

def asciiByte (c : Char) : U8 := .ofNat 8 c.toNat

/-- The digit of the low half of a byte. -/
def digit (v : U8) : U8 := asciiByte (hexUpper (v.toNat % 16))

/-- Those of a byte. -/
def hexByte (v : U8) : List U8 := [digit (v >>> 4), digit v]

theorem and_low (A : U8) : A &&& 0x0F = .ofNat 8 (A.toNat % 16) := by
  apply BitVec.eq_of_toNat_eq
  have hmod : A.toNat &&& 15 = A.toNat % 16 := Nat.and_two_pow_sub_one_eq_mod A.toNat 4
  rw [BitVec.toNat_and, BitVec.toNat_ofNat]
  show A.toNat &&& 15 = _
  omega

/-- What the code of `PRHEX` makes of it. -/
theorem digit_code (A : U8) :
    (A.toNat % 16 < 10 ↔ (((A &&& 0x0F) ||| 0x30) : U8).toNat < 0x3A) ∧
      (A.toNat % 16 < 10 → (A &&& 0x0F) ||| 0x30 = digit A) ∧
      (¬ A.toNat % 16 < 10 →
        BitVec.ofNat 8 (((A &&& 0x0F) ||| 0x30 : U8).toNat + 6 + 1) = digit A) := by
  have hall : ∀ d < 16, (d < 10 ↔ (.ofNat 8 d ||| 0x30 : U8).toNat < 0x3A) ∧
      (d < 10 → .ofNat 8 d ||| 0x30 = asciiByte (hexUpper d)) ∧
      (¬ d < 10 → BitVec.ofNat 8 ((.ofNat 8 d ||| 0x30 : U8).toNat + 6 + 1) =
        asciiByte (hexUpper d)) := by
    decide
  rw [and_low]
  exact hall (A.toNat % 16) (Nat.mod_lt _ (by decide))

/-- The registers a subroutine works on may have been changed before it is come to. -/
theorem Returns.withCpu {G : Line → State (Memory b) → Prop} {n : Nat} {out : List U8} {A : U8}
    {r : Run (Memory b)} {cpu : Isa.Cpu}
    (h : Returns PROGMEM G n out A (r.withCpu cpu)) (hX : cpu.X = r.state.cpu.X)
    (hY : cpu.Y = r.state.cpu.Y) (hSP : cpu.SP = r.state.cpu.SP) :
    Arrives ((busSpace PROGMEM b).Step G)
      (Leaves PROGMEM n out A (r.state.cpu.SP + 2) (returnAddress PROGMEM r.state) r)
      (r.withCpu cpu) := by
  refine h.mono fun r' h' => ⟨h'.A, h'.X.trans hX, h'.Y.trans hY, ?_, ?_, ?_, h'.printed⟩
  · exact h'.SP.trans (congrArg (· + 2) hSP)
  · refine h'.PC.trans ?_
    unfold returnAddress Isa.Space.pulled Run.withCpu
    dsimp only
    rw [hSP]
  · exact hSP ▸ h'.kept

/-- What the subroutine at `t` does: of `A`, what it prints and what it leaves. -/
def Subroutine (PROGMEM : Progmem) (G : Line → State (Memory b) → Prop) (t : U16) (n : Nat)
    (out : U8 → List U8) (f : U8 → U8) : Prop :=
  ∀ r : Run (Memory b), r.state.cpu.PC = t →
    Returns PROGMEM G n (out r.state.cpu.A) (f r.state.cpu.A) r

section Rules

variable {G : Line → State (Memory b) → Prop} {Q : Run (Memory b) → Prop} {r : Run (Memory b)}

/-- **The rule of a call**: what the subroutine does, and two cells more for its return
    address. -/
theorem call {code : List (Addr × Line)} (hcode : RomCode b PROGMEM G code) (p t : U16)
    (hp : r.state.cpu.PC = p) (hl : (p, .abs .jsr t) ∈ code) {n : Nat}
    {out : U8 → List U8} {f : U8 → U8} (hsub : Subroutine PROGMEM G t n out f)
    (h : ∀ r', Leaves PROGMEM (2 + n) (out r.state.cpu.A) (f r.state.cpu.A) r.state.cpu.SP (p + 3)
      r r' → Arrives ((busSpace PROGMEM b).Step G) Q r') :
    Arrives ((busSpace PROGMEM b).Step G) Q r := by
  obtain ⟨⟨⟨A, X, Y, SP, P, PC⟩, mem⟩, ws⟩ := r
  subst hp
  refine hcode.line PC rfl (.abs .jsr t) ⟨hl, rfl⟩ nofun ((hsub _ rfl).seq fun r' h' => h r' ?_)
  have hdown : SP - 2 + 2 = SP := BitVec.sub_add_cancel SP 2
  have hkept : Kept PROGMEM SP 2 mem (storeByte (storeByte mem
      (stack SP) ((PC + 2).extractLsb' 8 8)) (stack (SP - 1)) ((PC + 2).extractLsb' 0 8)) :=
    (kept_push (by decide) mem _).trans ((kept_push Nat.one_pos _ _).below 1)
  refine ⟨h'.A, h'.X, h'.Y, h'.SP.trans hdown, h'.PC.trans ?_, ?_, h'.printed.trans ?_⟩
  · exact returnAddress_pushed _ mem PC
  · exact (hkept.mono (by omega)).trans (h'.kept.below 2)
  · have hstores : printed (ws ++ [(stack SP, (PC + 2).extractLsb' 8 8),
        (stack (SP - 1), (PC + 2).extractLsb' 0 8)]) = printed ws := by
      rw [← List.singleton_append, ← List.append_assoc, printed_push, printed_push]
    exact congrArg (· ++ out A) hstores

variable (hcode : RomCode b PROGMEM G printCode)
include hcode

/-- **`ECHO` prints `A`.** -/
theorem echo : Subroutine PROGMEM G ECHO 1 (fun A => [A]) id := by
  rintro ⟨⟨⟨A, X, Y, SP, P, PC⟩, mem⟩, ws⟩ hPC
  obtain rfl : PC = ECHO := hPC
  refine hcode.line ECHO rfl (.imp .pha) ⟨mem_listing rfl, rfl⟩ nofun ?_
  refine hcode.line 0xFFE9 rfl (.abs .sta aciaData) ⟨mem_listing rfl, rfl⟩
    (fun _ _ => show aciaData.toNat < 0x8000 by decide) ?_
  refine hcode.line 0xFFEC rfl (.imp .pla) ⟨mem_listing rfl, rfl⟩ nofun ?_
  refine hcode.line 0xFFED rfl (.imp .rts) ⟨mem_listing rfl, rfl⟩ nofun ?_
  -- back at the old stack pointer
  have hSP : SP - 1 + 1 = SP := BitVec.sub_add_cancel SP 1
  have hkept : Kept PROGMEM SP 1 mem (storeByte
      (storeByte mem (stack SP) A) aciaData A) :=
    (kept_push (by decide) mem A).trans (kept_acia 1 _ A)
  have hkept' : Kept PROGMEM (SP - 1) 0 (storeByte mem (stack SP) A)
    (storeByte (storeByte mem (stack SP) A) aciaData A) :=
    kept_acia 0 _ A
  have hA := (hkept'.pulled ⟨A, X, Y, SP - 1, P, 0xFFEC⟩ ⟨A, X, Y, SP - 1, P, 0xFFEC⟩ rfl rfl
    Nat.one_pos (by decide)).trans (pulled_pushed hSP mem A)
  refine .done ⟨hA, rfl, rfl, congrArg (· + 2) hSP, ?_, hkept, ?_⟩
  · exact hkept.returnAddress ⟨A, X, Y, SP, P, ECHO⟩ _ rfl hSP (by decide)
  · show printed (ws ++ [(stack SP, A)] ++ [(aciaData, A)] ++ [] ++ []) = _
    rw [List.append_nil, List.append_nil, printed_acia, printed_push]

/-- **`PRHEX` prints the low half of `A`.** -/
theorem prhex : Subroutine PROGMEM G PRHEX 1 (fun A => [digit A]) digit := by
  rintro ⟨⟨⟨A, X, Y, SP, P, PC⟩, mem⟩, ws⟩ hPC
  obtain rfl : PC = PRHEX := hPC
  obtain ⟨hlow, hdigit, hletter⟩ := digit_code A
  have hecho : ∀ cpu : Isa.Cpu, cpu.PC = ECHO → cpu.A = digit A → cpu.X = X → cpu.Y = Y →
      cpu.SP = SP → Arrives ((busSpace PROGMEM b).Step G)
        (Leaves PROGMEM 1 [digit A] (digit A) (SP + 2)
          (returnAddress PROGMEM ⟨⟨A, X, Y, SP, P, PRHEX⟩, mem⟩)
          ⟨⟨⟨A, X, Y, SP, P, PRHEX⟩, mem⟩, ws⟩) ⟨⟨cpu, mem⟩, ws⟩ := by
    intro cpu hPC hA hX hY hSP
    exact Returns.withCpu (r := ⟨⟨⟨A, X, Y, SP, P, PRHEX⟩, mem⟩, ws⟩)
      (hA ▸ echo hcode ⟨⟨cpu, mem⟩, ws⟩ hPC) hX hY hSP
  refine hcode.quiet PRHEX rfl (.imm .and 0x0F) ⟨mem_listing rfl, rfl⟩ nofun rfl ?_
  refine hcode.quiet 0xFFE0 rfl (.imm .ora 0x30) ⟨mem_listing rfl, rfl⟩ nofun rfl ?_
  refine hcode.quiet 0xFFE2 rfl (.imm .cmp 0x3A) ⟨mem_listing rfl, rfl⟩ nofun rfl ?_
  refine hcode.branch 0xFFE4 rfl .bcc ECHO (mem_listing rfl) rfl (fun hC => ?_) fun hC => ?_
  · have hlt : (((A &&& 0x0F) ||| 0x30) : U8).toNat < 0x3A := by
      rw [← Nat.not_le]
      exact of_decide_eq_false (Bool.not_inj hC)
    exact hecho _ rfl (hdigit (hlow.mpr hlt)) rfl rfl rfl
  · have hge : (decide (0x3A ≤ (((A &&& 0x0F) ||| 0x30) : U8).toNat)) = true := Bool.not_inj hC
    refine hcode.adcCarry 0xFFE6 rfl 0x06 (mem_listing rfl) hge fun P' _ => ?_
    refine hecho _ rfl (hletter ?_) rfl rfl rfl
    rw [hlow, Nat.not_lt]
    exact of_decide_eq_true hge

/-- **`PRBYTE` prints `A` in hexadecimal.** -/
theorem prbyte : Subroutine PROGMEM G PRBYTE 4 hexByte digit := by
  rintro ⟨⟨⟨A, X, Y, SP, P, PC⟩, mem⟩, ws⟩ hPC
  obtain rfl : PC = PRBYTE := hPC
  have hhigh : A >>> 1 >>> 1 >>> 1 >>> 1 = A >>> 4 := by simp only [← BitVec.shiftRight_add]
  have hSP : SP - 1 + 1 = SP := BitVec.sub_add_cancel SP 1
  refine hcode.line PRBYTE rfl (.imp .pha) ⟨mem_listing rfl, rfl⟩ nofun ?_
  refine hcode.quiet 0xFFD6 rfl (.acc .lsr) ⟨mem_listing rfl, rfl⟩ (fun _ => rfl) rfl ?_
  refine hcode.quiet 0xFFD7 rfl (.acc .lsr) ⟨mem_listing rfl, rfl⟩ (fun _ => rfl) rfl ?_
  refine hcode.quiet 0xFFD8 rfl (.acc .lsr) ⟨mem_listing rfl, rfl⟩ (fun _ => rfl) rfl ?_
  refine hcode.quiet 0xFFD9 rfl (.acc .lsr) ⟨mem_listing rfl, rfl⟩ (fun _ => rfl) rfl ?_
  refine call hcode 0xFFDA PRHEX rfl (mem_listing rfl) (prhex hcode) fun r₁ h₁ => ?_
  have hSP₁ : r₁.state.cpu.SP = SP - 1 := h₁.SP
  have hX₁ : r₁.state.cpu.X = X := h₁.X
  have hY₁ : r₁.state.cpu.Y = Y := h₁.Y
  have hPC₁ : r₁.state.cpu.PC = 0xFFDD := h₁.PC
  have hkept₁ : Kept PROGMEM (SP - 1) 3 (storeByte mem (stack SP) A)
    r₁.state.mem := h₁.kept
  have hprinted₁ : printed r₁.stores = printed (ws ++ [(stack SP, A)]) ++
    [digit (A >>> 1 >>> 1 >>> 1 >>> 1)] := h₁.printed
  rw [printed_push, hhigh] at hprinted₁
  clear h₁
  have hA : (busSpace PROGMEM b).pulled r₁.state 1 = A :=
    (hkept₁.pulled ⟨A, X, Y, SP - 1, P, 0xFFDD⟩ r₁.state.cpu rfl hSP₁ Nat.one_pos
      (by decide)).trans (pulled_pushed hSP mem A)
  have hkept : Kept PROGMEM SP 4 mem r₁.state.mem :=
    (kept_push (by decide) mem A).trans (hkept₁.below 1)
  refine hcode.quiet 0xFFDD hPC₁ (.imp .pla) ⟨mem_listing rfl, rfl⟩ nofun rfl ?_
  refine (prhex hcode _ (congrArg (· + 1) hPC₁)).mono fun r' h' => ?_
  have hup : r₁.state.cpu.SP + 1 = SP := hSP₁ ▸ hSP
  have hkept' : Kept PROGMEM (r₁.state.cpu.SP + 1) 1 r₁.state.mem r'.state.mem := h'.kept
  have hprinted' : printed r'.stores = printed r₁.stores ++
    [digit ((busSpace PROGMEM b).pulled r₁.state 1)] := h'.printed
  rw [hA, hprinted₁, List.append_assoc] at hprinted'
  rw [hup] at hkept'
  exact ⟨h'.A.trans (congrArg digit hA), h'.X.trans hX₁, h'.Y.trans hY₁,
    h'.SP.trans (congrArg (· + 2) hup),
    h'.PC.trans (hkept.returnAddress ⟨A, X, Y, SP, P, PRBYTE⟩ _ rfl hup (by decide)),
    hkept.trans (hkept'.mono (by decide)), hprinted'⟩

end Rules

/-! ## On the code -/

/-- The bytes of a text. -/
def ascii (s : List Char) : List U8 := s.map asciiByte

theorem hexByte_eq {v : U8} {d₁ d₀ : Nat} (h₁ : d₁ < 16) (h₀ : d₀ < 16)
    (hv : d₀ + 16 * d₁ = v.toNat) : hexByte v = [d₁, d₀].map fun d => asciiByte (hexUpper d) := by
  have hhigh : (v >>> 4).toNat % 16 = d₁ := by
    rw [BitVec.toNat_ushiftRight, Nat.shiftRight_eq_div_pow]
    omega
  have hlow : v.toNat % 16 = d₀ := by omega
  unfold hexByte digit
  rw [hhigh, hlow]
  rfl

/-- A byte in hexadecimal is the digits of its halves. -/
theorem ascii_printX (v : U8) : ascii (printX 2 v.toNat) = hexByte v := by
  obtain ⟨ds, hprint, hlen, hds, hvalue⟩ := printX_spec (show v.toNat < 16 ^ 2 from v.isLt)
  match ds, hlen with
  | [d₁, d₀], _ =>
    simp only [List.reverse_cons, List.reverse_nil, List.nil_append, List.singleton_append,
      Nat.ofDigits_cons, Nat.ofDigits_nil, Nat.mul_zero, Nat.add_zero] at hvalue
    rw [hprint, hexByte_eq (hds d₁ (by simp)) (hds d₀ (by simp)) hvalue]
    rfl

/-- And a word is its two bytes, the high one first. -/
theorem ascii_printX_word (low high : U8) :
    ascii (printX 4 (word low high).toNat) = hexByte high ++ hexByte low := by
  obtain ⟨ds, hprint, hlen, hds, hvalue⟩ :=
    printX_spec (show (word low high).toNat < 16 ^ 4 from (word low high).isLt)
  match ds, hlen with
  | [d₃, d₂, d₁, d₀], _ =>
    simp only [List.reverse_cons, List.reverse_nil, List.nil_append, List.cons_append,
      Nat.ofDigits_cons, Nat.ofDigits_nil, Nat.mul_zero, Nat.add_zero] at hvalue
    rw [word_toNat] at hvalue
    have h₃ := hds d₃ (by simp)
    have h₂ := hds d₂ (by simp)
    have h₁ := hds d₁ (by simp)
    have h₀ := hds d₀ (by simp)
    have hlt := low.isLt
    rw [hprint, hexByte_eq h₃ h₂ (by omega), hexByte_eq h₁ h₀ (by omega)]
    rfl

theorem printCode_subset : printCode ⊆ examineCode := by decide +kernel

theorem examineCode_subset : examineCode ⊆ code := by decide +kernel

theorem romCode_monitor (hcode : CodeAt PROGMEM 0xFF00 monitorCode)
    {G : Line → State (Memory b) → Prop} (hmeets : ∀ e ∈ code, ∀ s, s.cpu.PC = e.1 →
      Regular PROGMEM e.2 s → G e.2 s) : RomCode b PROGMEM G code :=
  romCode_listing PROGMEM IRQ lines hcode (by decide +kernel) (by decide +kernel) hmeets

theorem romCode_regular (hcode : CodeAt PROGMEM 0xFF00 monitorCode) :
    RomCode b PROGMEM (Regular PROGMEM) code :=
  romCode_monitor hcode fun _ _ _ _ h => h

/-- **On the code `PRBYTE` prints `A` as `%02X` does**, and comes back with `X`, `Y` and `SP` as
    its caller had them and every byte as it was, but for the cells of `ACIA_DATA` and of four
    pushes. -/
theorem prbyte_prints (b : Build) (PROGMEM : Progmem) (hcode : CodeAt PROGMEM 0xFF00 monitorCode)
    (p : Logged b) (hPC : p.1.1.cpu.PC = PRBYTE) :
    Arrives (LogNext PROGMEM) (fun q => Leaves PROGMEM 4 (ascii (printX 2 p.1.1.cpu.A.toNat))
      (digit p.1.1.cpu.A) (p.1.1.cpu.SP + 2) (returnAddress PROGMEM (ref p.1)) p.run q.run) p := by
  rw [ascii_printX]
  have hprint := ((romCode_regular (b := b) hcode).mono examineCode_subset).mono printCode_subset
  exact arrives_code PROGMEM (prbyte hprint p.run hPC)

/-- A machine at `PRBYTE`. -/
def prbyteState (A : U8) : Logged ⟨false⟩ :=
  (callStart { olc6502Init with PC := PRBYTE, A := A } false ⟨fun _ => 0⟩ 1, [])

theorem monitorCode_fits : 0xFF00 + monitorCode.length ≤ 0x10000 := by decide +kernel

theorem prbyte_prints_c7 :
    Arrives (LogNext (progmemAt 0xFF00 monitorCode)) (fun q => printed q.2 = [0x43, 0x37])
      (prbyteState 0xC7) :=
  (prbyte_prints ⟨false⟩ (progmemAt 0xFF00 monitorCode)
    (codeAt_progmemAt (by decide) monitorCode_fits) (prbyteState 0xC7) rfl).mono fun q hq => by
      have hprinted : printed q.2 = [] ++ ascii (printX 2 (0xC7 : U8).toNat) := hq.printed
      rw [hprinted, ascii_printX]
      decide

end Monitor

end M6502
