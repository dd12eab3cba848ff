import M6502.Proof.Monitor.Parse

/-!
# Examining a byte

In the mode `XAM` a number that has been read is an address to open: `SETADR` copies it to the
store index and to the examine index, and from `NXTPRNT` on it is printed, and the byte there
after it (`examine`). The subroutines called leave page zero alone, so that what is printed of
the index is what was typed (`Emits`).
-/

set_option autoImplicit false

namespace M6502

open Lib Cpu Isa

namespace Monitor

variable {b : Build} {PROGMEM : Progmem}

attribute [local irreducible] storeByte

/-! ## Printing, and nothing else -/

/-- From `r` to `r'` the text `out` is printed. Nothing else is left of it but what is in the
    cells below `SP`. -/
structure Emits (PROGMEM : Progmem) (r : Run (Memory b)) (out : List U8) (r' : Run (Memory b)) :
    Prop where
  X : r'.state.cpu.X = r.state.cpu.X
  Y : r'.state.cpu.Y = r.state.cpu.Y
  SP : r'.state.cpu.SP = r.state.cpu.SP
  kept : Kept PROGMEM r.state.cpu.SP 6 r.state.mem r'.state.mem
  printed : printed r'.stores = Monitor.printed r.stores ++ out

variable {r r' r'' : Run (Memory b)} {out out' : List U8}

theorem Emits.refl (r : Run (Memory b)) : Emits PROGMEM r [] r :=
  ⟨rfl, rfl, rfl, .refl _ _ _, (List.append_nil _).symm⟩

theorem Emits.trans (h : Emits PROGMEM r out r') (h' : Emits PROGMEM r' out' r'') :
    Emits PROGMEM r (out ++ out') r'' := by
  refine ⟨h'.X.trans h.X, h'.Y.trans h.Y, h'.SP.trans h.SP, ?_, ?_⟩
  · exact h.kept.trans (h.SP ▸ h'.kept)
  · rw [h'.printed, h.printed, List.append_assoc]

/-- Where only the accumulator is used in between. -/
theorem Emits.call {n : Nat} {A SP : U8} {PC : U16} {cpu : Isa.Cpu} (h : Emits PROGMEM r out r')
    (h' : Leaves PROGMEM n out' A SP PC (r'.withCpu cpu) r'') (hn : n ≤ 6)
    (hX : cpu.X = r'.state.cpu.X) (hY : cpu.Y = r'.state.cpu.Y)
    (hcpu : cpu.SP = r'.state.cpu.SP) (hSP : SP = cpu.SP) : Emits PROGMEM r (out ++ out') r'' :=
  h.trans ⟨h'.X.trans hX, h'.Y.trans hY, h'.SP.trans (hSP.trans hcpu), hcpu ▸ h'.kept.mono hn,
    h'.printed⟩

/-- A cell of page zero stays. -/
theorem Emits.zeroPage (h : Emits PROGMEM r out r') {a : Nat} (ha : a < 0x100) :
    peek PROGMEM r'.state.mem (.ofNat 16 a) = peek PROGMEM r.state.mem (.ofNat 16 a) := by
  have hcell : cellIndex b (.ofNat 16 a) = a := cellIndex_ram (by omega)
  refine h.kept _ ?_ fun j _ => ?_
  · rw [hcell, cellIndex_aciaData]
    omega
  · rw [hcell, cellIndex_stackAddress]
    omega

/-! ## The address opened -/

/-- The store index and the examine index are what is in `L` and `H`. -/
structure Opened (PROGMEM : Progmem) (mem₀ mem : Memory b) : Prop where
  xam : peek PROGMEM mem XAML = peek PROGMEM mem₀ L ∧ peek PROGMEM mem XAMH = peek PROGMEM mem₀ H
  st : peek PROGMEM mem STL = peek PROGMEM mem₀ L ∧ peek PROGMEM mem STH = peek PROGMEM mem₀ H
  kept : ∀ a : U16, cellIndex b a ∉ [0x24, 0x25, 0x26, 0x27] →
    peek PROGMEM mem a = peek PROGMEM mem₀ a

/-- A byte stored in two cells of page zero. -/
theorem copy_twice (mem : Memory b) (v : U8) {a c d : Nat} (ha : a < 0x100) (hd : d < 0x100)
    (hc : c < 0x100) :
    peek PROGMEM (storeByte (storeByte mem (.ofNat 16 a) v) (.ofNat 16 d) v) (.ofNat 16 c) =
      if c = a ∨ c = d then v else peek PROGMEM mem (.ofNat 16 c) := by
  have hcell : ∀ k < 0x100, cellIndex b (.ofNat 16 k) = k := fun k hk => cellIndex_ram (by omega)
  have hlow : ∀ k < 0x100, (BitVec.ofNat 16 k).toNat < 0x8000 := by
    intro k hk
    rw [toNat_ofNat_address (by omega)]
    omega
  by_cases hcd : c = d
  · subst hcd
    rw [if_pos (.inr rfl), peek_storeByte_same _ _ (hlow c hc)]
  rw [peek_storeByte_of_ne _ _ (hlow d hd) (by rwa [hcell c hc, hcell d hd])]
  by_cases hca : c = a
  · subst hca
    rw [if_pos (.inl rfl), peek_storeByte_same _ _ (hlow c hc)]
  · rw [peek_storeByte_of_ne _ _ (hlow a ha) (by rwa [hcell c hc, hcell a ha]),
      if_neg (not_or.mpr ⟨hca, hcd⟩)]

/-- The address of a byte of page zero, `X` cells on. -/
def zeroPageX (arg : U16) (X : U8) : U16 := (arg.setWidth 8 + X).setWidth 16

theorem opened (mem : Memory b) :
    let v := peek PROGMEM mem (zeroPageX (L - 1) 0x02)
    let mem₁ := storeByte (storeByte mem (zeroPageX (STL - 1) 0x02) v) (zeroPageX (XAML - 1) 0x02) v
    let v₁ := peek PROGMEM mem₁ (zeroPageX (L - 1) (0x02 - 1))
    Opened PROGMEM mem (storeByte (storeByte mem₁ (zeroPageX (STL - 1) (0x02 - 1)) v₁)
      (zeroPageX (XAML - 1) (0x02 - 1)) v₁) := by
  intro v mem₁ v₁
  have hlow : v₁ = peek PROGMEM mem L :=
    copy_twice (a := 0x27) (c := 0x28) (d := 0x25) mem v (by decide) (by decide) (by decide)
  have hread : ∀ c < 0x100, peek PROGMEM (storeByte (storeByte mem₁ (zeroPageX (STL - 1) (0x02 - 1))
      v₁) (zeroPageX (XAML - 1) (0x02 - 1)) v₁) (.ofNat 16 c) =
      if c = 0x26 ∨ c = 0x24 then v₁
      else if c = 0x27 ∨ c = 0x25 then v else peek PROGMEM mem (.ofNat 16 c) := by
    intro c hc
    have hfirst : peek PROGMEM mem₁ (.ofNat 16 c) = _ :=
      copy_twice (a := 0x27) (c := c) (d := 0x25) mem v (by decide) (by decide) hc
    rw [← hfirst]
    exact copy_twice (a := 0x26) (c := c) (d := 0x24) mem₁ v₁ (by decide) (by decide) hc
  refine ⟨⟨(hread 0x24 (by decide)).trans hlow, hread 0x25 (by decide)⟩,
    ⟨(hread 0x26 (by decide)).trans hlow, hread 0x27 (by decide)⟩, fun a ha => ?_⟩
  simp only [List.mem_cons, List.not_mem_nil, or_false, not_or] at ha
  obtain ⟨h₄, h₅, h₆, h₇⟩ := ha
  have hne : ∀ k < 0x100, cellIndex b a ≠ k → cellIndex b a ≠ cellIndex b (.ofNat 16 k) := by
    intro k hk hak
    rwa [cellIndex_ram (by omega)]
  exact (peek_storeByte_of_ne _ _ (by decide) (hne 0x24 (by decide) h₄)).trans
    ((peek_storeByte_of_ne _ _ (by decide) (hne 0x26 (by decide) h₆)).trans
      ((peek_storeByte_of_ne _ _ (by decide) (hne 0x25 (by decide) h₅)).trans
        (peek_storeByte_of_ne _ _ (by decide) (hne 0x27 (by decide) h₇))))

/-- The cells a command works in: the variables, `ACIA_DATA` and six cells of the stack. -/
def Scratch (b : Build) (SP : U8) (i : Nat) : Prop :=
  0x24 ≤ i ∧ i ≤ 0x2A ∨ i = cellIndex b aciaData ∨
    ∃ j < 6, i = cellIndex b (stackAddress (SP - .ofNat 8 j))

/-- At `XAMNEXT`, after the byte `v` at `w` has been printed. -/
structure Examined (PROGMEM : Progmem) (mem₀ : Memory b) (sp y : U8) (w : U16) (v : U8)
    (out : List U8) (r' : Run (Memory b)) : Prop where
  PC : r'.state.cpu.PC = XAMNEXT
  X : r'.state.cpu.X = 0
  Y : r'.state.cpu.Y = y
  SP : r'.state.cpu.SP = sp
  xam : word (peek PROGMEM r'.state.mem XAML) (peek PROGMEM r'.state.mem XAMH) = w
  st : word (peek PROGMEM r'.state.mem STL) (peek PROGMEM r'.state.mem STH) = w
  last : word (peek PROGMEM r'.state.mem L) (peek PROGMEM r'.state.mem H) = w
  kept : ∀ a : U16, ¬ Scratch b sp (cellIndex b a) →
    peek PROGMEM r'.state.mem a = peek PROGMEM mem₀ a
  value : ¬ Scratch b sp (cellIndex b w) → v = peek PROGMEM mem₀ w
  printed : printed r'.stores = out ++ [0x0D] ++ ascii (printX 4 w.toNat) ++ [0x3A, 0x20] ++
    ascii (printX 2 v.toNat)

theorem Emits.kept_of (h : Emits PROGMEM r out r') {a : U16}
    (ha : ¬ Scratch b r.state.cpu.SP (cellIndex b a)) :
    peek PROGMEM r'.state.mem a = peek PROGMEM r.state.mem a :=
  h.kept a (fun hacia => ha (.inr (.inl hacia))) fun j hj hstack => ha (.inr (.inr ⟨j, hj, hstack⟩))

/-- What the parts of the command come to. -/
theorem examined {A SP Y : U8} {P : Status} {PC : U16} {mem₀ mem mem₁ : Memory b}
    {ws ws₁ : List (U16 × U8)} {y n : Nat} {r₂ r₃ : Run (Memory b)}
    (hread : Read PROGMEM mem₀ y n mem) (hopened : Opened PROGMEM mem mem₁)
    (hws : printed ws₁ = printed ws)
    (e₂ : Emits PROGMEM ⟨⟨⟨A, 0, Y, SP, P, PC⟩, mem₁⟩, ws₁⟩
      ([] ++ [0x0D] ++ hexByte (peek PROGMEM mem₁ XAMH) ++ hexByte (peek PROGMEM mem₁ XAML) ++
        [0x3A] ++ [0x20]) r₂)
    (e₃ : Emits PROGMEM r₂ ([] ++ hexByte (peek PROGMEM r₂.state.mem
      ((busSpace PROGMEM b).pointer r₂.state.mem 0x24))) r₃)
    (hPC : r₃.state.cpu.PC = XAMNEXT) :
    Examined PROGMEM mem₀ SP Y (.ofNat 16 n) (peek PROGMEM r₂.state.mem (.ofNat 16 n)) (printed ws)
      r₃ := by
  have hSP : r₂.state.cpu.SP = SP := e₂.SP
  -- the index is what was read, before and after the printing
  have hword : word (peek PROGMEM mem L) (peek PROGMEM mem H) = .ofNat 16 n :=
    BitVec.eq_of_toNat_eq (by rw [word_toNat, hread.value, BitVec.toNat_ofNat])
  have hpointer : (busSpace PROGMEM b).pointer r₂.state.mem 0x24 = .ofNat 16 n := by
    have hlow : peek PROGMEM r₂.state.mem XAML = peek PROGMEM mem₁ XAML :=
      e₂.zeroPage (show 0x24 < 0x100 by decide)
    have hhigh : peek PROGMEM r₂.state.mem XAMH = peek PROGMEM mem₁ XAMH :=
      e₂.zeroPage (show 0x25 < 0x100 by decide)
    show Isa.word (peek PROGMEM r₂.state.mem XAML) (peek PROGMEM r₂.state.mem XAMH) = _
    rw [isa_word, hlow, hhigh, hopened.xam.1, hopened.xam.2, hword]
  have hcell : ∀ k < 0x100, peek PROGMEM r₃.state.mem (.ofNat 16 k) =
      peek PROGMEM mem₁ (.ofNat 16 k) := fun k hk => (e₃.zeroPage hk).trans (e₂.zeroPage hk)
  have hkept : ∀ a : U16, ¬ Scratch b SP (cellIndex b a) →
      peek PROGMEM r₂.state.mem a = peek PROGMEM mem₀ a := by
    intro a ha
    rw [e₂.kept_of ha, hopened.kept a, hread.kept a]
    all_goals
      intro hmem
      simp only [List.mem_cons, List.not_mem_nil, or_false] at hmem
      exact ha (.inl (by omega))
  refine ⟨hPC, e₃.X.trans e₂.X, e₃.Y.trans e₂.Y, e₃.SP.trans hSP, ?_, ?_, ?_, fun a ha => ?_,
    fun hw => hkept _ hw, ?_⟩
  · have hlow : peek PROGMEM r₃.state.mem XAML = _ := hcell 0x24 (by decide)
    have hhigh : peek PROGMEM r₃.state.mem XAMH = _ := hcell 0x25 (by decide)
    rw [hlow, hhigh, ← hword]
    exact congrArg₂ word hopened.xam.1 hopened.xam.2
  · have hlow : peek PROGMEM r₃.state.mem STL = _ := hcell 0x26 (by decide)
    have hhigh : peek PROGMEM r₃.state.mem STH = _ := hcell 0x27 (by decide)
    rw [hlow, hhigh, ← hword]
    exact congrArg₂ word hopened.st.1 hopened.st.2
  · have hlow : peek PROGMEM r₃.state.mem L = _ := hcell 0x28 (by decide)
    have hhigh : peek PROGMEM r₃.state.mem H = _ := hcell 0x29 (by decide)
    rw [hlow, hhigh, ← hword]
    exact congrArg₂ word (hopened.kept L (by rw [cellIndex_L]; decide))
      (hopened.kept H (by rw [cellIndex_H]; decide))
  · rw [e₃.kept_of (by rwa [hSP]), hkept a ha]
  · rw [e₃.printed, e₂.printed, hpointer, ascii_printX, ← hword, ascii_printX_word,
      hopened.xam.1, hopened.xam.2]
    show printed ws₁ ++ _ ++ _ = _
    rw [hws]
    simp only [List.nil_append, List.append_assoc, List.cons_append]

section Rules

variable {G : Line → State (Memory b) → Prop} {Q : Run (Memory b) → Prop}

section Loop

variable (hcode : RomCode b PROGMEM G examineCode)
include hcode

/-- **The line of an examined byte**, from `NXTPRNT` on. -/
theorem nxtprnt {A Y SP : U8} {P : Status} {mem : Memory b} {ws : List (U16 × U8)}
    (hZ : P.Z = true)
    (h : ∀ r', Emits PROGMEM ⟨⟨⟨A, 0, Y, SP, P, NXTPRNT⟩, mem⟩, ws⟩
        ([] ++ [0x0D] ++ hexByte (peek PROGMEM mem XAMH) ++ hexByte (peek PROGMEM mem XAML) ++
          [0x3A] ++ [0x20]) r' → r'.state.cpu.PC = 0xFFB8 →
      Arrives ((busSpace PROGMEM b).Step G) Q r') :
    Arrives ((busSpace PROGMEM b).Step G) Q
      ⟨⟨⟨A, 0, Y, SP, P, NXTPRNT⟩, mem⟩, ws⟩ := by
  have hprint := hcode.mono printCode_subset
  have hr : Emits PROGMEM ⟨⟨⟨A, 0, Y, SP, P, NXTPRNT⟩, mem⟩, ws⟩ [] _ := .refl _
  refine hcode.passed NXTPRNT rfl .bne PRDATA (mem_listing rfl) rfl (congrArg not hZ) ?_
  refine hcode.quiet 0xFF9F rfl (.imm .lda 0x0D) ⟨mem_listing rfl, rfl⟩ nofun rfl ?_
  refine call hcode 0xFFA1 ECHO rfl (mem_listing rfl) (echo hprint) fun r₁ h₁ => ?_
  have e₁ := hr.call h₁ (by decide) rfl rfl rfl rfl
  refine hcode.quiet 0xFFA4 h₁.PC (.zp .lda XAMH) ⟨mem_listing rfl, rfl⟩ nofun rfl ?_
  refine call hcode 0xFFA6 PRBYTE (congrArg (· + 2) h₁.PC) (mem_listing rfl) (prbyte hprint)
    fun r₂ h₂ => ?_
  have e₂ := e₁.call h₂ (by decide) rfl rfl rfl rfl
  refine hcode.quiet 0xFFA9 h₂.PC (.zp .lda XAML) ⟨mem_listing rfl, rfl⟩ nofun rfl ?_
  refine call hcode 0xFFAB PRBYTE (congrArg (· + 2) h₂.PC) (mem_listing rfl) (prbyte hprint)
    fun r₃ h₃ => ?_
  have e₃ := e₂.call h₃ (by decide) rfl rfl rfl rfl
  refine hcode.quiet 0xFFAE h₃.PC (.imm .lda 0x3A) ⟨mem_listing rfl, rfl⟩ nofun rfl ?_
  refine call hcode 0xFFB0 ECHO (congrArg (· + 2) h₃.PC) (mem_listing rfl) (echo hprint)
    fun r₄ h₄ => ?_
  have e₄ := e₃.call h₄ (by decide) rfl rfl rfl rfl
  refine hcode.quiet PRDATA h₄.PC (.imm .lda 0x20) ⟨mem_listing rfl, rfl⟩ nofun rfl ?_
  refine call hcode 0xFFB5 ECHO (congrArg (· + 2) h₄.PC) (mem_listing rfl) (echo hprint)
    fun r₅ h₅ => ?_
  have e₅ := e₄.call h₅ (by decide) rfl rfl rfl rfl
  have hhigh : peek PROGMEM r₁.state.mem XAMH = peek PROGMEM mem XAMH :=
    e₁.zeroPage (show 0x25 < 0x100 by decide)
  have hlow : peek PROGMEM r₂.state.mem XAML = peek PROGMEM mem XAML :=
    e₂.zeroPage (show 0x24 < 0x100 by decide)
  rw [← hhigh, ← hlow] at h
  exact h r₅ e₅ h₅.PC

/-- **The byte at the examine index.** -/
theorem byte {r : Run (Memory b)} (hPC : r.state.cpu.PC = 0xFFB8) (hX : r.state.cpu.X = 0)
    (h : ∀ r', Emits PROGMEM r ([] ++ hexByte (peek PROGMEM r.state.mem
        ((busSpace PROGMEM b).pointer r.state.mem 0x24))) r' → r'.state.cpu.PC = XAMNEXT →
      Arrives ((busSpace PROGMEM b).Step G) Q r') :
    Arrives ((busSpace PROGMEM b).Step G) Q r := by
  obtain ⟨⟨⟨A, X, Y, SP, P, PC⟩, mem⟩, ws⟩ := r
  obtain rfl : PC = 0xFFB8 := hPC
  obtain rfl : X = 0 := hX
  have hprint := hcode.mono printCode_subset
  have hr : Emits PROGMEM ⟨⟨⟨A, 0, Y, SP, P, 0xFFB8⟩, mem⟩, ws⟩ [] _ := .refl _
  have hregular : Regular PROGMEM (.indX .lda XAML) ⟨⟨A, 0, Y, SP, P, 0xFFB8⟩, mem⟩ :=
    ⟨nofun, fun _ => wrapsAlike_of_lt PROGMEM mem (show 0x24 < 255 by decide), nofun, nofun,
      trivial⟩
  have hl : (0xFFB8, .indX .lda XAML) ∈ examineCode := mem_listing rfl
  refine Isa.Arrives.quiet hcode.runs hl (hcode.meets _ hl _ rfl hregular) rfl ?_
  refine call hcode 0xFFBA PRBYTE rfl (mem_listing rfl) (prbyte hprint) fun r₁ h₁ => ?_
  exact h r₁ (hr.call h₁ (by decide) rfl rfl rfl rfl) h₁.PC

end Loop

variable (hcode : RomCode b PROGMEM G code)
include hcode

/-- A round of `SETADR`. -/
theorem setadr_round {A X Y SP : U8} {P : Status} {mem : Memory b} {ws : List (U16 × U8)}
    (last : Bool) (hX : (X - 1 == 0) = last) (hlt : (zeroPageX (STL - 1) X).toNat < 0x8000)
    (hlt' : (zeroPageX (XAML - 1) X).toNat < 0x8000)
    (hst : zeroPageX (STL - 1) X ≠ aciaData) (hxam : zeroPageX (XAML - 1) X ≠ aciaData)
    (h : ∀ P' ws', P'.Z = last → printed ws' = printed ws →
      let v := peek PROGMEM mem (zeroPageX (L - 1) X)
      Arrives ((busSpace PROGMEM b).Step G) Q
        ⟨⟨⟨v, X - 1, Y, SP, P', bif last then NXTPRNT else SETADR⟩,
          storeByte (storeByte mem (zeroPageX (STL - 1) X) v) (zeroPageX (XAML - 1) X) v⟩, ws'⟩) :
    Arrives ((busSpace PROGMEM b).Step G) Q
      ⟨⟨⟨A, X, Y, SP, P, SETADR⟩, mem⟩, ws⟩ := by
  have hws : ∀ v : U8, printed (ws ++ [(zeroPageX (STL - 1) X, v)] ++
      [(zeroPageX (XAML - 1) X, v)]) = printed ws := by
    intro v
    rw [printed_ram _ hxam, printed_ram _ hst]
  refine hcode.quiet SETADR rfl (.zpX .lda (L - 1)) ⟨mem_listing rfl, rfl⟩ nofun rfl ?_
  refine hcode.line 0xFF96 rfl (.zpX .sta (STL - 1)) ⟨mem_listing rfl, rfl⟩ (fun _ _ => hlt) ?_
  refine hcode.line 0xFF98 rfl (.zpX .sta (XAML - 1)) ⟨mem_listing rfl, rfl⟩ (fun _ _ => hlt') ?_
  refine hcode.quiet 0xFF9A rfl (.imp .dex) ⟨mem_listing rfl, rfl⟩ nofun rfl ?_
  cases last with
  | false =>
    refine hcode.taken 0xFF9B rfl .bne SETADR (mem_listing rfl) rfl (congrArg not hX) ?_
    exact h _ _ hX (hws _)
  | true =>
    refine hcode.passed 0xFF9B rfl .bne SETADR (mem_listing rfl) rfl (congrArg not hX) ?_
    exact h _ _ hX (hws _)

/-- **The two bytes of the address are copied.** -/
theorem setadr {A Y SP : U8} {P : Status} {mem : Memory b} {ws : List (U16 × U8)}
    (h : ∀ A' P' mem' ws', P'.Z = true → Opened PROGMEM mem mem' → printed ws' = printed ws →
      Arrives ((busSpace PROGMEM b).Step G) Q
        ⟨⟨⟨A', 0, Y, SP, P', NXTPRNT⟩, mem'⟩, ws'⟩) :
    Arrives ((busSpace PROGMEM b).Step G) Q
      ⟨⟨⟨A, 0x02, Y, SP, P, SETADR⟩, mem⟩, ws⟩ := by
  refine setadr_round hcode false rfl (by decide) (by decide) (by decide) (by decide)
    fun P₁ ws₁ _ hws₁ => ?_
  refine setadr_round hcode true rfl (by decide) (by decide) (by decide) (by decide)
    fun P₂ ws₂ hZ hws₂ => ?_
  exact h _ P₂ _ ws₂ hZ (opened mem) (hws₂.trans hws₁)

/-- **What `XAM` does with a number**, from `NOTHEX` to `XAMNEXT`. -/
theorem examine {A SP : U8} {P : Status} {mem₀ mem : Memory b} {ws : List (U16 × U8)}
    {y k n : Nat} (hk : 0 < k) (hk' : k < 128) (hV : P.V = false)
    (hread : Read PROGMEM mem₀ y n mem) (hmode : peek PROGMEM mem₀ MODE = 0) :
    Arrives ((busSpace PROGMEM b).Step G)
      (fun r' => ∃ v, Examined PROGMEM mem₀ SP (.ofNat 8 (y + k)) (.ofNat 16 n) v (printed ws) r')
      ⟨⟨⟨A, 0, .ofNat 8 (y + k), SP, P, NOTHEX⟩, mem⟩, ws⟩ := by
  obtain ⟨hne, hpos⟩ := hread.compared hk hk'
  have hcell : cellIndex b MODE ∉ [0x28, 0x29, 0x2A] := by
    rw [show cellIndex b MODE = 0x2B from rfl]
    decide
  have hzero : peek PROGMEM mem MODE = 0 := (hread.kept MODE hcell).trans hmode
  refine hcode.quiet NOTHEX rfl (.zp .cpy YSAV) ⟨mem_listing rfl, rfl⟩ nofun rfl ?_
  refine hcode.passed 0xFF7A rfl .beq ESCAPE (mem_listing rfl) rfl hne ?_
  have hl : (0xFF7C, .zp .bit MODE) ∈ code := mem_listing rfl
  refine Isa.Arrives.quiet hcode.runs hl (hcode.meets _ hl _ rfl ⟨nofun, nofun, nofun, nofun,
    fun hN => absurd (hpos.symm.trans hN) (by decide),
    fun h => absurd (hV.symm.trans h) (by decide)⟩) rfl ?_
  refine hcode.taken 0xFF7E rfl .bvc NOTSTOR (mem_listing rfl) rfl
    (congrArg (fun v : U8 => !v.getLsbD 6) hzero) ?_
  refine hcode.passed NOTSTOR rfl .bmi XAMNEXT (mem_listing rfl) rfl
    (congrArg (fun v : U8 => v.getLsbD 7) hzero) ?_
  refine hcode.quiet 0xFF92 rfl (.imm .ldx 0x02) ⟨mem_listing rfl, rfl⟩ nofun rfl ?_
  refine setadr hcode fun A₁ P₁ mem₁ ws₁ hZ hopened hws₁ => ?_
  have hloop := hcode.mono examineCode_subset
  refine nxtprnt hloop hZ fun r₂ e₂ hPC₂ => ?_
  refine byte hloop hPC₂ e₂.X fun r₃ e₃ hPC₃ => .done ⟨peek PROGMEM r₂.state.mem (.ofNat 16 n), ?_⟩
  exact examined hread hopened hws₁ e₂ e₃ hPC₃

end Rules

/-! ## On the code -/

/-- **On the code an address typed in the mode `XAM` is examined**, from `NEXTITEM` with `X` zero:
    a new line, the address as `%04X`, a colon, a blank and the byte there as `%02X` are printed,
    the examine index and the store index are the address, and every byte is as it was but for the
    monitor's own. Which byte is printed of those is left open. The command is left at `XAMNEXT`. -/
theorem xam_examines (b : Build) (PROGMEM : Progmem) (hcode : CodeAt PROGMEM 0xFF00 monitorCode)
    (p : Logged b) (s : List Char) (hs : ∀ c ∈ s, IsDigit c) (hne : s ≠ []) (y : Nat)
    (hy : y + s.length < 256) (hlen : s.length < 128) (hPC : p.1.1.cpu.PC = NEXTITEM)
    (hX : p.1.1.cpu.X = 0) (hY : p.1.1.cpu.Y = .ofNat 8 y)
    (htyped : ∀ i c, s[i]? = some c → peek PROGMEM p.1.2 (inCell (y + i)) = asciiByte c)
    (hend : EndsNumber (peek PROGMEM p.1.2 (inCell (y + s.length))))
    (hmode : peek PROGMEM p.1.2 MODE = 0) :
    Arrives (LogNext PROGMEM) (fun q => ∃ v, Examined PROGMEM p.1.2 p.1.1.cpu.SP
      (.ofNat 8 (y + s.length)) (.ofNat 16 (hexValue 0 s)) v (printed p.2) q.run) p := by
  have hrom := romCode_regular (b := b) hcode
  refine arrives_code (P := fun r' => ∃ v, Examined PROGMEM p.1.2 p.1.1.cpu.SP
    (.ofNat 8 (y + s.length)) (.ofNat 16 (hexValue 0 s)) v (printed p.2) r') PROGMEM ?_
  rw [atItem hPC hX hY]
  refine nextitem hrom s hs hne hy htyped hend.2 fun A' P' mem' ws' hV hread hws => ?_
  rw [← hws]
  exact examine hrom (List.length_pos_iff.mpr hne) hlen (hV.trans (overflows_ascii _ hend.1)) hread
    hmode

theorem xam_examines_1f :
    Arrives (LogNext (progmemAt 0xFF00 monitorCode)) (fun q => printed q.2 =
      [0x0D] ++ ascii (printX 4 0x1F) ++ [0x3A, 0x20] ++ ascii (printX 2 0x00)) typedState :=
  (xam_examines ⟨false⟩ (progmemAt 0xFF00 monitorCode)
    (codeAt_progmemAt (by decide) monitorCode_fits) typedState ['1', 'F'] isDigit_1f
    (List.cons_ne_nil _ _) 0 (by decide) (by decide) rfl rfl rfl typed_1f
    ⟨by decide, by decide⟩ rfl).mono fun q ⟨v, hv⟩ => by
      have hzero : v = 0x00 := hv.value (by unfold Scratch; decide)
      have hprinted := hv.printed
      rw [hzero] at hprinted
      exact hprinted

end Monitor

end M6502
