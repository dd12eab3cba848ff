import M6502.Proof.Isa.Flawed
import M6502.Proof.Monitor.Examine

/-!
# What becomes of the index

The monitor compares the examine index with `SBC` and steps it with `INC`, and the code has both
wrong. After the byte at an address has been printed the comparison never says that it was the
last, and what is stored for the index is 1 or 2: so bytes are printed for ever (`xam_hangs`).
-/

set_option autoImplicit false

namespace M6502

open Lib Cpu Isa

namespace Monitor

variable {b : Build} {PROGMEM : Progmem}

attribute [local irreducible] storeByte

/-! ## Between the flawed lines -/

section Rules

variable {G : Line → State (Memory b) → Prop} (hcode : RomCode b PROGMEM G examineCode)
  {Q : Run (Memory b) → Prop} {A Y SP : U8} {P : Status} {mem : Memory b} {ws : List (U16 × U8)}
include hcode

/-- Up to the `SBC` of the comparison. -/
theorem compare_index (h : ∀ P' ws', printed ws' = printed ws →
      let mem' := storeByte mem MODE 0
      Arrives ((busSpace PROGMEM b).Step G) Q
        ⟨⟨⟨peek PROGMEM mem' XAMH, 0, Y, SP, P', 0xFFC5⟩, mem'⟩, ws'⟩) :
    Arrives ((busSpace PROGMEM b).Step G) Q ⟨⟨⟨A, 0, Y, SP, P, XAMNEXT⟩, mem⟩, ws⟩ := by
  refine hcode.line XAMNEXT rfl (.zp .stx MODE) ⟨mem_listing rfl, rfl⟩
    (fun _ _ => show (MODE : U16).toNat < 0x8000 by decide) ?_
  refine hcode.quiet 0xFFBF rfl (.zp .lda XAML) ⟨mem_listing rfl, rfl⟩ nofun rfl ?_
  refine hcode.quiet 0xFFC1 rfl (.zp .cmp L) ⟨mem_listing rfl, rfl⟩ nofun rfl ?_
  refine hcode.quiet 0xFFC3 rfl (.zp .lda XAMH) ⟨mem_listing rfl, rfl⟩ nofun rfl ?_
  exact h _ _ (printed_ram _ (show (MODE : U16) ≠ aciaData by decide) _)

/-- From the step of the index on, where its low byte is not a multiple of eight. -/
theorem next_index (hZ : P.Z = false) (hlow : (peek PROGMEM mem XAML &&& 0x07 == 0) = false)
    (h : ∀ r' v, Emits PROGMEM ⟨⟨⟨A, 0, Y, SP, P, 0xFFCB⟩, mem⟩, ws⟩ (0x20 :: hexByte v) r' →
      r'.state.cpu.PC = XAMNEXT → Arrives ((busSpace PROGMEM b).Step G) Q r') :
    Arrives ((busSpace PROGMEM b).Step G) Q ⟨⟨⟨A, 0, Y, SP, P, 0xFFCB⟩, mem⟩, ws⟩ := by
  have hprint := hcode.mono printCode_subset
  have hr : Emits PROGMEM ⟨⟨⟨A, 0, Y, SP, P, 0xFFCB⟩, mem⟩, ws⟩ [] _ := .refl _
  have hpos : ∀ v : U8, (v &&& 0x07).getLsbD 7 = false := by decide
  refine hcode.taken 0xFFCB rfl .bne MOD8CHK (mem_listing rfl) rfl (congrArg not hZ) ?_
  refine hcode.quiet MOD8CHK rfl (.zp .lda XAML) ⟨mem_listing rfl, rfl⟩ nofun rfl ?_
  refine hcode.quiet 0xFFD1 rfl (.imm .and 0x07) ⟨mem_listing rfl, rfl⟩ nofun rfl ?_
  refine hcode.taken 0xFFD3 rfl .bpl NXTPRNT (mem_listing rfl) rfl (congrArg not (hpos _)) ?_
  refine hcode.taken NXTPRNT rfl .bne PRDATA (mem_listing rfl) rfl (congrArg not hlow) ?_
  refine hcode.quiet PRDATA rfl (.imm .lda 0x20) ⟨mem_listing rfl, rfl⟩ nofun rfl ?_
  refine call hcode 0xFFB5 ECHO rfl (mem_listing rfl) (echo hprint) fun r₁ h₁ => ?_
  have e₁ := hr.call h₁ (by decide) rfl rfl rfl rfl
  refine byte hcode h₁.PC e₁.X fun r₂ e₂ hPC₂ => ?_
  exact h r₂ _ (e₁.trans e₂) hPC₂

end Rules

/-! ## The loop -/

/-- `PC` is in the loop over the bytes examined, or in what that calls. -/
def InLoop (a : U16) : Prop := NXTPRNT.toNat ≤ a.toNat

/-- At `XAMNEXT`, the high bytes of the index and of the last address being the same. -/
structure Runaway (PROGMEM : Progmem) (r : Run (Memory b)) : Prop where
  PC : r.state.cpu.PC = XAMNEXT
  X : r.state.cpu.X = 0
  high : peek PROGMEM r.state.mem XAMH = peek PROGMEM r.state.mem H

/-- A store elsewhere in page zero leaves them so. -/
theorem high_stored {mem : Memory b} (a : Nat) (v : U8) (ha : a < 0x100) (hne : a ∉ [0x25, 0x29])
    (h : peek PROGMEM mem XAMH = peek PROGMEM mem H) :
    peek PROGMEM (storeByte mem (.ofNat 16 a) v) XAMH =
      peek PROGMEM (storeByte mem (.ofNat 16 a) v) H := by
  have hlow : (BitVec.ofNat 16 a).toNat < 0x8000 := by
    rw [toNat_ofNat_address (by omega)]
    omega
  have hcell : ∀ c ∈ [0x25, 0x29], cellIndex b (.ofNat 16 c) ≠ cellIndex b (.ofNat 16 a) := by
    intro c hc
    have hlt : c < 0x100 := by
      simp only [List.mem_cons, List.not_mem_nil, or_false] at hc
      omega
    rw [cellIndex_ram (by omega), cellIndex_ram (by omega)]
    rintro rfl
    exact hne hc
  have hXAMH : peek PROGMEM (storeByte mem (.ofNat 16 a) v) XAMH = peek PROGMEM mem XAMH :=
    peek_storeByte_of_ne mem v hlow (hcell 0x25 (by simp))
  have hH : peek PROGMEM (storeByte mem (.ofNat 16 a) v) H = peek PROGMEM mem H :=
    peek_storeByte_of_ne mem v hlow (hcell 0x29 (by simp))
  rw [hXAMH, hH, h]

section Code

variable (hcode : CodeAt PROGMEM 0xFF00 monitorCode)
include hcode

theorem romCode_loop : RomCode b PROGMEM (RegularWhile PROGMEM InLoop) examineCode := by
  have hregular := (romCode_regular (b := b) hcode).mono examineCode_subset
  have hin : ∀ e ∈ examineCode, NXTPRNT.toNat ≤ e.1.toNat := by decide
  exact ⟨hregular.runs, hregular.rom, fun e he s hPC hr => ⟨hr, hPC ▸ hin e he⟩⟩

variable {Q : Logged b → Prop} {p : Logged b} {A Y SP : U8} {P : Status} {mem : Memory b}
  {ws : List (U16 × U8)}

/-- **The comparison on the code**: it does not say that the last address is reached. -/
theorem code_sbc (hp : p.run = ⟨⟨⟨peek PROGMEM mem XAMH, 0, Y, SP, P, 0xFFC5⟩, mem⟩, ws⟩)
    (hhigh : peek PROGMEM mem XAMH = peek PROGMEM mem H)
    (h : ∀ A' P' (q : Logged b), A' = 0 ∨ A' = 1 → P'.C = false →
      q.run = ⟨⟨⟨A', 0, Y, SP, P', 0xFFC7⟩, mem⟩, ws⟩ → Arrives (NextWhile PROGMEM InLoop) Q q) :
    Arrives (NextWhile PROGMEM InLoop) Q p := by
  have hPC : p.1.1.cpu.PC = 0xFFC5 := congrArg (fun r => r.state.cpu.PC) hp
  have hl : (p.1.1.cpu.PC, .zp .sbc H) ∈ examineCode := hPC ▸ mem_listing rfl
  have hE : InLoop p.1.1.cpu.PC := hPC ▸ show NXTPRNT.toNat ≤ (0xFFC5 : U16).toNat by decide
  refine arrives_sbc hE ((romCode_loop hcode).runs p.run.state _ hl) (.inr rfl)
    fun cpu' q hcpu hq => ?_
  rw [hp] at hcpu hq
  have hA : cpu'.A = .ofNat 8 ((peek PROGMEM mem XAMH).toNat + 256 - (peek PROGMEM mem H).toNat +
    P.C.toNat) := hcpu.A
  have hC : cpu'.P.C = true ↔
    (peek PROGMEM mem XAMH).toNat + P.C.toNat < (peek PROGMEM mem H).toNat ∨
      ((peek PROGMEM mem XAMH).toNat + P.C.toNat = 256 ∧ (peek PROGMEM mem H).toNat = 0) := hcpu.C
  have hX : cpu'.X = 0 := hcpu.X
  have hY : cpu'.Y = Y := hcpu.Y
  have hSP : cpu'.SP = SP := hcpu.SP
  have hPC' : cpu'.PC = 0xFFC7 := hcpu.PC
  obtain ⟨A', X', Y', SP', P', PC'⟩ := cpu'
  dsimp only at hA hC hX hY hSP hPC'
  subst hX hY hSP hPC'
  rw [hhigh] at hA hC
  have hCle := P.C.toNat_le
  refine h A' P' q ?_ (Bool.eq_false_iff.mpr fun htrue => ?_) hq
  · rw [hA, Nat.add_sub_cancel_left]
    cases P.C <;> decide
  · have hlt := hC.mp htrue
    omega

/-- **The step of the index on the code.** -/
theorem code_inc (hp : p.run = ⟨⟨⟨A, 0, Y, SP, P, 0xFFC9⟩, mem⟩, ws⟩)
    (h : ∀ q : Logged b, q.run = ⟨⟨⟨A, 0, Y, SP, P.nz (A + 1), 0xFFCB⟩,
      storeByte mem XAML (A + 1)⟩, ws ++ [(XAML, A + 1)]⟩ →
      Arrives (NextWhile PROGMEM InLoop) Q q) : Arrives (NextWhile PROGMEM InLoop) Q p := by
  have hPC : p.1.1.cpu.PC = 0xFFC9 := congrArg (fun r => r.state.cpu.PC) hp
  have hl : (p.1.1.cpu.PC, .zp .inc XAML) ∈ examineCode := hPC ▸ mem_listing rfl
  have hE : InLoop p.1.1.cpu.PC := hPC ▸ show NXTPRNT.toNat ≤ (0xFFC9 : U16).toNat by decide
  refine arrives_inc hE ((romCode_loop hcode).runs p.run.state _ hl) (by decide) fun q hq => ?_
  rw [hp] at hq
  exact h q hq

/-- **A round on the code**: one byte is printed, and the next round is entered. -/
theorem runaway_round (h : Runaway PROGMEM p.run) : Arrives (NextWhile PROGMEM InLoop)
    (fun q => Runaway PROGMEM q.run ∧ ∃ v, printed q.2 = printed p.2 ++ 0x20 :: hexByte v) p := by
  have hloop := romCode_loop (b := b) hcode
  have hp : p.run = ⟨⟨⟨p.1.1.cpu.A, 0, p.1.1.cpu.Y, p.1.1.cpu.SP, p.1.1.cpu.status, XAMNEXT⟩,
      p.1.2⟩, p.2⟩ := by
    rw [← show p.1.1.cpu.X = 0 from h.X, ← show p.1.1.cpu.PC = XAMNEXT from h.PC]
    rfl
  have hhigh := high_stored 0x2B 0 (by decide) (by decide) h.high
  refine arrives_lines hp (compare_index hloop fun P₁ ws₁ hws₁ => .done fun q₁ hq₁ => ?_)
  refine code_sbc hcode hq₁ hhigh fun A P₂ q₂ hA hC hq₂ => ?_
  refine arrives_lines hq₂ (hloop.passed 0xFFC7 rfl .bcs TONEXTITEM (mem_listing rfl) rfl hC
    (.done fun q₃ hq₃ => ?_))
  refine code_inc hcode hq₃ fun q₄ hq₄ => ?_
  have hZ : (A + 1 == 0) = false ∧ ((A + 1) &&& 0x07 == 0) = false := by
    rcases hA with rfl | rfl <;> decide
  have hlow : peek PROGMEM (storeByte (storeByte p.1.2 MODE 0) XAML (A + 1)) XAML = A + 1 :=
    peek_storeByte_same _ _ (by decide)
  have hZ' : (peek PROGMEM (storeByte (storeByte p.1.2 MODE 0) XAML (A + 1)) XAML &&& 0x07 == 0) =
      false := by
    rw [hlow]
    exact hZ.2
  refine arrives_lines hq₄ (next_index hloop hZ.1 hZ' fun r v e hPC => .done fun q hq => .done ?_)
  rw [hq]
  refine ⟨⟨hPC, e.X, ?_⟩, v, ?_⟩
  · have hXAMH : peek PROGMEM r.state.mem XAMH = _ := e.zeroPage (show 0x25 < 0x100 by decide)
    have hH : peek PROGMEM r.state.mem H = _ := e.zeroPage (show 0x29 < 0x100 by decide)
    rw [hXAMH, hH]
    exact high_stored 0x24 (A + 1) (by decide) (by decide) hhigh
  · have hstores : q.2 = r.stores := congrArg Run.stores hq
    rw [hstores, e.printed, printed_ram _ (by decide), hws₁]

/-- The loop is never left. -/
theorem runaway_forever (h : Runaway PROGMEM p.run) (k : Nat) :
    Leads (LogNext PROGMEM) k p fun q => InLoop q.1.1.cpu.PC := by
  refine Leads.forever (P := fun q : Logged b => InLoop q.1.1.cpu.PC)
    (I := fun q : Logged b => Runaway PROGMEM q.run) (fun x hx => ?_) (.done h) k
  have hround := runaway_round hcode hx
  -- it is not back before it has printed something
  have hprinted : ¬ ∃ v, printed x.2 = printed x.2 ++ 0x20 :: hexByte v := by
    rintro ⟨v, hv⟩
    exact absurd (List.self_eq_append_right.mp hv) (List.cons_ne_nil _ _)
  obtain ⟨hsome, hall⟩ := hround.next fun hx' => hprinted hx'.2
  exact ⟨hsome, fun y hy => (hall y hy).mono fun _ hq => hq.1⟩

/-- After `m` rounds `m` bytes have been printed. -/
theorem runaway_prints (h : Runaway PROGMEM p.run) (m : Nat) :
    Arrives (NextWhile PROGMEM InLoop) (fun q => Runaway PROGMEM q.run ∧ ∃ vs : List U8,
      vs.length = m ∧ printed q.2 = printed p.2 ++ vs.flatMap fun v => 0x20 :: hexByte v) p := by
  induction m with
  | zero => exact .done ⟨h, [], rfl, (List.append_nil _).symm⟩
  | succ m ih =>
    refine ih.seq fun q hq => ?_
    obtain ⟨hrun, vs, hlen, hvs⟩ := hq
    refine (runaway_round hcode hrun).mono fun q' hq' => ?_
    obtain ⟨hrun', v, hv⟩ := hq'
    refine ⟨hrun', vs ++ [v], by rw [List.length_append, hlen]; rfl, ?_⟩
    rw [hv, hvs, List.flatMap_append, List.flatMap_singleton, List.append_assoc]

end Code

/-- **On the code an address typed in the mode `XAM` hangs the monitor**: when the byte has been
    printed (`xam_examines`) `PC` stays in the loop, however long the run, and bytes are printed
    without end. -/
theorem xam_hangs (b : Build) (PROGMEM : Progmem) (hcode : CodeAt PROGMEM 0xFF00 monitorCode)
    (p : Logged b) (s : List Char) (hs : ∀ c ∈ s, IsDigit c) (hne : s ≠ []) (y : Nat)
    (hy : y + s.length < 256) (hlen : s.length < 128) (hPC : p.1.1.cpu.PC = NEXTITEM)
    (hX : p.1.1.cpu.X = 0) (hY : p.1.1.cpu.Y = .ofNat 8 y)
    (htyped : ∀ i c, s[i]? = some c → peek PROGMEM p.1.2 (inCell (y + i)) = asciiByte c)
    (hend : EndsNumber (peek PROGMEM p.1.2 (inCell (y + s.length))))
    (hmode : peek PROGMEM p.1.2 MODE = 0) :
    Arrives (LogNext PROGMEM) (fun q =>
      (∃ v, Examined PROGMEM p.1.2 p.1.1.cpu.SP (.ofNat 8 (y + s.length))
        (.ofNat 16 (hexValue 0 s)) v (printed p.2) q.run) ∧
      (∀ k, Leads (LogNext PROGMEM) k q fun q' => InLoop q'.1.1.cpu.PC) ∧
      ∀ m, Arrives (LogNext PROGMEM) (fun q' => ∃ vs : List U8, vs.length = m ∧ printed q'.2 =
        printed q.2 ++ vs.flatMap fun v => 0x20 :: ascii (printX 2 v.toNat)) q) p := by
  refine (xam_examines b PROGMEM hcode p s hs hne y hy hlen hPC hX hY htyped hend hmode).mono
    fun q hq => ?_
  obtain ⟨v, hv⟩ := hq
  have hword := congrArg BitVec.toNat (hv.xam.trans hv.last.symm)
  rw [word_toNat, word_toNat] at hword
  have hlow := (peek PROGMEM q.run.state.mem XAML).isLt
  have hlow' := (peek PROGMEM q.run.state.mem L).isLt
  have hrun : Runaway PROGMEM q.run := ⟨hv.PC, hv.X, BitVec.eq_of_toNat_eq (by omega)⟩
  refine ⟨⟨v, hv⟩, runaway_forever hcode hrun, fun m => ?_⟩
  refine (arrives_of_while PROGMEM (runaway_prints hcode hrun m)).mono fun q' hq' => ?_
  obtain ⟨-, vs, hm, hvs⟩ := hq'
  simp only [ascii_printX]
  exact ⟨vs, hm, hvs⟩

/-- `1F` typed: a thousand instructions later it is still printing. -/
theorem xam_hangs_1f :
    Arrives (LogNext (progmemAt 0xFF00 monitorCode)) (fun q =>
      q.1.1.cpu.PC = XAMNEXT ∧
        Leads (LogNext (progmemAt 0xFF00 monitorCode)) 1000 q fun q' => InLoop q'.1.1.cpu.PC)
      typedState :=
  (xam_hangs ⟨false⟩ (progmemAt 0xFF00 monitorCode)
    (codeAt_progmemAt (by decide) monitorCode_fits) typedState ['1', 'F'] isDigit_1f
    (List.cons_ne_nil _ _) 0 (by decide) (by decide) rfl rfl rfl typed_1f
    ⟨by decide, by decide⟩ rfl).mono fun _ ⟨⟨_, hv⟩, hforever, _⟩ => ⟨hv.PC, hforever 1000⟩

/-! ## The store index -/

/-- Back at `NEXTITEM`, after the byte `v` has been stored at `w`. -/
structure Stored (PROGMEM : Progmem) (mem₀ : Memory b) (sp y : U8) (w : U16) (v : U8)
    (out : List U8) (r' : Run (Memory b)) : Prop where
  PC : r'.state.cpu.PC = NEXTITEM
  X : r'.state.cpu.X = 0
  Y : r'.state.cpu.Y = y
  SP : r'.state.cpu.SP = sp
  byte : cellIndex b w ∉ [0x26, 0x27] → peek PROGMEM r'.state.mem w = v
  low : peek PROGMEM r'.state.mem STL = v + 1
  high : peek PROGMEM r'.state.mem STH =
    if v = 0xFF then 0 else if cellIndex b w = 0x27 then v else peek PROGMEM mem₀ STH
  kept : ∀ a : U16, cellIndex b a ∉ [cellIndex b w, 0x26, 0x27, 0x28, 0x29, 0x2A] →
    peek PROGMEM r'.state.mem a = peek PROGMEM mem₀ a
  printed : w ≠ aciaData → printed r'.stores = out

/-- The memory after the step of the store index: both bytes are taken from what was stored. -/
def indexStepped (mem : Memory b) (v : U8) : Memory b :=
  let mem₁ := storeByte mem STL (v + 1)
  if v = 0xFF then storeByte mem₁ STH (v + 1) else mem₁

theorem peek_indexStepped (PROGMEM : Progmem) (mem : Memory b) (v : U8) :
    peek PROGMEM (indexStepped mem v) STL = v + 1 ∧
      peek PROGMEM (indexStepped mem v) STH = (if v = 0xFF then 0 else peek PROGMEM mem STH) ∧
      ∀ a : U16, cellIndex b a ≠ 0x26 → cellIndex b a ≠ 0x27 →
        peek PROGMEM (indexStepped mem v) a = peek PROGMEM mem a := by
  have hlow : (STL : U16).toNat < 0x8000 := by decide
  have hhigh : (STH : U16).toNat < 0x8000 := by decide
  have hSTL : cellIndex b STL = 0x26 := rfl
  have hSTH : cellIndex b STH = 0x27 := rfl
  have hne : cellIndex b STL ≠ cellIndex b STH := by
    rw [hSTL, hSTH]
    decide
  unfold indexStepped
  split
  next hv =>
    subst hv
    refine ⟨?_, peek_storeByte_same _ _ hhigh, fun a hl hh => ?_⟩
    · rw [peek_storeByte_of_ne _ _ hhigh hne, peek_storeByte_same _ _ hlow]
    · rw [peek_storeByte_of_ne _ _ hhigh (hSTH ▸ hh), peek_storeByte_of_ne _ _ hlow (hSTL ▸ hl)]
  next =>
    exact ⟨peek_storeByte_same _ _ hlow, peek_storeByte_of_ne _ _ hlow hne.symm,
      fun a hl _ => peek_storeByte_of_ne _ _ hlow (hSTL ▸ hl)⟩

/-- From `NOTHEX` up to the step of the index. -/
theorem store_byte {G : Line → State (Memory b) → Prop} (hcode : RomCode b PROGMEM G code)
    {Q : Run (Memory b) → Prop} {A SP : U8} {P : Status} {mem₀ mem : Memory b}
    {ws : List (U16 × U8)} {y k n : Nat} (hk : 0 < k) (hk' : k < 128)
    (hread : Read PROGMEM mem₀ y n mem) (hmode : peek PROGMEM mem₀ MODE = 0x74) {w : U16}
    (hindex : word (peek PROGMEM mem STL) (peek PROGMEM mem STH) = w) (hw : w.toNat < 0x8000)
    (h : ∀ P', let v := peek PROGMEM mem L
      Arrives ((busSpace PROGMEM b).Step G) Q
        ⟨⟨⟨v, 0, .ofNat 8 (y + k), SP, P', 0xFF84⟩, storeByte mem w v⟩, ws ++ [(w, v)]⟩) :
    Arrives ((busSpace PROGMEM b).Step G) Q
      ⟨⟨⟨A, 0, .ofNat 8 (y + k), SP, P, NOTHEX⟩, mem⟩, ws⟩ := by
  obtain ⟨hne, hpos⟩ := hread.compared hk hk'
  have hcell : cellIndex b MODE ∉ [0x28, 0x29, 0x2A] := by
    rw [show cellIndex b MODE = 0x2B from rfl]
    decide
  have hstor : peek PROGMEM mem MODE = 0x74 := (hread.kept MODE hcell).trans hmode
  have hpointer : (busSpace PROGMEM b).pointer mem 0x26 = w := by
    rw [← hindex, ← isa_word]
    rfl
  rw [← hpointer] at hw h
  refine hcode.quiet NOTHEX rfl (.zp .cpy YSAV) ⟨mem_listing rfl, rfl⟩ nofun rfl ?_
  refine hcode.passed 0xFF7A rfl .beq ESCAPE (mem_listing rfl) rfl hne ?_
  have hl : (0xFF7C, .zp .bit MODE) ∈ code := mem_listing rfl
  refine Isa.Arrives.quiet hcode.runs hl (hcode.meets _ hl _ rfl ⟨nofun, nofun, nofun, nofun,
    fun hN => absurd (hpos.symm.trans hN) (by decide),
    fun _ => congrArg (fun v : U8 => v.getLsbD 6) hstor⟩) rfl ?_
  refine hcode.passed 0xFF7E rfl .bvc NOTSTOR (mem_listing rfl) rfl
    (congrArg (fun v : U8 => !v.getLsbD 6) hstor) ?_
  refine hcode.quiet 0xFF80 rfl (.zp .lda L) ⟨mem_listing rfl, rfl⟩ nofun rfl ?_
  have hl' : (0xFF82, .indX .sta STL) ∈ code := mem_listing rfl
  refine Isa.Arrives.line hcode.runs hl' (hcode.meets _ hl' _ rfl ⟨nofun,
    fun _ => wrapsAlike_of_lt PROGMEM mem (show 0x26 < 255 by decide), nofun,
    fun _ _ => hw, trivial⟩) ?_
  exact h _

section Code

variable (hcode : CodeAt PROGMEM 0xFF00 monitorCode)
include hcode

theorem romCode_always : RomCode b PROGMEM (RegularWhile PROGMEM fun _ => True) code :=
  romCode_monitor hcode fun _ _ _ _ h => ⟨h, trivial⟩

variable {Q : Logged b → Prop} {p : Logged b} {v Y SP : U8} {P : Status} {mem : Memory b}
  {ws : List (U16 × U8)}

/-- **The step of the store index on the code.** -/
theorem code_store_inc (hp : p.run = ⟨⟨⟨v, 0, Y, SP, P, 0xFF84⟩, mem⟩, ws⟩)
    (h : ∀ (q : Logged b) P' ws', printed ws' = printed ws →
      q.run = ⟨⟨⟨v, 0, Y, SP, P', NEXTITEM⟩, indexStepped mem v⟩, ws'⟩ →
      Arrives (NextWhile PROGMEM fun _ => True) Q q) :
    Arrives (NextWhile PROGMEM fun _ => True) Q p := by
  have hrom := romCode_always (b := b) hcode
  have hPC : p.1.1.cpu.PC = 0xFF84 := congrArg (fun r => r.state.cpu.PC) hp
  have hl : (p.1.1.cpu.PC, .zp .inc STL) ∈ code := hPC ▸ mem_listing rfl
  refine arrives_inc trivial (hrom.runs p.run.state _ hl) (by decide) fun q hq => ?_
  rw [hp] at hq
  unfold indexStepped at h
  by_cases hv : v = 0xFF
  · subst hv
    have hZ : ((0xFF : U8) + 1 == 0) = true := by decide
    refine arrives_lines hq (hrom.passed 0xFF86 rfl .bne NEXTITEM (mem_listing rfl) rfl
      (congrArg not hZ) (.done fun q₁ hq₁ => ?_))
    have hPC₁ : q₁.1.1.cpu.PC = 0xFF88 := congrArg (fun r => r.state.cpu.PC) hq₁
    have hl₁ : (q₁.1.1.cpu.PC, .zp .inc STH) ∈ code := hPC₁ ▸ mem_listing rfl
    refine arrives_inc trivial (hrom.runs q₁.run.state _ hl₁) (by decide) fun q₂ hq₂ => ?_
    rw [hq₁] at hq₂
    refine arrives_lines hq₂ (hrom.quiet TONEXTITEM rfl (.abs .jmp NEXTITEM)
      ⟨mem_listing rfl, rfl⟩ nofun rfl (.done fun q₃ hq₃ => ?_))
    refine h q₃ _ _ ?_ hq₃
    exact (printed_ram _ (by decide) _).trans (printed_ram _ (by decide) _)
  · have hne : (v + 1 == 0) = false := beq_eq_false_iff_ne.mpr (by bv_omega)
    refine arrives_lines hq (hrom.taken 0xFF86 rfl .bne NEXTITEM (mem_listing rfl) rfl
      (congrArg not hne) (.done fun q₁ hq₁ => ?_))
    rw [if_neg hv] at h
    exact h q₁ _ _ (printed_ram _ (by decide) _) hq₁

end Code

/-- What the parts of the command come to. -/
theorem stored {mem₀ mem : Memory b} {sp A Y : U8} {P : Status} {w : U16} {v : U8} {y n : Nat}
    {out : List U8} {ws : List (U16 × U8)} (hread : Read PROGMEM mem₀ y n mem)
    (hw : w.toNat < 0x8000) (hws : w ≠ aciaData → Monitor.printed ws = out) :
    Stored PROGMEM mem₀ sp Y w v out
      ⟨⟨⟨A, 0, Y, sp, P, NEXTITEM⟩, indexStepped (storeByte mem w v) v⟩, ws⟩ := by
  obtain ⟨hlow, hhigh, hkept⟩ := peek_indexStepped PROGMEM (storeByte mem w v) v
  refine ⟨rfl, rfl, rfl, rfl, fun hcell => ?_, hlow, hhigh.trans ?_, fun a ha => ?_, hws⟩
  · simp only [List.mem_cons, List.not_mem_nil, or_false, not_or] at hcell
    exact (hkept w hcell.1 hcell.2).trans (peek_storeByte_same _ _ hw)
  · have hSTH : cellIndex b STH = 0x27 := rfl
    congr 1
    split
    next hcell =>
      rw [storeByte_eq _ _ hw]
      exact peek_poke_same PROGMEM mem v (by decide) (hcell.trans hSTH.symm)
    next hcell =>
      rw [peek_storeByte_of_ne _ _ hw (by rw [hSTH]; exact Ne.symm hcell)]
      exact hread.kept STH (by rw [hSTH]; decide)
  · simp only [List.mem_cons, List.not_mem_nil, or_false, not_or] at ha
    obtain ⟨hcell, hl, hh, h₁, h₂, h₃⟩ := ha
    rw [hkept a hl hh, peek_storeByte_of_ne _ _ hw hcell]
    exact hread.kept a (by simp [h₁, h₂, h₃])

/-- **On the code a number typed in the mode `STOR` is stored**, with `X` zero and the store index
    below `0x8000`: its low byte is, at the index, and `NEXTITEM` is back for the next. But the
    index is stepped to one more than the byte stored and not to one more than it was. -/
theorem stor_stores (b : Build) (PROGMEM : Progmem) (hcode : CodeAt PROGMEM 0xFF00 monitorCode)
    (p : Logged b) (s : List Char) (hs : ∀ c ∈ s, IsDigit c) (hne : s ≠ []) (y : Nat)
    (hy : y + s.length < 256) (hlen : s.length < 128) (hPC : p.1.1.cpu.PC = NEXTITEM)
    (hX : p.1.1.cpu.X = 0) (hY : p.1.1.cpu.Y = .ofNat 8 y)
    (htyped : ∀ i c, s[i]? = some c → peek PROGMEM p.1.2 (inCell (y + i)) = asciiByte c)
    (hend : NotDigit (peek PROGMEM p.1.2 (inCell (y + s.length))))
    (hmode : peek PROGMEM p.1.2 MODE = 0x74) (w : U16)
    (hindex : word (peek PROGMEM p.1.2 STL) (peek PROGMEM p.1.2 STH) = w)
    (hw : w.toNat < 0x8000) :
    Arrives (LogNext PROGMEM) (fun q => Stored PROGMEM p.1.2 p.1.1.cpu.SP
      (.ofNat 8 (y + s.length)) w (.ofNat 8 (hexValue 0 s)) (printed p.2) q.run) p := by
  refine arrives_of_while PROGMEM (E := fun _ => True) ?_
  have hrom := romCode_always (b := b) hcode
  refine arrives_lines (atItem hPC hX hY)
    (nextitem hrom s hs hne hy htyped hend fun A P mem ws _ hread hws => ?_)
  have hstl : peek PROGMEM mem STL = peek PROGMEM p.1.2 STL :=
    hread.kept STL (by rw [show cellIndex b STL = 0x26 from rfl]; decide)
  have hsth : peek PROGMEM mem STH = peek PROGMEM p.1.2 STH :=
    hread.kept STH (by rw [show cellIndex b STH = 0x27 from rfl]; decide)
  refine store_byte hrom (List.length_pos_iff.mpr hne) hlen hread hmode
    (by rw [hstl, hsth, hindex]) hw fun P₁ => .done fun q₁ hq₁ => ?_
  refine code_store_inc hcode hq₁ fun q P₂ ws₂ hws₂ hq => .done ?_
  have hv : (BitVec.ofNat 8 (hexValue 0 s) : U8) = peek PROGMEM mem L := by
    have hvalue := hread.value
    apply BitVec.eq_of_toNat_eq
    rw [BitVec.toNat_ofNat]
    have := (peek PROGMEM mem L).isLt
    omega
  rw [hq, hv]
  exact stored hread hw fun hacia => hws₂.trans ((printed_ram _ hacia _).trans hws)

/-- `1F` typed in that mode, the store index being `0300`. -/
def storingState : Logged ⟨false⟩ :=
  (callStart { olc6502Init with PC := NEXTITEM } false
    ⟨fun i => if i.val = 0x200 then 0x31 else if i.val = 0x201 then 0x46
      else if i.val = 0x202 then 0x0D else if i.val = 0x2B then 0x74
      else if i.val = 0x27 then 0x03 else 0x00⟩ 1, [])

theorem storing_1f (i : Nat) (c : Char) (hi : ['1', 'F'][i]? = some c) :
    peek (progmemAt 0xFF00 monitorCode) storingState.1.2 (inCell (0 + i)) = asciiByte c := by
  match i with
  | 0 => exact Option.some.inj hi ▸ rfl
  | 1 => exact Option.some.inj hi ▸ rfl

/-- The next number is stored at `0320`. -/
theorem stor_stores_1f :
    Arrives (LogNext (progmemAt 0xFF00 monitorCode)) (fun q =>
      peek (progmemAt 0xFF00 monitorCode) q.1.2 0x0300 = 0x1F ∧
        peek (progmemAt 0xFF00 monitorCode) q.1.2 STL = 0x20 ∧
        peek (progmemAt 0xFF00 monitorCode) q.1.2 STH = 0x03) storingState :=
  (stor_stores ⟨false⟩ (progmemAt 0xFF00 monitorCode)
    (codeAt_progmemAt (by decide) monitorCode_fits) storingState ['1', 'F'] isDigit_1f
    (List.cons_ne_nil _ _) 0 (by decide) (by decide) rfl rfl rfl storing_1f
    (by decide) rfl 0x0300 (by decide) (by decide)).mono
    fun _ hq => ⟨hq.byte (by decide), hq.low, hq.high⟩

end Monitor

end M6502
