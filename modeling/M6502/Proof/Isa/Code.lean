import M6502.Proof.Isa.Simulate

/-!
# Programs in the program image

A program assembled into PRG ROM is read from there whatever the memory holds (`runs_codeAt`),
and its lines are regular unless they take a pointer from page zero, use one of the flawed
operations or store to ROM (`regular_rom`). So what is proved of the program on the manual's
machine holds of the code (`arrives_code`).
-/

set_option autoImplicit false

namespace M6502

open Lib

variable {b : Build} (PROGMEM : Progmem)

/-! ## Code -/

theorem CodeAt.holds {p : U16} {code : List U8} (h : CodeAt PROGMEM p.toNat code)
    (mem : Memory b) : (busSpace PROGMEM b).Holds mem p code := by
  intro k v hk
  have hlt := (List.getElem?_eq_some_iff.mp hk).1
  have hdrop := h.drop PROGMEM (Nat.le_of_lt hlt)
  rw [List.drop_eq_getElem?_toList_append, hk] at hdrop
  have hpeek := CodeAt.peek PROGMEM hdrop mem
  rwa [BitVec.ofNat_add, BitVec.ofNat_toNat, BitVec.setWidth_eq] at hpeek

/-- **A program in the image runs.** -/
theorem runs_codeAt {p : U16} {ls : List Isa.Line}
    (h : CodeAt PROGMEM p.toNat (Isa.assemble p ls))
    (hf : ∀ e ∈ Isa.listing p ls, e.2.fits e.1 = true) :
    (busSpace PROGMEM b).Runs (Isa.listing p ls) :=
  Isa.Space.runs_listing _ (fun mem => h.holds PROGMEM mem) hf

/-- The image with `code` at `p`. -/
def progmemAt (p : Nat) (code : List U8) : Progmem := fun i => code.getD (i + 0x8000 - p) 0

theorem codeAt_progmemAt {p : Nat} {code : List U8} (hrom : 0x8000 ≤ p)
    (hfits : p + code.length ≤ 0x10000) : CodeAt (progmemAt p code) p code := by
  refine ⟨hrom, hfits, fun k v hk => ?_⟩
  have hlt := (List.getElem?_eq_some_iff.mp hk).1
  unfold progmemGet progmemAt
  rw [dif_pos (by omega), List.getD_eq_getElem?_getD]
  show some ((code[p - 0x8000 + k + 0x8000 - p]?).getD 0) = some v
  rw [show p - 0x8000 + k + 0x8000 - p = k by omega, hk, Option.getD_some]

theorem wordReadMeets_rom (mem : Memory b) {a : U16} (h : 0x8000 ≤ a.toNat)
    (hlast : a.toNat ≠ 0xFFFF) : WordReadMeets PROGMEM mem a := by
  refine ⟨⟨hlast, by omega, fun _ => by omega⟩, fun hram => ?_, fun hppu => ?_⟩
  · have := ramSeam_lt hram
    omega
  · have := ppuSeam_lt hppu
    omega

/-- The line has no pointer in page zero, and its operation none of the flaws. -/
def plain (l : Isa.Line) : Bool :=
  l.mode != .indirectX && l.mode != .indirectY &&
    match l.op with
    | .sbc | .clv | .tsx | .txs | .inc | .dec | .bit | .plp | .rti => false
    | .cpx | .cpy => l.mode != .immediate
    | _ => true

theorem regular_rom {l : Isa.Line} {s : Isa.State (Memory b)} (hl : plain l = true)
    (hlow : 0x8000 ≤ s.cpu.PC.toNat) (hhigh : s.cpu.PC.toNat < 0xFFFE)
    (hs : l.op.stores = true → l.mode ≠ .accumulator →
      ((busSpace PROGMEM b).address l.mode l.arg s).toNat < 0x8000) : Regular PROGMEM l s := by
  obtain ⟨op, m, arg⟩ := l
  obtain ⟨hmode, hop⟩ := Bool.and_eq_true_iff.mp hl
  obtain ⟨hX, hY⟩ := Bool.and_eq_true_iff.mp hmode
  have hnext : (s.cpu.PC + 1).toNat = s.cpu.PC.toNat + 1 := by bv_omega
  refine ⟨fun _ => wordReadMeets_rom PROGMEM s.mem (by omega) (by omega), ?_, ?_, hs, ?_⟩
  · exact fun h => absurd h (bne_iff_ne.mp hX)
  · exact fun h => absurd h (bne_iff_ne.mp hY)
  · unfold Unflawed
    cases op
    case cpx | cpy => exact bne_iff_ne.mp hop
    all_goals trivial

/-- What the manual's machine comes to through regular lines, the code comes to. -/
theorem arrives_code {P : Isa.Run (Memory b) → Prop} {p : Logged b}
    (h : Arrives ((busSpace PROGMEM b).Step (Regular PROGMEM)) P p.run) :
    Arrives (LogNext PROGMEM) (fun q => P q.run) p := (simulates_regular PROGMEM).arrives h

/-! ## Bytes that are stored -/

section Write

variable {PROGMEM} (mem : Memory b) (v : U8) {a a' : U16} (h : a.toNat < 0x8000)
include h

theorem peek_storeByte_same : peek PROGMEM (storeByte mem a v) a = v := by
  rw [storeByte_eq mem v h]
  exact peek_poke_same PROGMEM mem v h rfl

theorem peek_storeByte_of_ne (hne : cellIndex b a' ≠ cellIndex b a) :
    peek PROGMEM (storeByte mem a v) a' = peek PROGMEM mem a' := by
  rw [storeByte_eq mem v h]
  exact peek_poke_of_ne PROGMEM mem v fun _ => Ne.symm hne

end Write

/-! ## The rules of one line -/

/-- The lines are in ROM, below the vector, and run; `G` is what their steps are to meet, and
    regular ones do. -/
structure RomCode (b : Build) (PROGMEM : Progmem)
    (G : Isa.Line → Isa.State (Memory b) → Prop) (code : List (U16 × Isa.Line)) : Prop where
  runs : (busSpace PROGMEM b).Runs code
  rom : ∀ e ∈ code, 0x8000 ≤ e.1.toNat ∧ e.1.toNat < 0xFFFE
  meets : ∀ e ∈ code, ∀ s, s.cpu.PC = e.1 → Regular PROGMEM e.2 s → G e.2 s

theorem RomCode.mono {PROGMEM : Progmem} {G : Isa.Line → Isa.State (Memory b) → Prop}
    {code code' : List (U16 × Isa.Line)} (h : RomCode b PROGMEM G code) (hsub : code' ⊆ code) :
    RomCode b PROGMEM G code' :=
  ⟨fun s l hl => h.runs s l (hsub hl), fun e he => h.rom e (hsub he),
    fun e he => h.meets e (hsub he)⟩

theorem romCode_listing (p : U16) (ls : List Isa.Line)
    (h : CodeAt PROGMEM p.toNat (Isa.assemble p ls))
    (hf : ∀ e ∈ Isa.listing p ls, e.2.fits e.1 = true)
    (hrom : ∀ e ∈ Isa.listing p ls, 0x8000 ≤ e.1.toNat ∧ e.1.toNat < 0xFFFE)
    {G : Isa.Line → Isa.State (Memory b) → Prop} (hmeets : ∀ e ∈ Isa.listing p ls, ∀ s,
      s.cpu.PC = e.1 → Regular PROGMEM e.2 s → G e.2 s) :
    RomCode b PROGMEM G (Isa.listing p ls) :=
  ⟨runs_codeAt PROGMEM h hf, hrom, hmeets⟩

section Rules

variable {PROGMEM} {code : List (U16 × Isa.Line)} {G : Isa.Line → Isa.State (Memory b) → Prop}
  (hcode : RomCode b PROGMEM G code) {Q : Isa.Run (Memory b) → Prop} {r : Isa.Run (Memory b)}
  (p : U16) (hp : r.state.cpu.PC = p)
include hcode hp

/-- A plain line. -/
theorem RomCode.line (l : Isa.Line) (hl : (p, l) ∈ code ∧ plain l = true)
    (hs : l.op.stores = true → l.mode ≠ .accumulator →
      ((busSpace PROGMEM b).address l.mode l.arg r.state).toNat < 0x8000)
    (h : Arrives ((busSpace PROGMEM b).Step G) Q
      ((busSpace PROGMEM b).advance l r)) :
    Arrives ((busSpace PROGMEM b).Step G) Q r := by
  obtain ⟨hlow, hhigh⟩ := hcode.rom _ hl.1
  subst hp
  exact Isa.Arrives.line hcode.runs hl.1
    (hcode.meets _ hl.1 _ rfl (regular_rom PROGMEM hl.2 hlow hhigh hs)) h

/-- One that stores nothing. -/
theorem RomCode.quiet (l : Isa.Line) (hl : (p, l) ∈ code ∧ plain l = true)
    (hs : l.op.stores = true → l.mode = .accumulator)
    (hw : (busSpace PROGMEM b).writes l.mode l.arg r.state l.op = [])
    (h : Arrives ((busSpace PROGMEM b).Step G) Q
      (r.withCpu ((busSpace PROGMEM b).after l.mode l.arg r.state l.op))) :
    Arrives ((busSpace PROGMEM b).Step G) Q r := by
  obtain ⟨hlow, hhigh⟩ := hcode.rom _ hl.1
  subst hp
  have hr := regular_rom PROGMEM hl.2 hlow hhigh fun h hacc => absurd (hs h) hacc
  exact Isa.Arrives.quiet hcode.runs hl.1 (hcode.meets _ hl.1 _ rfl hr) hw h

/-- A branch. -/
theorem RomCode.branch (op : Isa.Op) (t : U16) (hl : (p, ⟨op, .relative, t⟩) ∈ code)
    (hb : op.isBranch = true)
    (htaken : op.taken r.state.cpu.P = true →
      Arrives ((busSpace PROGMEM b).Step G) Q
        (r.withCpu { r.state.cpu with PC := t }))
    (hnot : op.taken r.state.cpu.P = false →
      Arrives ((busSpace PROGMEM b).Step G) Q
        (r.withCpu { r.state.cpu with PC := p + 2 })) :
    Arrives ((busSpace PROGMEM b).Step G) Q r := by
  have hafter : (busSpace PROGMEM b).after .relative t r.state op =
      if op.taken r.state.cpu.P then { r.state.cpu with PC := t }
      else { r.state.cpu with PC := r.state.cpu.PC + 2 } := by
    cases op <;> first | exact absurd hb (by decide) | rfl
  obtain ⟨hplain, hstores, hwrites⟩ : plain ⟨op, .relative, t⟩ = true ∧ op.stores = false ∧
      (busSpace PROGMEM b).writes .relative t r.state op = [] := by
    cases op <;> first | exact absurd hb (by decide) | exact ⟨rfl, rfl, rfl⟩
  refine hcode.quiet p hp ⟨op, .relative, t⟩ ⟨hl, hplain⟩ (fun h => ?_) hwrites ?_
  · exact absurd (hstores.symm.trans h) Bool.false_ne_true
  show Arrives _ Q (r.withCpu ((busSpace PROGMEM b).after .relative t r.state op))
  rw [hafter]
  split
  next h => exact htaken h
  next h => exact hp ▸ hnot (Bool.eq_false_iff.mpr h)

/-- `ADC` of a constant, where the carry is set. -/
theorem RomCode.adcCarry (v : U8) (hl : (p, ⟨.adc, .immediate, v.setWidth 16⟩) ∈ code)
    (hC : r.state.cpu.P.C = true)
    (h : ∀ P' : Isa.Status, P'.V = decide (r.state.cpu.A.toInt + v.toInt + 1 < -128 ∨
        128 ≤ r.state.cpu.A.toInt + v.toInt + 1) →
      Arrives ((busSpace PROGMEM b).Step G) Q (r.withCpu { r.state.cpu with
        A := .ofNat 8 (r.state.cpu.A.toNat + v.toNat + 1), P := P', PC := p + 2 })) :
    Arrives ((busSpace PROGMEM b).Step G) Q r := by
  have hv : ((v.setWidth 16 : U16).setWidth 8 : U8) = v :=
    BitVec.setWidth_setWidth_of_le v (by decide)
  refine hcode.quiet p hp ⟨.adc, .immediate, v.setWidth 16⟩ ⟨hl, rfl⟩ nofun rfl ?_
  show Arrives _ Q (r.withCpu (Isa.Cpu.add { r.state.cpu with PC := r.state.cpu.PC + 2 }
    ((v.setWidth 16 : U16).setWidth 8)))
  rw [hv, hp]
  unfold Isa.Cpu.add
  dsimp only
  rw [hC]
  exact h _ rfl

variable (op : Isa.Op) (t : U16) (hl : (p, ⟨op, .relative, t⟩) ∈ code) (hb : op.isBranch = true)
include hl hb

/-- A branch that is taken. -/
theorem RomCode.taken (ht : op.taken r.state.cpu.P = true)
    (h : Arrives ((busSpace PROGMEM b).Step G) Q
      (r.withCpu { r.state.cpu with PC := t })) :
    Arrives ((busSpace PROGMEM b).Step G) Q r :=
  hcode.branch p hp op t hl hb (fun _ => h) fun hn => absurd (ht.symm.trans hn) (by decide)

/-- One that is not. -/
theorem RomCode.passed (hn : op.taken r.state.cpu.P = false)
    (h : Arrives ((busSpace PROGMEM b).Step G) Q
      (r.withCpu { r.state.cpu with PC := p + 2 })) :
    Arrives ((busSpace PROGMEM b).Step G) Q r :=
  hcode.branch p hp op t hl hb (fun ht => absurd (ht.symm.trans hn) (by decide)) fun _ => h

end Rules

end M6502
