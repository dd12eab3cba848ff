import M6502.Proof.Bus.Word
import M6502.Proof.Cpu.Address
import M6502.Proof.Cpu.Run

/-!
# Pointers in page zero

The two indirect modes are documented to read a pointer from page zero, wrapping around in it;
the comments of both helpers have the two `% 256`. The code adds in 16 bits and reads a word:
for `p` at 255 or above the pointer at `p` is taken from page one, in part or as a whole. So an
instruction reads page zero exactly if its `p` is below 255, and the address comes out right
exactly if the bytes read happen to be those at the wrapped addresses (`zeroPagePointer_iff`).
-/

set_option autoImplicit false

namespace M6502

open Lib Cpu

variable {b : Build} (PROGMEM : Progmem)

/-! ## The law -/

/-- The pointer at `p`, wrapping in page zero. -/
def zeroPageWord (mem : Memory b) (p : Nat) : Option U16 := do
  let low ← busReadByte PROGMEM mem (.ofNat 16 (p % 256))
  let high ← busReadByte PROGMEM mem (.ofNat 16 ((p + 1) % 256))
  return word low high

/-- What a helper called in `s` returns, and the activation it leaves. -/
def helperResult (helper : ClockM U16) (s : Clock) (mem : Memory b) : Option (U16 × Clock) :=
  ((helper s).run (bus PROGMEM) mem).map fun r => r.1

/-- `get_indexed_indirectX` returns the pointer at `arg + X`. -/
def AnswersX (s : Clock) (mem : Memory b) (arg : U8) : Prop :=
  ∃ r w, helperResult PROGMEM getIndexedIndirectX s mem = some r ∧
    zeroPageWord PROGMEM mem (arg.toNat + s.cpu.X.toNat) = some w ∧ r.1 = w

/-- `get_indexed_indirectY` returns the pointer at `arg` plus `Y`, and sets `oops_cycle`
    exactly if that is on another page. -/
def AnswersY (s : Clock) (mem : Memory b) (arg : U8) : Prop :=
  ∃ r w, helperResult PROGMEM getIndexedIndirectY s mem = some r ∧
    zeroPageWord PROGMEM mem arg.toNat = some w ∧
    r.1.toNat = (w.toNat + s.cpu.Y.toNat) % 65536 ∧
    (r.2.oopsCycle = true ↔ w.toNat / 256 ≠ r.1.toNat / 256)

/-- Every word the next instruction reads is in page zero with both its bytes. -/
def ReadsPageZero (x : Machine b) : Prop :=
  ∀ o ∈ (execute (opcodeAt PROGMEM x) x.1.afterFetch).trace (busTotal PROGMEM) x.2,
    ∀ a, o.1 = .readWord a → a.toNat + 1 < 0x100

/-- The two bytes from `p` on are those at the wrapped addresses. Below 255 they are by
    themselves. -/
def WrapsAlike (mem : Memory b) (p : Nat) : Prop :=
  busReadByte PROGMEM mem (.ofNat 16 p) = busReadByte PROGMEM mem (.ofNat 16 (p % 256)) ∧
    busReadByte PROGMEM mem (.ofNat 16 (p + 1)) =
      busReadByte PROGMEM mem (.ofNat 16 ((p + 1) % 256))

theorem wrapsAlike_of_lt (mem : Memory b) {p : Nat} (h : p < 255) : WrapsAlike PROGMEM mem p := by
  unfold WrapsAlike
  rw [Nat.mod_eq_of_lt (by omega), Nat.mod_eq_of_lt (by omega)]
  exact ⟨rfl, rfl⟩

/-! ## What the code computes -/

/-- A pointer is low enough for its word to be in bounds. -/
theorem pointer_inBounds {p : Nat} (h : p + 1 < 0x800) : WordInBounds b (.ofNat 16 p) := by
  unfold WordInBounds
  rw [toNat_ofNat_address (by omega)]
  omega

/-- Below the end of RAM a word is its two bytes. -/
theorem peekWord_ram (mem : Memory b) {p : Nat} (h : p + 1 < 0x800) :
    peekWord PROGMEM mem (.ofNat 16 p) =
      word (peek PROGMEM mem (.ofNat 16 p)) (peek PROGMEM mem (.ofNat 16 (p + 1))) := by
  have hval := toNat_ofNat_address (show p < 0x10000 by omega)
  have hin : WordInBounds b (.ofNat 16 p) := pointer_inBounds h
  have hword := busReadWord_val PROGMEM mem hin
  rw [busReadWord_eq, if_pos hin, Option.some_inj] at hword
  have hsecond : secondByte PROGMEM mem (.ofNat 16 p) = peek PROGMEM mem (.ofNat 16 (p + 1)) := by
    have hval' := toNat_ofNat_address (show p + 1 < 0x10000 by omega)
    rw [secondByte, if_pos (by omega), peek_eq_view PROGMEM mem (by omega),
      cellIndex_ram (by omega), cellIndex_ram h]
  rw [hword, hsecond]

theorem zeroPageWord_eq (mem : Memory b) (p : Nat) :
    zeroPageWord PROGMEM mem p =
      some (word (peek PROGMEM mem (.ofNat 16 (p % 256)))
        (peek PROGMEM mem (.ofNat 16 ((p + 1) % 256)))) := by
  unfold zeroPageWord
  rw [busReadByte_eq, busReadByte_eq]
  rfl

/-- The word read is the wrapped one exactly if its bytes are. -/
theorem peekWord_eq_iff (mem : Memory b) {p : Nat} (h : p + 1 < 0x800) :
    zeroPageWord PROGMEM mem p = some (peekWord PROGMEM mem (.ofNat 16 p)) ↔
      WrapsAlike PROGMEM mem p := by
  rw [zeroPageWord_eq, peekWord_ram PROGMEM mem h, Option.some_inj, word_inj]
  unfold WrapsAlike
  rw [busReadByte_eq, busReadByte_eq, busReadByte_eq, busReadByte_eq, Option.some_inj,
    Option.some_inj]
  exact and_congr eq_comm eq_comm

theorem setWidth_eq_ofNat (v : U8) : (v.setWidth 16 : U16) = .ofNat 16 v.toNat := by
  have hv := v.isLt
  bv_omega

theorem setWidth_add_eq_ofNat (v w : U8) :
    (v.setWidth 16 + w.setWidth 16 : U16) = .ofNat 16 (v.toNat + w.toNat) := by
  rw [setWidth_eq_ofNat, setWidth_eq_ofNat, ← BitVec.ofNat_add]

theorem helperResult_of_safe {helper : ClockM U16} {s : Clock} {mem : Memory b}
    (hs : (helper s).Safe (fun op _ => BusOp.InBounds b op) (busTotal PROGMEM) mem) :
    helperResult PROGMEM helper s mem = some ((helper s).eval (busTotal PROGMEM) mem).1 := by
  unfold helperResult
  rw [Prog.run_of_safe (bus_eq PROGMEM) hs, Option.map_some]

section Helper

variable {PROGMEM} {s : Clock} {mem : Memory b} {arg : U8}
variable (harg : busReadByte PROGMEM mem s.cpu.PC = some arg)
include harg

theorem getIndexedIndirectX_result :
    ∃ s', helperResult PROGMEM getIndexedIndirectX s mem =
      some (peekWord PROGMEM mem (.ofNat 16 (arg.toNat + s.cpu.X.toNat)), s') := by
  have hA := arg.isLt
  have hX := s.cpu.X.isLt
  rw [busReadByte_eq] at harg
  obtain rfl := Option.some.inj harg
  rw [← setWidth_add_eq_ofNat]
  refine ⟨_, helperResult_of_safe PROGMEM ⟨trivial, ?_, trivial⟩⟩
  show WordInBounds b ((peek PROGMEM mem s.cpu.PC).setWidth 16 + s.cpu.X.setWidth 16)
  rw [setWidth_add_eq_ofNat]
  exact pointer_inBounds (by omega)

theorem getIndexedIndirectY_result :
    ∃ s', helperResult PROGMEM getIndexedIndirectY s mem =
      some (peekWord PROGMEM mem (.ofNat 16 arg.toNat) + s.cpu.Y.setWidth 16, s') ∧
    s'.oopsCycle = (peekWord PROGMEM mem (.ofNat 16 arg.toNat) &&& 0xFF00 !=
      (peekWord PROGMEM mem (.ofNat 16 arg.toNat) + s.cpu.Y.setWidth 16) &&& 0xFF00) := by
  have hA := arg.isLt
  rw [busReadByte_eq] at harg
  obtain rfl := Option.some.inj harg
  rw [← setWidth_eq_ofNat]
  refine ⟨_, helperResult_of_safe PROGMEM ⟨trivial, ?_, trivial⟩, rfl⟩
  show WordInBounds b ((peek PROGMEM mem s.cpu.PC).setWidth 16)
  rw [setWidth_eq_ofNat]
  exact pointer_inBounds (by omega)

theorem answersX_iff :
    AnswersX PROGMEM s mem arg ↔ WrapsAlike PROGMEM mem (arg.toNat + s.cpu.X.toNat) := by
  have hA := arg.isLt
  have hX := s.cpu.X.isLt
  obtain ⟨s', hs'⟩ := getIndexedIndirectX_result harg
  rw [← peekWord_eq_iff PROGMEM mem (by omega)]
  unfold AnswersX
  rw [hs']
  constructor
  · rintro ⟨r, w, hr, hw, rfl⟩
    obtain rfl := Option.some.inj hr
    exact hw
  · intro hw
    exact ⟨_, _, rfl, hw, rfl⟩

theorem answersY_iff : AnswersY PROGMEM s mem arg ↔ WrapsAlike PROGMEM mem arg.toNat := by
  have hA := arg.isLt
  have hY := s.cpu.Y.isLt
  obtain ⟨s', hs', hoops⟩ := getIndexedIndirectY_result harg
  rw [← peekWord_eq_iff PROGMEM mem (by omega)]
  unfold AnswersY
  rw [hs']
  constructor
  · rintro ⟨r, w, hr, hw, hfinal, -⟩
    obtain rfl := Option.some.inj hr
    -- with `Y` taken off again, the sum gives the pointer back
    have hbase : w = peekWord PROGMEM mem (.ofNat 16 arg.toNat) := by
      bv_omega
    rw [hw, hbase]
  · intro hw
    refine ⟨_, _, rfl, hw, ?_, ?_⟩
    · bv_omega
    · rw [hoops, bne_iff_ne, ne_eq, page_eq_iff]

end Helper

/-! ## Instructions -/

/-- The words an instruction reads are those of its mode, and the vector. -/
theorem readsPageZero_iff {i : Ins} {x : Machine b} (h : At PROGMEM i x)
    (hm : i.mode = .indirectX ∨ i.mode = .indirectY) :
    ReadsPageZero PROGMEM x ↔ ∀ a ∈ wordsRead PROGMEM i.mode x, a.toNat + 1 < 0x100 := by
  have hop : opcodeAt PROGMEM x = i.opcode := h
  have haccesses : ∀ a, BusOp.readWord a ∈ i.accesses PROGMEM x ↔
      a ∈ wordsRead PROGMEM i.mode x := by
    intro a
    have hdecoded : i.decodedMode = i.mode := by
      rcases i.decodedMode_cases with ⟨hmode, -, -⟩ | ⟨hdecoded, -⟩
      · rcases hm with hm | hm <;> rw [hmode] at hm <;> cases hm
      · exact hdecoded
    have hbrk : i ≠ .brk := by
      rintro rfl
      rcases hm with hm | hm <;> cases hm
    unfold Ins.accesses
    rw [hdecoded]
    cases i <;> first | exact absurd rfl hbrk | simp
  have htrace : ∀ a, (∃ o ∈ (execute i.opcode x.1.afterFetch).trace (busTotal PROGMEM) x.2,
      o.1 = .readWord a) ↔ a ∈ wordsRead PROGMEM i.mode x := by
    intro a
    rw [← haccesses, ← trace_execute]
    simp [BusOp.isByteRead]
  unfold ReadsPageZero
  rw [hop]
  constructor
  · intro hreads a ha
    obtain ⟨o, ho, hoa⟩ := (htrace a).mpr ha
    exact hreads o ho a hoa
  · intro hwords o ho a hoa
    exact hwords a ((htrace a).mp ⟨o, ho, hoa⟩)

/-- **An instruction in an indirect mode reads page zero exactly if** its pointer is below 255.
    **The two helpers answer as documented exactly if** the bytes they read are those at the
    wrapped addresses. -/
theorem zeroPagePointer_iff (b : Build) (PROGMEM : Progmem) :
    (∀ (s : Clock) (mem : Memory b) (arg : U8), busReadByte PROGMEM mem s.cpu.PC = some arg →
      (AnswersX PROGMEM s mem arg ↔ WrapsAlike PROGMEM mem (arg.toNat + s.cpu.X.toNat)) ∧
      (AnswersY PROGMEM s mem arg ↔ WrapsAlike PROGMEM mem arg.toNat)) ∧
    (∀ (i : Ins) (x : Machine b), i.mode = .indirectX → At PROGMEM i x →
      (ReadsPageZero PROGMEM x ↔
        (operandByte PROGMEM x).toNat + x.1.cpu.X.toNat < 255)) ∧
    (∀ (i : Ins) (x : Machine b), i.mode = .indirectY → At PROGMEM i x →
      (ReadsPageZero PROGMEM x ↔ (operandByte PROGMEM x).toNat < 255)) := by
  refine ⟨fun s mem arg harg => ⟨answersX_iff harg, answersY_iff harg⟩, ?_, ?_⟩
  · intro i x hm h
    have hv := (operandByte PROGMEM x).isLt
    have hX := x.1.cpu.X.isLt
    rw [readsPageZero_iff PROGMEM h (.inl hm), hm, wordsRead, List.forall_mem_singleton,
      setWidth_add_eq_ofNat, toNat_ofNat_address (by omega)]
    omega
  · intro i x hm h
    have hv := (operandByte PROGMEM x).isLt
    rw [readsPageZero_iff PROGMEM h (.inr hm), hm, wordsRead, List.forall_mem_singleton,
      setWidth_eq_ofNat, toNat_ofNat_address (by omega)]
    omega

/-- A program image of `LDA ($FF,X)`. -/
def pointerProgmem : Progmem := fun i => if i.val = 0 then 0xA1 else 0xFF

/-- With `v` at `0x0100` and 0 everywhere else. -/
def pointerState (v : U8) : Machine ⟨false⟩ :=
  callStart { olc6502Init with PC := 0x8000 } false ⟨fun i => if i.val = 0x100 then v else 0⟩ 6

/-- The first byte of page one happens to be that of page zero, but it is page one it is read
    from. -/
theorem zeroPagePointer_iff_lda :
    (AnswersX pointerProgmem (pointerState 0).1.afterFetch (pointerState 0).2 0xFF ↔
      WrapsAlike pointerProgmem (pointerState 0).2 (0xFF + 0x00)) ∧
    (ReadsPageZero pointerProgmem (pointerState 0) ↔
      (operandByte pointerProgmem (pointerState 0)).toNat +
        (pointerState 0).1.cpu.X.toNat < 255) :=
  ⟨((zeroPagePointer_iff ⟨false⟩ pointerProgmem).1 (pointerState 0).1.afterFetch _ 0xFF
      (by decide)).1,
    (zeroPagePointer_iff ⟨false⟩ pointerProgmem).2.1 .ldaIndx (pointerState 0) rfl (by decide)⟩

/-- With `0x12` there, the pointer at `0xFF` is `0x1200`, and not `0x0000`. -/
theorem not_zeroPagePointer :
    ¬ ((∀ (b : Build) (PROGMEM : Progmem) (s : Clock) (mem : Memory b) (arg : U8),
        busReadByte PROGMEM mem s.cpu.PC = some arg →
        AnswersX PROGMEM s mem arg ∧ AnswersY PROGMEM s mem arg) ∧
      ∀ (b : Build) (PROGMEM : Progmem) (i : Ins) (x : Machine b),
        i.mode = .indirectX ∨ i.mode = .indirectY → At PROGMEM i x →
        ReadsPageZero PROGMEM x) := by
  rintro ⟨h, -⟩
  obtain ⟨⟨r, w, hr, hw, hrw⟩, -⟩ := h ⟨false⟩ pointerProgmem (pointerState 0x12).1.afterFetch
    (pointerState 0x12).2 0xFF (by decide)
  have hfirst : (helperResult pointerProgmem getIndexedIndirectX (pointerState 0x12).1.afterFetch
      (pointerState 0x12).2).map Prod.fst = some 0x1200 := by decide
  have hsecond : zeroPageWord pointerProgmem (pointerState 0x12).2 0xFF = some 0x0000 := by decide
  rw [hr, Option.map_some, hrw] at hfirst
  have heq : some w = some 0x0000 := hw.symm.trans hsecond
  rw [hfirst] at heq
  exact absurd heq (by decide)

end M6502
