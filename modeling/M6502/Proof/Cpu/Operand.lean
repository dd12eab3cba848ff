import M6502.Proof.Cpu.Step

/-!
# Addressing modes, and what an instruction does to the bus

`Ins.mode` and `Mode.length` are the documented table of the 151 opcodes. The address an
instruction works on is `effectiveAddress`, and the two facts the rest of the development
reads the bus behaviour from are

* `stepOf_mem`: the memory after an instruction is the memory before it with `Ins.writes`
  applied in order, the byte stored at the effective address and the bytes pushed;
* `stepSafe_iff`: the instruction stays inside the arrays exactly if its operand word and
  its store do.
-/

set_option autoImplicit false

namespace M6502

open Lib Cpu

variable {b : Build} (PROGMEM : Progmem)

/-! ## The opcode table -/

inductive Mode
  | implied | accumulator | immediate | relative | zeroPage | zeroPageX | zeroPageY
  | absolute | absoluteX | absoluteY | indirect | indirectX | indirectY
deriving DecidableEq, Repr

/-- The documented addressing mode of each opcode. -/
def Ins.mode : Ins → Mode
  | .ldaIm | .ldxIm | .ldyIm | .andIm | .oraIm | .eorIm | .adcIm | .sbcIm | .cmpIm | .cpxIm
  | .cpyIm => .immediate
  | .ldaZp | .ldxZp | .ldyZp | .staZp | .stxZp | .styZp | .andZp | .oraZp | .eorZp | .bitZp
  | .decZp | .incZp | .adcZp | .sbcZp | .cmpZp | .cpxZp | .cpyZp | .aslZp | .lsrZp | .rolZp
  | .rorZp => .zeroPage
  | .ldaZpx | .ldyZpx | .staZpx | .styZpx | .andZpx | .oraZpx | .eorZpx | .decZpx | .incZpx
  | .adcZpx | .sbcZpx | .cmpZpx | .aslZpx | .lsrZpx | .rolZpx | .rorZpx => .zeroPageX
  | .ldxZpy | .stxZpy => .zeroPageY
  | .ldaAbs | .ldxAbs | .ldyAbs | .staAbs | .stxAbs | .styAbs | .jmpAbs | .jsr | .andAbs | .oraAbs
  | .eorAbs | .bitAbs | .decAbs | .incAbs | .adcAbs | .sbcAbs | .cmpAbs | .cpxAbs | .cpyAbs
  | .aslAbs | .lsrAbs | .rolAbs | .rorAbs => .absolute
  | .ldaAbsx | .ldyAbsx | .staAbsx | .andAbsx | .oraAbsx | .eorAbsx | .decAbsx | .incAbsx | .adcAbsx
  | .sbcAbsx | .cmpAbsx | .aslAbsx | .lsrAbsx | .rolAbsx | .rorAbsx => .absoluteX
  | .ldaAbsy | .ldxAbsy | .staAbsy | .andAbsy | .oraAbsy | .eorAbsy | .adcAbsy | .sbcAbsy
  | .cmpAbsy => .absoluteY
  | .jmpInd => .indirect
  | .ldaIndx | .staIndx | .andIndx | .oraIndx | .eorIndx | .adcIndx | .sbcIndx
  | .cmpIndx => .indirectX
  | .ldaIndy | .staIndy | .andIndy | .oraIndy | .eorIndy | .adcIndy | .sbcIndy
  | .cmpIndy => .indirectY
  | .aslA | .lsrA | .rolA | .rorA => .accumulator
  | .beq | .bne | .bcs | .bcc | .bmi | .bpl | .bvc | .bvs => .relative
  | .rts | .rti | .brk | .pha | .pla | .php | .plp | .tsx | .txs | .tax | .tay | .txa | .tya
  | .inx | .iny | .dey | .dex | .clc | .sec | .cld | .sed | .cli | .sei | .clv
  | .nop => .implied

/-- The documented length of an instruction, its opcode included. -/
def Mode.length : Mode → Nat
  | .implied | .accumulator => 1
  | .immediate | .relative | .zeroPage | .zeroPageX | .zeroPageY | .indirectX | .indirectY => 2
  | .absolute | .absoluteX | .absoluteY | .indirect => 3

/-! ## Effective addresses -/

/-- The address after the opcode. -/
def operandAt (x : Machine b) : U16 := x.1.cpu.PC + 1

def operandByte (x : Machine b) : U8 := peek PROGMEM x.2 (operandAt x)

def operandWord (x : Machine b) : U16 := peekWord PROGMEM x.2 (operandAt x)

/-- The address an instruction of each mode works on. The pointer of `(zp,X)` is read at
    `zp + X` without a wrap in page zero, and so is the second byte of that of `(zp),Y`. -/
def effectiveAddress (m : Mode) (x : Machine b) : U16 :=
  match m with
  | .implied | .accumulator => 0
  | .immediate | .relative => operandAt x
  | .zeroPage => (operandByte PROGMEM x).setWidth 16
  | .zeroPageX => ((operandByte PROGMEM x).setWidth 16 + x.1.cpu.X.setWidth 16) &&& 0xFF
  | .zeroPageY => ((operandByte PROGMEM x).setWidth 16 + x.1.cpu.Y.setWidth 16) &&& 0xFF
  | .absolute | .indirect => operandWord PROGMEM x
  | .absoluteX => operandWord PROGMEM x + x.1.cpu.X.setWidth 16
  | .absoluteY => operandWord PROGMEM x + x.1.cpu.Y.setWidth 16
  | .indirectX =>
    peekWord PROGMEM x.2 ((operandByte PROGMEM x).setWidth 16 + x.1.cpu.X.setWidth 16)
  | .indirectY =>
    peekWord PROGMEM x.2 ((operandByte PROGMEM x).setWidth 16) + x.1.cpu.Y.setWidth 16

/-- The page of an address, as the code masks it. -/
theorem toNat_page (a : U16) : (a &&& 0xFF00).toNat = a.toNat / 256 * 256 := by
  have hlt := a.isLt
  have hdiv : (a.toNat &&& 0xFF00) / 2 ^ 8 = a.toNat / 256 := by
    rw [Nat.and_div_two_pow, show 0xFF00 / 2 ^ 8 = 2 ^ 8 - 1 from rfl,
      Nat.and_two_pow_sub_one_eq_mod, Nat.mod_eq_of_lt (by omega)]
  have hmod : (a.toNat &&& 0xFF00) % 2 ^ 8 = 0 := by
    rw [Nat.and_mod_two_pow, show 0xFF00 % 2 ^ 8 = 0 from rfl, Nat.and_zero]
  rw [BitVec.toNat_and, show (0xFF00 : U16).toNat = 0xFF00 from rfl]
  omega

/-- The code's test whether two addresses are on one page. -/
theorem page_eq_iff (u v : U16) : u &&& 0xFF00 = v &&& 0xFF00 ↔ u.toNat / 256 = v.toNat / 256 := by
  rw [← BitVec.toNat_inj, toNat_page, toNat_page]
  omega

/-- The mode the code decodes. The compare group takes `bbb = 0` for `(zp,X)`, also in
    `CPX #` and `CPY #`. -/
def Ins.decodedMode : Ins → Mode
  | .cpxIm | .cpyIm => .indirectX
  | i => i.mode

theorem Ins.decodedMode_cases (i : Ins) :
    (i.mode = .immediate ∧ i.decodedMode = .indirectX ∧ (i = .cpxIm ∨ i = .cpyIm)) ∨
      (i.decodedMode = i.mode ∧ ¬ (i = .cpxIm ∨ i = .cpyIm)) := by
  cases i
  case cpxIm | cpyIm => exact .inl (by simp [mode, decodedMode])
  all_goals exact .inr ⟨rfl, by simp⟩

/-- The words read on the way to the effective address. -/
def wordsRead (m : Mode) (x : Machine b) : List U16 :=
  match m with
  | .absolute | .absoluteX | .absoluteY | .indirect => [operandAt x]
  | .indirectX => [(operandByte PROGMEM x).setWidth 16 + x.1.cpu.X.setWidth 16]
  | .indirectY => [(operandByte PROGMEM x).setWidth 16]
  | _ => []

/-! ## Writes -/

/-- The byte an instruction stores at its effective address, from the CPU and the byte there.
    The increments and decrements take it from `A`. -/
def Ins.store? (i : Ins) : Option (Olc6502 → U8 → U8) :=
  match i with
  | .staZp | .staZpx | .staAbs | .staAbsx | .staAbsy | .staIndx | .staIndy =>
    some fun cpu _ => cpu.A
  | .stxZp | .stxZpy | .stxAbs => some fun cpu _ => cpu.X
  | .styZp | .styZpx | .styAbs => some fun cpu _ => cpu.Y
  | .aslZp | .aslZpx | .aslAbs | .aslAbsx | .lsrZp | .lsrZpx | .lsrAbs | .lsrAbsx
  | .rolZp | .rolZpx | .rolAbs | .rolAbsx | .rorZp | .rorZpx | .rorAbs | .rorAbsx =>
    some fun cpu v => (shiftResult (fieldAaa i.opcode) cpu.PS.C v).1
  | .incZp | .incZpx | .incAbs | .incAbsx => some fun cpu _ => cpu.A + 1
  | .decZp | .decZpx | .decAbs | .decAbsx => some fun cpu _ => cpu.A - 1
  | _ => none

/-- The status byte while an instruction executes, as it is pushed. -/
def pushedStatus (cpu : Olc6502) : U8 := { cpu.PS with I := cpu.iNxt }.value ||| 0x30

/-- The bytes an instruction writes to the stack, from the CPU before its fetch. `TXS` is
    among them: it writes `X` where the stack pointer points. -/
def Ins.pushed : Ins → Olc6502 → List U8
  | .jsr, cpu =>
    let last := cpu.PC + 1 + 2 - 1
    [(last >>> 8).setWidth 8, last.setWidth 8]
  | .brk, cpu =>
    let next := cpu.PC + 1 + 1
    [(next >>> 8).setWidth 8, next.setWidth 8, pushedStatus cpu]
  | .pha, cpu => [cpu.A]
  | .php, cpu => [pushedStatus cpu]
  | .txs, cpu => [cpu.X]
  | _, _ => []

/-- The writes of a sequence of pushes. -/
def stackWrites : U8 → List U8 → List (U16 × U8)
  | _, [] => []
  | SP, v :: vs => (stackAddress SP, v) :: stackWrites (SP - 1) vs

/-- The writes an instruction makes, in order. -/
def Ins.writes (i : Ins) (x : Machine b) : List (U16 × U8) :=
  (match i.store? with
    | some f =>
      let ea := effectiveAddress PROGMEM i.mode x
      [(ea, f x.1.cpu (peek PROGMEM x.2 ea))]
    | none => []) ++ stackWrites x.1.cpu.SP (i.pushed x.1.cpu)

/-- The accesses whose bounds depend on the address, in order. -/
def Ins.accesses (i : Ins) (x : Machine b) : List BusOp :=
  (wordsRead PROGMEM i.decodedMode x).map .readWord ++
    (i.writes PROGMEM x).map (fun w => .writeByte w.1 w.2) ++
      match i with
      | .brk => [.readWord irqVector]
      | _ => []

def BusOp.isByteRead : BusOp → Bool
  | .readByte _ => true
  | _ => false

/-- The memory after a list of writes, where they are in bounds. -/
def pokes (mem : Memory b) (ws : List (U16 × U8)) : Memory b :=
  ws.foldl (fun mem w => poke mem w.1 w.2) mem

theorem Ins.writes_branch {i : Ins} (hb : i.group = .branch) (x : Machine b) :
    i.writes PROGMEM x = [] := by
  cases i <;> first | rfl | cases hb

theorem Ins.accesses_branch {i : Ins} (hb : i.group = .branch) (x : Machine b) :
    i.accesses PROGMEM x = [] := by
  cases i <;> first | rfl | cases hb

/-- **What an instruction writes**, and nothing else, is `Ins.writes`. -/
theorem stepOf_mem {i : Ins} {x : Machine b} (h : At PROGMEM i x) :
    (stepOf PROGMEM x).2 = pokes x.2 (i.writes PROGMEM x) := by
  by_cases hb : i.group = .branch
  · rw [stepOf_branch PROGMEM h hb, Ins.writes_branch PROGMEM hb]
    rfl
  · rw [stepOf_arms PROGMEM h]
    cases i <;> first | exact absurd rfl hb | rfl

/-! ## Bounds -/

/-- The accesses the code performs are those of the table. -/
theorem trace_execute (i : Ins) (x : Machine b) :
    (((execute i.opcode x.1.afterFetch).trace (busTotal PROGMEM) x.2).map Prod.fst).filter
      (fun op => !op.isByteRead) = i.accesses PROGMEM x := by
  by_cases hb : i.group = .branch
  · rw [execute_branch hb, branchGroup_eq, Ins.accesses_branch PROGMEM hb]
    rfl
  · rw [execute_opcode]
    cases i <;> first | exact absurd rfl hb | rfl

/-- The write an operation makes, if it is one. -/
def BusOp.write? : BusOp → Option (U16 × U8)
  | .writeByte a v => some (a, v)
  | _ => none

/-- The writes the next instruction makes, in order, whatever its opcode. -/
def stepWrites (x : Machine b) : List (U16 × U8) :=
  ((execute (opcodeAt PROGMEM x) x.1.afterFetch).trace (busTotal PROGMEM) x.2).filterMap
    fun o => o.1.write?

/-- Nothing but its writes changes the memory a program runs on. -/
theorem eval_mem {α : Type} : ∀ (p : Prog BusSig α) (mem : Memory b),
    (p.eval (busTotal PROGMEM) mem).2 =
      pokes mem ((p.trace (busTotal PROGMEM) mem).filterMap fun o => o.1.write?)
  | .ret _, _ => rfl
  | .call (.readByte _) k, mem => eval_mem (k _) mem
  | .call (.readWord _) k, mem => eval_mem (k _) mem
  | .call (.writeByte a v) k, mem => eval_mem (k _) (poke mem a v)

theorem stepOf_mem_stepWrites (x : Machine b) :
    (stepOf PROGMEM x).2 = pokes x.2 (stepWrites PROGMEM x) :=
  eval_mem PROGMEM (execute (opcodeAt PROGMEM x) x.1.afterFetch) x.2

/-- For a named opcode they are those of the table. -/
theorem stepWrites_at {i : Ins} {x : Machine b} (h : At PROGMEM i x) :
    stepWrites PROGMEM x = i.writes PROGMEM x := by
  have hop : opcodeAt PROGMEM x = i.opcode := h
  -- byte reads are no writes, so the writes are among the accesses of the table
  have hfilter : ∀ ops : List BusOp, (ops.filter fun op => !op.isByteRead).filterMap
      BusOp.write? = ops.filterMap BusOp.write? := by
    intro ops
    induction ops with
    | nil => rfl
    | cons op ops ih =>
      cases op with
      | readByte a => exact ih
      | readWord a => exact ih
      | writeByte a v => exact congrArg (List.cons (a, v)) ih
  have htrace := congrArg (List.filterMap BusOp.write?) (trace_execute PROGMEM i x)
  rw [hfilter, List.filterMap_map] at htrace
  unfold stepWrites
  rw [hop]
  refine htrace.trans ?_
  have hreads : ∀ as : List U16, (as.map BusOp.readWord).filterMap BusOp.write? = [] := by
    intro as
    rw [List.filterMap_map, List.filterMap_eq_nil_iff]
    exact fun a _ => rfl
  have hwrites : ∀ ws : List (U16 × U8),
      (ws.map fun w => BusOp.writeByte w.1 w.2).filterMap BusOp.write? = ws := by
    intro ws
    rw [List.filterMap_map]
    exact List.filterMap_some
  unfold Ins.accesses
  rw [List.filterMap_append, List.filterMap_append, hreads, hwrites, List.nil_append]
  cases i <;> exact List.append_nil _

/-- An instruction that writes nothing leaves the memory as it is. -/
theorem stepOf_quiet {i : Ins} {x : Machine b} (h : At PROGMEM i x) (hw : i.writes PROGMEM x = []) :
    stepWrites PROGMEM x = [] ∧ (stepOf PROGMEM x).2 = x.2 := by
  rw [stepWrites_at PROGMEM h, stepOf_mem PROGMEM h, hw]
  exact ⟨rfl, rfl⟩

theorem stepSafe_iff_accesses {i : Ins} {x : Machine b} (h : At PROGMEM i x) :
    StepSafe PROGMEM x ↔ ∀ op ∈ i.accesses PROGMEM x, op.InBounds b := by
  have hop : opcodeAt PROGMEM x = i.opcode := h
  unfold StepSafe
  rw [hop, Prog.safe_iff_trace, ← trace_execute]
  constructor
  · intro hall op hm
    obtain ⟨o, ho, rfl⟩ := List.mem_map.mp (List.mem_filter.mp hm).1
    exact hall o ho
  · intro hall o ho
    cases hr : o.1.isByteRead with
    | false =>
      refine hall o.1 (List.mem_filter.mpr ⟨List.mem_map_of_mem ho, ?_⟩)
      rw [hr]
      rfl
    | true =>
      -- a byte read has no bound to meet
      cases hop : o.1 with
      | readByte a => trivial
      | readWord a => rw [hop] at hr; cases hr
      | writeByte a v => rw [hop] at hr; cases hr

theorem stackAddress_lt (SP : U8) : (stackAddress SP).toNat < 0x200 := by
  unfold stackAddress stackBase
  bv_omega

theorem stackWrites_lt {SP : U8} {vs : List U8} {w : U16 × U8} (h : w ∈ stackWrites SP vs) :
    w.1.toNat < 0x200 := by
  induction vs generalizing SP with
  | nil => cases h
  | cons v vs ih =>
    rcases List.mem_cons.mp h with rfl | h
    · exact stackAddress_lt SP
    · exact ih h

/-- The instruction has an operand word, of which both bytes are read at once. -/
def Mode.HasOperandWord (m : Mode) : Prop := m.length = 3

instance (m : Mode) : Decidable m.HasOperandWord := inferInstanceAs (Decidable (_ = _))

/-- Pointers in page zero are in bounds, so only an operand word can fail to be. -/
theorem wordsRead_inBounds (m : Mode) (x : Machine b) :
    (∀ a ∈ wordsRead PROGMEM m x, WordInBounds b a) ↔
      (m.HasOperandWord → WordInBounds b (operandAt x)) := by
  have hlow : ∀ a : U16, a.toNat < 0x200 → WordInBounds b a := by
    intro a ha
    exact ⟨by omega, by omega, fun _ => by omega⟩
  have hzpx : ∀ v w : U8, (v.setWidth 16 + w.setWidth 16 : U16).toNat < 0x200 := by
    intro v w
    bv_omega
  have hzp : ∀ v : U8, (v.setWidth 16 : U16).toNat < 0x200 := by
    intro v
    bv_omega
  cases m with
  | absolute | absoluteX | absoluteY | indirect =>
    rw [wordsRead, List.forall_mem_singleton]
    exact ⟨fun h _ => h, fun h => h rfl⟩
  | indirectX =>
    rw [wordsRead, List.forall_mem_singleton]
    exact iff_of_true (hlow _ (hzpx _ _)) (fun h => by cases h)
  | indirectY =>
    rw [wordsRead, List.forall_mem_singleton]
    exact iff_of_true (hlow _ (hzp _)) (fun h => by cases h)
  | implied | accumulator | immediate | relative | zeroPage | zeroPageX | zeroPageY =>
    exact iff_of_true (fun a ha => by cases ha) (fun h => by cases h)

theorem Ins.decodedMode_hasOperandWord (i : Ins) :
    i.decodedMode.HasOperandWord ↔ i.mode.HasOperandWord := by
  cases i <;> exact Iff.rfl

/-- Pushes are in bounds, so only a store can fail to be. -/
theorem writes_inBounds (i : Ins) (x : Machine b) :
    (∀ w ∈ i.writes PROGMEM x, StoreInBounds b w.1) ↔
      (i.store?.isSome → StoreInBounds b (effectiveAddress PROGMEM i.mode x)) := by
  have hstack : ∀ w ∈ stackWrites x.1.cpu.SP (i.pushed x.1.cpu), StoreInBounds b w.1 := by
    intro w hw
    exact storeInBounds_of_lt (Nat.lt_trans (stackWrites_lt hw) (by decide))
  unfold Ins.writes
  cases i.store? with
  | none =>
    rw [List.nil_append]
    exact iff_of_true hstack (fun h => by cases h)
  | some f =>
    rw [List.forall_mem_append, List.forall_mem_singleton]
    exact ⟨fun hall _ => hall.1, fun hea => ⟨hea rfl, hstack⟩⟩

/-- **An instruction stays inside the arrays exactly if** its operand word does and the
    address it stores at does. -/
theorem stepSafe_iff {i : Ins} {x : Machine b} (h : At PROGMEM i x) :
    StepSafe PROGMEM x ↔
      (i.mode.HasOperandWord → WordInBounds b (operandAt x)) ∧
        (i.store?.isSome → StoreInBounds b (effectiveAddress PROGMEM i.mode x)) := by
  rw [stepSafe_iff_accesses PROGMEM h, ← Ins.decodedMode_hasOperandWord,
    ← wordsRead_inBounds PROGMEM, ← writes_inBounds PROGMEM]
  unfold Ins.accesses
  rw [List.forall_mem_append, List.forall_mem_append, List.forall_mem_map, List.forall_mem_map]
  constructor
  · intro hall
    exact hall.1
  · intro hall
    refine ⟨hall, ?_⟩
    cases i
    case brk => exact List.forall_mem_singleton.mpr irqVector_inBounds
    all_goals exact fun op hop => by cases hop

theorem instructionOn_at {i : Ins} {x y : Machine b} (h : At PROGMEM i x) :
    instructionOn PROGMEM x = some y ↔
      ((i.mode.HasOperandWord → WordInBounds b (operandAt x)) ∧
        (i.store?.isSome → StoreInBounds b (effectiveAddress PROGMEM i.mode x))) ∧
      stepOf PROGMEM x = y := by
  rw [instructionOn_eq_some_iff, stepSafe_iff PROGMEM h]

end M6502
