import M6502.Lib.Isa
import M6502.Lib.Leads

/-!
# Programs of the 6502

`assemble` lays lines out as bytes and `listing` says where each of them comes to stand. What is
assembled is read back as it was written (`Space.line_of_holds`), so a space that holds the bytes
of a program runs its listing (`Space.Runs`).

A run records the stores it makes, in order. Its steps are those of the lines that meet a
condition `G`, and `Arrives.line` is the rule of one line for the triples of `Lib.Leads`.
-/

set_option autoImplicit false

namespace Lib.Isa

/-! ## Lines -/

namespace Line

variable (op : Op) (arg : Addr)

def imp : Line := ⟨op, .implied, 0⟩
def acc : Line := ⟨op, .accumulator, 0⟩
def imm : Line := ⟨op, .immediate, arg⟩
def zp : Line := ⟨op, .zeroPage, arg⟩
def zpX : Line := ⟨op, .zeroPageX, arg⟩
def indX : Line := ⟨op, .indirectX, arg⟩
def abs : Line := ⟨op, .absolute, arg⟩
def absY : Line := ⟨op, .absoluteY, arg⟩
def ind : Line := ⟨op, .indirect, arg⟩
/-- A branch to `arg`. -/
def br : Line := ⟨op, .relative, arg⟩

end Line

/-! ## Assembly -/

/-- The opcode of an operation in a mode. -/
def encode (op : Op) (m : Mode) : Option Byte :=
  (opcodes.find? fun e => e.2 == (op, m)).map (·.1)

theorem decode_encode {op : Op} {m : Mode} {v : Byte} (h : encode op m = some v) :
    decode v = some (op, m) := by
  have hall : ∀ e ∈ opcodes, decode e.1 = some e.2 := by decide +kernel
  obtain ⟨e, he, rfl⟩ := Option.map_eq_some_iff.mp h
  have heq := List.find?_some he
  rw [beq_iff_eq] at heq
  rw [hall e (List.mem_of_find?_eq_some he), heq]

/-- The bytes after the opcode, of a line at `p`. -/
def Line.operandBytes (l : Line) (p : Addr) : List Byte :=
  match l.mode with
  | .implied | .accumulator => []
  | .relative => [(l.arg - (p + 2)).setWidth 8]
  | .immediate | .zeroPage | .zeroPageX | .zeroPageY | .indirectX | .indirectY =>
    [l.arg.setWidth 8]
  | .absolute | .absoluteX | .absoluteY | .indirect =>
    [l.arg.extractLsb' 0 8, l.arg.extractLsb' 8 8]

def Line.bytes (l : Line) (p : Addr) : List Byte :=
  (encode l.op l.mode).toList ++ l.operandBytes p

/-- The line can be written at `p`: it has an opcode, and its operand fits the mode. -/
def Line.fits (l : Line) (p : Addr) : Bool :=
  (encode l.op l.mode).isSome &&
    match l.mode with
    | .implied | .accumulator => l.arg == 0
    | .relative => p + 2 + ((l.arg - (p + 2)).setWidth 8).signExtend 16 == l.arg
    | .immediate | .zeroPage | .zeroPageX | .zeroPageY | .indirectX | .indirectY =>
      (l.arg.setWidth 8).setWidth 16 == l.arg
    | .absolute | .absoluteX | .absoluteY | .indirect => true

theorem Line.length_bytes {l : Line} {p : Addr} (h : l.fits p) :
    (l.bytes p).length = l.mode.length := by
  obtain ⟨v, hv⟩ := Option.isSome_iff_exists.mp (Bool.and_eq_true_iff.mp h).1
  unfold Line.bytes
  rw [hv, Option.toList_some, List.singleton_append, List.length_cons]
  unfold Line.operandBytes
  cases l.mode <;> rfl

def assemble : Addr → List Line → List Byte
  | _, [] => []
  | p, l :: ls => l.bytes p ++ assemble (p + .ofNat 16 l.mode.length) ls

/-- The lines, each with its address. -/
def listing : Addr → List Line → List (Addr × Line)
  | _, [] => []
  | p, l :: ls => (p, l) :: listing (p + .ofNat 16 l.mode.length) ls

/-- The line at `p`, in a listing that begins at `q`. -/
def lineIn (p : Nat) : Nat → List Line → Option Line
  | _, [] => none
  | q, l :: ls => if q = p then some l else lineIn p (q + l.mode.length) ls

theorem mem_listing_ofNat {p q : Nat} {l : Line} {ls : List Line}
    (h : lineIn p q ls = some l) : (.ofNat 16 p, l) ∈ listing (.ofNat 16 q) ls := by
  induction ls generalizing q with
  | nil => cases h
  | cons k ls ih =>
    unfold lineIn at h
    split at h
    next hq =>
      obtain rfl := hq
      obtain rfl := Option.some.inj h
      exact List.mem_cons_self
    next =>
      have hrest := ih h
      rw [BitVec.ofNat_add] at hrest
      exact List.mem_cons_of_mem _ hrest

theorem mem_listing {p q : Addr} {l : Line} {ls : List Line}
    (h : lineIn p.toNat q.toNat ls = some l) : (p, l) ∈ listing q ls := by
  have hl := mem_listing_ofNat h
  rwa [BitVec.ofNat_toNat, BitVec.setWidth_eq, BitVec.ofNat_toNat, BitVec.setWidth_eq] at hl

section Space

variable {M : Type} (S : Space M)

/-- The bytes are read from `p` on. -/
def Space.Holds (mem : M) (p : Addr) (bytes : List Byte) : Prop :=
  ∀ k v, bytes[k]? = some v → S.read mem (p + .ofNat 16 k) = v

theorem Space.Holds.append {mem : M} {p : Addr} {xs ys : List Byte}
    (h : S.Holds mem p (xs ++ ys)) :
    S.Holds mem p xs ∧ S.Holds mem (p + .ofNat 16 xs.length) ys := by
  constructor
  · intro k v hk
    have hlt := (List.getElem?_eq_some_iff.mp hk).1
    exact h k v (by rw [List.getElem?_append_left hlt, hk])
  · intro k v hk
    have hread := h (xs.length + k) v (by
      rw [List.getElem?_append_right (Nat.le_add_right _ _), Nat.add_sub_cancel_left, hk])
    rwa [BitVec.ofNat_add, ← BitVec.add_assoc] at hread

theorem word_extract (w : Addr) : word (w.extractLsb' 0 8) (w.extractLsb' 8 8) = w := by
  apply BitVec.eq_of_toNat_eq
  have hlt := w.isLt
  unfold word
  rw [BitVec.toNat_append, ← Nat.shiftLeft_add_eq_or_of_lt (BitVec.isLt _), Nat.shiftLeft_eq,
    BitVec.extractLsb'_toNat, BitVec.extractLsb'_toNat, Nat.shiftRight_zero,
    Nat.shiftRight_eq_div_pow]
  omega

/-- **What is assembled is read back.** -/
theorem Space.line_of_holds {l : Line} {s : State M} (hf : l.fits s.cpu.PC)
    (h : S.Holds s.mem s.cpu.PC (l.bytes s.cpu.PC)) : S.line? s = some l := by
  obtain ⟨op, m, arg⟩ := l
  obtain ⟨hcode, harg⟩ := Bool.and_eq_true_iff.mp hf
  obtain ⟨v, hv⟩ := Option.isSome_iff_exists.mp hcode
  have hbytes : Line.bytes ⟨op, m, arg⟩ s.cpu.PC =
      v :: Line.operandBytes ⟨op, m, arg⟩ s.cpu.PC := by
    unfold Line.bytes
    rw [hv]
    rfl
  rw [hbytes] at h
  have hread : S.read s.mem s.cpu.PC = v := by
    have hzero := h 0 v rfl
    rwa [show s.cpu.PC + BitVec.ofNat 16 0 = s.cpu.PC from BitVec.add_zero _] at hzero
  have hfirst : ∀ v', (Line.operandBytes ⟨op, m, arg⟩ s.cpu.PC)[0]? = some v' →
      S.read s.mem (s.cpu.PC + 1) = v' := h 1
  have hsecond : ∀ v', (Line.operandBytes ⟨op, m, arg⟩ s.cpu.PC)[1]? = some v' →
      S.read s.mem (s.cpu.PC + 1 + 1) = v' := by
    rw [show s.cpu.PC + 1 + 1 = s.cpu.PC + 2 from BitVec.add_assoc _ 1 1]
    exact h 2
  have hoperand : S.operand m s = arg := by
    cases m with
    | implied | accumulator => exact (beq_iff_eq.mp harg).symm
    | relative =>
      show s.cpu.PC + 2 + (S.read s.mem (s.cpu.PC + 1)).signExtend 16 = arg
      rw [hfirst _ rfl]
      exact beq_iff_eq.mp harg
    | immediate | zeroPage | zeroPageX | zeroPageY | indirectX | indirectY =>
      show (S.read s.mem (s.cpu.PC + 1)).setWidth 16 = arg
      rw [hfirst _ rfl]
      exact beq_iff_eq.mp harg
    | absolute | absoluteX | absoluteY | indirect =>
      show Isa.word (S.read s.mem (s.cpu.PC + 1)) (S.read s.mem (s.cpu.PC + 1 + 1)) = arg
      rw [hfirst _ rfl, hsecond _ rfl]
      exact word_extract arg
  unfold Space.line?
  rw [hread, decode_encode hv, Option.map_some, hoperand]

/-- Where `PC` is at one of the lines, that line is next, whatever the registers and the
    memory. -/
def Space.Runs (code : List (Addr × Line)) : Prop :=
  ∀ (s : State M) (l : Line), (s.cpu.PC, l) ∈ code → S.line? s = some l

/-- **A program that is held, in every state of the memory, is run.** -/
theorem Space.runs_listing {p : Addr} {ls : List Line}
    (h : ∀ mem, S.Holds mem p (assemble p ls))
    (hf : ∀ e ∈ listing p ls, e.2.fits e.1 = true) : S.Runs (listing p ls) := by
  intro s l hl
  refine S.line_of_holds (hf _ hl) ?_
  induction ls generalizing p with
  | nil => cases hl
  | cons k ls ih =>
    have hk : k.fits p = true := hf (p, k) List.mem_cons_self
    have hhere := fun mem => (Space.Holds.append S (h mem)).1
    have hrest := fun mem => (Space.Holds.append S (h mem)).2
    rw [Line.length_bytes hk] at hrest
    rcases List.mem_cons.mp hl with heq | hl
    · obtain ⟨rfl, rfl⟩ := Prod.mk.inj heq
      exact hhere s.mem
    · exact ih hrest (fun e he => hf e (List.mem_cons_of_mem _ he)) hl

/-! ## Runs -/

/-- A state, and the stores made on the way to it. -/
structure Run (M : Type) where
  state : State M
  stores : List (Addr × Byte)

/-- The run after one line more. -/
def Space.advance (l : Line) (r : Run M) : Run M where
  state := S.exec₁ l r.state
  stores := r.stores ++ S.writes l.mode l.arg r.state l.op

/-- The run with other registers. -/
def Run.withCpu {M : Type} (r : Run M) (cpu : Cpu) : Run M := ⟨⟨cpu, r.state.mem⟩, r.stores⟩

/-- The next line meets `G` and is executed. -/
def Space.Step (G : Line → State M → Prop) (r r' : Run M) : Prop :=
  ∃ l, S.line? r.state = some l ∧ G l r.state ∧ r' = S.advance l r

/-- The same, within a budget of cycles: of the second component, which is what is left. -/
def Space.Spend (G : Line → State M → Prop) (p p' : State M × Int) : Prop :=
  0 < p.2 ∧ ∃ l, S.line? p.1 = some l ∧ G l p.1 ∧
    p' = (S.exec₁ l p.1, p.2 - S.cycles l.mode l.arg p.1 l.op)

variable {S} {G : Line → State M → Prop}

/-- **The rule of one line.** -/
theorem Arrives.line {code : List (Addr × Line)} (hcode : S.Runs code) {Q : Run M → Prop}
    {r : Run M} {l : Line} (hl : (r.state.cpu.PC, l) ∈ code) (hG : G l r.state)
    (h : Arrives (S.Step G) Q (S.advance l r)) : Arrives (S.Step G) Q r := by
  have hline := hcode r.state l hl
  refine .step ⟨_, l, hline, hG, rfl⟩ ?_
  rintro r' ⟨l', hl', -, rfl⟩
  obtain rfl := Option.some.inj (hline.symm.trans hl')
  exact h

/-- The rule of a line that stores nothing. -/
theorem Arrives.quiet {code : List (Addr × Line)} (hcode : S.Runs code) {Q : Run M → Prop}
    {r : Run M} {l : Line} (hl : (r.state.cpu.PC, l) ∈ code) (hG : G l r.state)
    (hw : S.writes l.mode l.arg r.state l.op = [])
    (h : Arrives (S.Step G) Q (r.withCpu (S.after l.mode l.arg r.state l.op))) :
    Arrives (S.Step G) Q r := by
  refine Arrives.line hcode hl hG ?_
  unfold Space.advance Space.exec₁ Space.exec
  rw [hw, List.append_nil]
  exact h

end Space

end Lib.Isa
