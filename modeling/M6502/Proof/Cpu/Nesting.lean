import M6502.Proof.Cpu.NextPc
import M6502.Proof.Cpu.Run
import M6502.Proof.Cpu.Stack
import M6502.Proof.Cpu.Status

/-!
# Well nested runs

A run is well nested if its pushes and pulls bracket: `PHA` … `PLA`, `JSR` … `RTS`, one after
the other or one inside the other, over instructions that leave `SP` and the stack page alone.
`Nest` is the shape of such a run and `Runs` the run itself, with the list of its brackets.

The invariant is `Balanced d`: `SP` is back, and only the `d` cells from it downwards may have
changed. A bracket around a run keeps it, `d` grown by what it pushes (`Pushed.balanced`),
so up to 256 bytes deep no push lands on a cell that is still to be pulled.
-/

set_option autoImplicit false

namespace M6502

open Lib Cpu

variable {b : Build} (PROGMEM : Progmem)

/-! ## Runs -/

/-- The index is that of a cell of RAM `0x0100`-`0x01FF`. -/
def StackCell (i : Nat) : Prop := 0x100 ≤ i ∧ i < 0x200

/-- An instruction that neither changes `SP` nor writes a cell of the stack. -/
structure Plain (x y : Machine b) : Prop where
  next : Next PROGMEM x y
  sp : y.1.cpu.SP = x.1.cpu.SP
  writes : ∀ w ∈ stepWrites PROGMEM x, ¬ StackCell (cellIndex b w.1)

/-- The shape of a well nested run. -/
inductive Nest
  | nil
  | plain
  | seq (s t : Nest)
  | pha (body : Nest)
  | jsr (body : Nest)

/-- How many bytes are on the stack where it is deepest. -/
def Nest.depth : Nest → Nat
  | .nil | .plain => 0
  | .seq s t => max s.depth t.depth
  | .pha body => body.depth + 1
  | .jsr body => body.depth + 2

/-- The state before and after the instruction that opens a bracket, and before and after the
    one that closes it. -/
structure Bracket (b : Build) where
  push : Ins
  before : Machine b
  opened : Machine b
  closing : Machine b
  after : Machine b

/-- A well nested run from `x` to `y`, and its brackets. -/
inductive Runs : Nest → Machine b → Machine b → List (Bracket b) → Prop
  | nil {x : Machine b} : Runs .nil x x []
  | plain {x y : Machine b} (h : Plain PROGMEM x y) : Runs .plain x y []
  | seq {s t : Nest} {x y z : Machine b} {bs cs : List (Bracket b)} (hs : Runs s x y bs)
      (ht : Runs t y z cs) : Runs (.seq s t) x z (bs ++ cs)
  | pha {t : Nest} {x u v y : Machine b} {bs : List (Bracket b)} (hpha : At PROGMEM .pha x)
      (hu : Next PROGMEM x u) (ht : Runs t u v bs) (hpla : At PROGMEM .pla v)
      (hy : Next PROGMEM v y) : Runs (.pha t) x y (⟨.pha, x, u, v, y⟩ :: bs)
  | jsr {t : Nest} {x u v y : Machine b} {bs : List (Bracket b)} (hjsr : At PROGMEM .jsr x)
      (hu : Next PROGMEM x u) (ht : Runs t u v bs) (hrts : At PROGMEM .rts v)
      (hy : Next PROGMEM v y) : Runs (.jsr t) x y (⟨.jsr, x, u, v, y⟩ :: bs)

/-- What a bracket is for: `PLA` loads what `PHA` pushed, and `RTS` continues after `JSR`. -/
def Bracket.Returns (br : Bracket b) : Prop :=
  match br.push with
  | .pha =>
    br.after.1.cpu.A = br.before.1.cpu.A ∧
      br.after.1.cpu.PS.Z = (br.before.1.cpu.A == 0) ∧
      br.after.1.cpu.PS.N = br.before.1.cpu.A.getLsbD 7
  | _ => br.after.1.cpu.PC = br.before.1.cpu.PC + 3

/-- The two instructions of a bracket write nothing but cells of the stack. -/
def Bracket.WritesStack (br : Bracket b) : Prop :=
  (∀ w ∈ stepWrites PROGMEM br.before, StackCell (cellIndex b w.1)) ∧
    ∀ w ∈ stepWrites PROGMEM br.closing, StackCell (cellIndex b w.1)

/-! ## The invariant -/

/-- From `x` to `y` the stack pointer is back, and of the stack only the `d` cells from it
    downwards may have changed. -/
structure Balanced (d : Nat) (x y : Machine b) : Prop where
  sp : y.1.cpu.SP = x.1.cpu.SP
  cells : ∀ k, d ≤ k → k < 256 →
    peek PROGMEM y.2 (stackAddress (x.1.cpu.SP - .ofNat 8 k)) =
      peek PROGMEM x.2 (stackAddress (x.1.cpu.SP - .ofNat 8 k))

theorem Balanced.refl (x : Machine b) : Balanced PROGMEM 0 x x := ⟨rfl, fun _ _ _ => rfl⟩

theorem Balanced.mono {d e : Nat} {x y : Machine b} (h : Balanced PROGMEM d x y) (hde : d ≤ e) :
    Balanced PROGMEM e x y := ⟨h.sp, fun k hk => h.cells k (Nat.le_trans hde hk)⟩

theorem Balanced.trans {d : Nat} {x y z : Machine b} (hxy : Balanced PROGMEM d x y)
    (hyz : Balanced PROGMEM d y z) : Balanced PROGMEM d x z := by
  refine ⟨hyz.sp.trans hxy.sp, fun k hd hk => ?_⟩
  have hcell := hyz.cells k hd hk
  rw [hxy.sp] at hcell
  exact hcell.trans (hxy.cells k hd hk)

theorem stackCell_stackAddress (SP : U8) : StackCell (cellIndex b (stackAddress SP)) := by
  have hlt := SP.isLt
  rw [cellIndex_stackAddress]
  exact ⟨by omega, by omega⟩

theorem Plain.balanced {x y : Machine b} (h : Plain PROGMEM x y) : Balanced PROGMEM 0 x y := by
  refine ⟨h.sp, fun k _ _ => ?_⟩
  rw [(h.next.stepOf PROGMEM).2, stepOf_mem_stepWrites, peek_pokes_of_ne]
  intro w hw heq
  exact h.writes w hw (heq ▸ stackCell_stackAddress _)

/-- The pushes of an instruction, before a run that is balanced after them. -/
structure Pushed (vs : List U8) (x u : Machine b) : Prop where
  sp : u.1.cpu.SP = x.1.cpu.SP - .ofNat 8 vs.length
  mem : u.2 = pokes x.2 (stackWrites x.1.cpu.SP vs)

section Bracketed

variable {PROGMEM} {vs : List U8} {d : Nat} {x u v : Machine b} (hpush : Pushed vs x u)
  (hbody : Balanced PROGMEM d u v) (hd : d + vs.length ≤ 256)
include hpush hbody hd

/-- The body leaves the pushed bytes where they are. -/
theorem Pushed.peek_eq {j : Nat} {w : U8} (hj : vs[j]? = some w) :
    peek PROGMEM v.2 (stackAddress (x.1.cpu.SP - .ofNat 8 j)) = w := by
  obtain ⟨hlt, -⟩ := List.getElem?_eq_some_iff.mp hj
  -- seen from the `SP` of the body, the cell is the one `256 - length` and more below it
  have hcell := hbody.cells (j + 256 - vs.length) (by omega) (by omega)
  have haddr : u.1.cpu.SP - .ofNat 8 (j + 256 - vs.length) = x.1.cpu.SP - .ofNat 8 j := by
    rw [hpush.sp]
    bv_omega
  rw [haddr, hpush.mem, peek_stackWrites PROGMEM (by omega) hj] at hcell
  exact hcell

/-- And so it leaves the cells further below. -/
theorem Pushed.peek_below {k : Nat} (hk : d + vs.length ≤ k) (hlt : k < 256) :
    peek PROGMEM v.2 (stackAddress (x.1.cpu.SP - .ofNat 8 k)) =
      peek PROGMEM x.2 (stackAddress (x.1.cpu.SP - .ofNat 8 k)) := by
  have hcell := hbody.cells (k - vs.length) (by omega) (by omega)
  have haddr : u.1.cpu.SP - .ofNat 8 (k - vs.length) = x.1.cpu.SP - .ofNat 8 k := by
    rw [hpush.sp]
    bv_omega
  rw [haddr, hpush.mem, peek_pokes_of_ne] at hcell
  · exact hcell
  · intro w hw
    obtain ⟨j, hj, hwj, -⟩ := stackWrites_mem hw
    rw [hwj, cellIndex_stackAddress, cellIndex_stackAddress]
    bv_omega

/-- **A bracket around a balanced run is balanced**, if the instruction that closes it pulls
    as much as was pushed. -/
theorem Pushed.balanced {y : Machine b} (hmem : y.2 = v.2)
    (hsp : y.1.cpu.SP = v.1.cpu.SP + .ofNat 8 vs.length) :
    Balanced PROGMEM (d + vs.length) x y := by
  constructor
  · rw [hsp, hbody.sp, hpush.sp]
    exact BitVec.sub_add_cancel _ _
  · intro k hk hlt
    rw [hmem]
    exact hpush.peek_below hbody hd hk hlt

end Bracketed

/-! ## Brackets -/

theorem Next.pushed {i : Ins} {x u : Machine b} (h : Next PROGMEM x u) (hat : At PROGMEM i x)
    (hs : i.store? = none)
    (hsp : codeSp i x.1.cpu.SP = x.1.cpu.SP - .ofNat 8 (i.pushed x.1.cpu).length) :
    Pushed (i.pushed x.1.cpu) x u := by
  obtain ⟨hcpu, hmem⟩ := h.stepOf PROGMEM
  constructor
  · rw [hcpu, stepOf_sp PROGMEM hat, hsp]
  · rw [hmem, stepOf_mem PROGMEM hat, Ins.writes, hs]
    rfl

theorem stepOf_pla {x : Machine b} (h : At PROGMEM .pla x) :
    (stepOf PROGMEM x).1.cpu.A = peek PROGMEM x.2 (stackAddress (x.1.cpu.SP + 1)) ∧
      (stepOf PROGMEM x).1.cpu.PS.Z =
        (peek PROGMEM x.2 (stackAddress (x.1.cpu.SP + 1)) == 0) ∧
      (stepOf PROGMEM x).1.cpu.PS.N =
        (peek PROGMEM x.2 (stackAddress (x.1.cpu.SP + 1)) &&& 0x80 != 0) := by
  rw [stepOf_arms PROGMEM h]
  exact ⟨rfl, rfl, rfl⟩

section Step

variable {PROGMEM} {d : Nat} {x u v y : Machine b}

/-- `PHA`, a balanced body, `PLA`. -/
theorem pha_bracket (hpha : At PROGMEM .pha x) (hu : Next PROGMEM x u)
    (hbody : Balanced PROGMEM d u v) (hpla : At PROGMEM .pla v) (hy : Next PROGMEM v y)
    (hd : d + 1 ≤ 256) :
    Balanced PROGMEM (d + 1) x y ∧ Bracket.Returns ⟨.pha, x, u, v, y⟩ := by
  have hpush := hu.pushed PROGMEM hpha rfl rfl
  obtain ⟨hcpu, hmem⟩ := hy.stepOf PROGMEM
  constructor
  · refine hpush.balanced hbody hd ?_ ?_
    · rw [hmem, stepOf_mem PROGMEM hpla]
      rfl
    · rw [hcpu, stepOf_sp PROGMEM hpla]
      rfl
  · have hpeek := hpush.peek_eq hbody hd (j := 0) rfl
    have haddr : v.1.cpu.SP + 1 = x.1.cpu.SP - .ofNat 8 0 := by
      rw [hbody.sp, hpush.sp]
      exact (BitVec.sub_add_cancel _ _).trans (BitVec.sub_zero _).symm
    obtain ⟨hA, hZ, hN⟩ := stepOf_pla PROGMEM hpla
    rw [haddr, hpeek] at hA hZ hN
    rw [and_0x80_ne_zero] at hN
    unfold Bracket.Returns
    rw [hcpu]
    exact ⟨hA, hZ, hN⟩

/-- `JSR`, a balanced body, `RTS`. -/
theorem jsr_bracket (hjsr : At PROGMEM .jsr x) (hu : Next PROGMEM x u)
    (hbody : Balanced PROGMEM d u v) (hrts : At PROGMEM .rts v) (hy : Next PROGMEM v y)
    (hd : d + 2 ≤ 256) :
    Balanced PROGMEM (d + 2) x y ∧ Bracket.Returns ⟨.jsr, x, u, v, y⟩ := by
  have hpush := hu.pushed PROGMEM hjsr rfl (BitVec.sub_sub _ 1 1)
  obtain ⟨hcpu, hmem⟩ := hy.stepOf PROGMEM
  constructor
  · refine hpush.balanced hbody hd ?_ ?_
    · rw [hmem, stepOf_mem PROGMEM hrts]
      rfl
    · rw [hcpu, stepOf_sp PROGMEM hrts]
      exact BitVec.add_assoc _ 1 1
  -- `JSR` pushes the high byte first, so `RTS` pulls it last
  · have hhigh := hpush.peek_eq hbody hd (j := 0) rfl
    have hlow := hpush.peek_eq hbody hd (j := 1) rfl
    have hsp : v.1.cpu.SP = x.1.cpu.SP - .ofNat 8 2 := hbody.sp.trans hpush.sp
    have haddr₀ : v.1.cpu.SP + 1 + 1 = x.1.cpu.SP - .ofNat 8 0 := by
      rw [hsp]
      bv_omega
    have haddr₁ : v.1.cpu.SP + 1 = x.1.cpu.SP - .ofNat 8 1 := by
      rw [hsp]
      bv_omega
    show y.1.cpu.PC = x.1.cpu.PC + 3
    rw [hcpu, stepOf_pc PROGMEM hrts]
    unfold codePc
    dsimp only
    rw [haddr₀, haddr₁, hhigh, hlow, word_bytes]
    bv_omega

end Step

theorem pull_writes {i : Ins} {x : Machine b} (h : At PROGMEM i x) (hi : i.writes PROGMEM x = []) :
    ∀ w ∈ stepWrites PROGMEM x, StackCell (cellIndex b w.1) := by
  rw [stepWrites_at PROGMEM h, hi]
  simp

theorem push_writes {i : Ins} {x : Machine b} (h : At PROGMEM i x)
    (hi : i.writes PROGMEM x = stackWrites x.1.cpu.SP (i.pushed x.1.cpu)) :
    ∀ w ∈ stepWrites PROGMEM x, StackCell (cellIndex b w.1) := by
  rw [stepWrites_at PROGMEM h, hi]
  intro w hw
  obtain ⟨k, -, hwk, -⟩ := stackWrites_mem hw
  rw [hwk]
  exact stackCell_stackAddress _

/-! ## The whole run -/

theorem Runs.balanced {t : Nest} {x y : Machine b} {bs : List (Bracket b)}
    (h : Runs PROGMEM t x y bs) (hd : t.depth ≤ 256) :
    Balanced PROGMEM t.depth x y ∧ ∀ br ∈ bs, br.Returns ∧ br.WritesStack PROGMEM := by
  induction h with
  | nil => exact ⟨.refl PROGMEM _, by simp⟩
  | plain h => exact ⟨h.balanced, by simp⟩
  | seq hs ht ihs iht =>
    simp only [Nest.depth] at hd ⊢
    obtain ⟨hbs, hs'⟩ := ihs (by omega)
    obtain ⟨hbt, ht'⟩ := iht (by omega)
    -- both parts are as deep as the deeper of them at most
    refine ⟨(hbs.mono PROGMEM (by omega)).trans PROGMEM (hbt.mono PROGMEM (by omega)), ?_⟩
    intro br hbr
    rcases List.mem_append.mp hbr with hbr | hbr
    · exact hs' br hbr
    · exact ht' br hbr
  | pha hpha hu _ hpla hy ih =>
    simp only [Nest.depth] at hd ⊢
    obtain ⟨hbody, hbrs⟩ := ih (by omega)
    obtain ⟨hbal, hret⟩ := pha_bracket hpha hu hbody hpla hy hd
    refine ⟨hbal, List.forall_mem_cons.mpr ⟨⟨hret, ?_⟩, hbrs⟩⟩
    exact ⟨push_writes PROGMEM hpha rfl, pull_writes PROGMEM hpla rfl⟩
  | jsr hjsr hu _ hrts hy ih =>
    simp only [Nest.depth] at hd ⊢
    obtain ⟨hbody, hbrs⟩ := ih (by omega)
    obtain ⟨hbal, hret⟩ := jsr_bracket hjsr hu hbody hrts hy hd
    refine ⟨hbal, List.forall_mem_cons.mpr ⟨⟨hret, ?_⟩, hbrs⟩⟩
    exact ⟨push_writes PROGMEM hjsr rfl, pull_writes PROGMEM hrts rfl⟩

/-- **After a well nested run at most 256 bytes deep `SP` is back**, each of its brackets
    returned what it saved, and none of them wrote outside the stack. -/
theorem nesting (b : Build) (PROGMEM : Progmem) (t : Nest) (x y : Machine b)
    (bs : List (Bracket b)) (h : Runs PROGMEM t x y bs) (hd : t.depth ≤ 256) :
    y.1.cpu.SP = x.1.cpu.SP ∧ ∀ br ∈ bs, br.Returns ∧ br.WritesStack PROGMEM := by
  obtain ⟨hbal, hbrs⟩ := h.balanced PROGMEM hd
  exact ⟨hbal.sp, hbrs⟩

/-- A program image of `JSR $8004` and, there, `PHA`, `PLA` and `RTS`. -/
def nestProgmem : Progmem := fun i =>
  match i.val with
  | 0 => 0x20
  | 1 => 0x04
  | 2 => 0x80
  | 4 => 0x48
  | 5 => 0x68
  | 6 => 0x60
  | _ => 0x00

/-- About to call, with the stack pointer about to wrap. -/
def nestState : Machine ⟨false⟩ :=
  (clockStart { olc6502Init with PC := 0x8000, SP := 0x01, A := 0x80 } false 20, ⟨fun _ => 0⟩)

/-- The state `k` instructions later. -/
def nestAt : Nat → Machine ⟨false⟩
  | 0 => nestState
  | k + 1 => stepOf nestProgmem (nestAt k)

theorem nestRuns : Runs nestProgmem (.jsr (.pha .nil)) (nestAt 0) (nestAt 4)
    [⟨.jsr, nestAt 0, nestAt 1, nestAt 3, nestAt 4⟩,
      ⟨.pha, nestAt 1, nestAt 2, nestAt 2, nestAt 3⟩] := by
  have hsafe : ∀ k < 4, StepSafe nestProgmem (nestAt k) := by decide
  have hnext : ∀ k < 4, Next nestProgmem (nestAt k) (nestAt (k + 1)) :=
    fun k hk => .of_safe nestProgmem (hsafe k hk)
  refine .jsr (by decide) (hnext 0 (by simp)) ?_ (by decide) (hnext 3 (by simp))
  exact .pha (by decide) (hnext 1 (by simp)) .nil (by decide) (hnext 2 (by simp))

/-- A subroutine that saves `A`, called with three bytes to go around the stack page. -/
theorem nesting_jsr :
    (nestAt 4).1.cpu.SP = (nestAt 0).1.cpu.SP ∧
      ∀ br ∈ [⟨.jsr, nestAt 0, nestAt 1, nestAt 3, nestAt 4⟩,
        ⟨.pha, nestAt 1, nestAt 2, nestAt 2, nestAt 3⟩],
        Bracket.Returns br ∧ Bracket.WritesStack nestProgmem br :=
  nesting ⟨false⟩ nestProgmem _ _ _ _ nestRuns (by decide)

end M6502
