import M6502.Proof.Cpu.Operand
import M6502.Proof.Cpu.Run
import M6502.Proof.Cpu.Stack
import M6502.Proof.Cpu.Status

/-!
# The break and unused bits

Bits 4 and 5 of the status byte exist on the stack only. The flags are written as fields
and, by `BIT`, `PLP` and `RTI`, as a byte from memory with those bits masked out: whatever
the opcode, `B` and `U` are as they were (`execute_breakBits`). So in everything that follows
`olc6502_init` they are clear, and a pushed status byte is `PS.value` with just them set.
-/

set_option autoImplicit false

namespace M6502

open Lib Cpu

variable {b : Build} (PROGMEM : Progmem)

/-- The CPU between two calls, after `olc6502_init`: whatever the memory, the counter and
    `oops_cycle` are at each call. -/
inductive Reachable (b : Build) (PROGMEM : Progmem) : Olc6502 → Prop
  | init : Reachable b PROGMEM olc6502Init
  | reset {cpu : Olc6502} {cycles : Cycles} {mem : Memory b} {r : Olc6502 × Cycles} :
    Reachable b PROGMEM cpu → resetOn PROGMEM cpu cycles mem = some r → Reachable b PROGMEM r.1
  | clock {cpu : Olc6502} {oops_cycle : Bool} {mem : Memory b} {cycles : Int}
    {r : ClockResult b} :
    Reachable b PROGMEM cpu → clockOn PROGMEM cpu oops_cycle mem cycles = some r →
      Reachable b PROGMEM r.cpu

/-- `B` and `U` are the same in both. -/
def SameBreakBits (f g : Flags) : Prop := f.B = g.B ∧ f.U = g.U

/-! ## One instruction -/

theorem sameBreakBits_or (f : Flags) {v : U8} (h4 : v.getLsbD 4 = false)
    (h5 : v.getLsbD 5 = false) : SameBreakBits (.ofValue (f.value ||| v)) f := by
  rw [Flags.ofValue_or]
  simp only [SameBreakBits, Flags.or, Flags.ofValue, h4, h5, Bool.or_false, and_self]

/-- A mask that keeps neither bit. -/
theorem sameBreakBits_mask (f : Flags) (v : U8) {m : U8} (h4 : m.getLsbD 4 = false)
    (h5 : m.getLsbD 5 = false) : SameBreakBits (.ofValue (f.value ||| (v &&& m))) f :=
  sameBreakBits_or f (by rw [BitVec.getLsbD_and, h4, Bool.and_false])
    (by rw [BitVec.getLsbD_and, h5, Bool.and_false])

/-- The instructions that take flags from a byte in memory. -/
def Ins.OrsValue (i : Ins) : Prop := i ∈ [.bitZp, .bitAbs, .plp, .rti]

instance (i : Ins) : Decidable i.OrsValue := inferInstanceAs (Decidable (_ ∈ _))

theorem execute_orsValue {i : Ins} (h : i.OrsValue) (s : Clock) :
    (execute i.opcode s).All fun r => SameBreakBits r.2.cpu.PS s.cpu.PS := by
  rw [execute_opcode]
  cases i
  case bitZp => exact fun _ v => sameBreakBits_mask { s.cpu.PS with Z := _ } v rfl rfl
  case bitAbs => exact fun _ v => sameBreakBits_mask { s.cpu.PS with Z := _ } v rfl rfl
  case plp =>
    intro v
    refine sameBreakBits_or s.cpu.PS ?_ ?_ <;> simp
  case rti => exact fun v _ _ => sameBreakBits_mask s.cpu.PS v rfl rfl
  all_goals exact absurd h (by decide)

theorem branchGroup_breakBits (aaa : U8) (s : Clock) :
    (branchGroup aaa s).All fun r => SameBreakBits r.2.cpu.PS s.cpu.PS := by
  rw [branchGroup_eq]
  intro offset
  unfold branchResult
  dsimp only
  split <;> exact ⟨rfl, rfl⟩

theorem holeResult_breakBits (opcode : U8) (s : Clock) :
    SameBreakBits (holeResult opcode s).cpu.PS s.cpu.PS := by
  unfold holeResult
  split <;> exact ⟨rfl, rfl⟩

/-- **No opcode, named or not, changes `B` or `U`.** -/
theorem execute_breakBits (opcode : U8) (s : Clock) :
    (execute opcode s).All fun r => SameBreakBits r.2.cpu.PS s.cpu.PS := by
  cases hop : Ins.ofOpcode? opcode with
  | none =>
    by_cases hh : opcode ∈ holes
    · rw [execute_hole hop hh]
      exact fun _ => holeResult_breakBits opcode s
    · rw [execute_inert hop hh]
      exact ⟨rfl, rfl⟩
  | some i =>
    obtain rfl := Ins.opcode_of_ofOpcode? hop
    by_cases hv : i.OrsValue
    · exact execute_orsValue hv s
    by_cases hb : i.group = .branch
    · rw [execute_branch hb]
      exact branchGroup_breakBits _ s
    · rw [execute_opcode]
      cases i
      -- the others assign single fields, or none
      all_goals first
        | exact absurd rfl hb
        | exact absurd (by decide) hv
        | (repeat intro _
           exact ⟨rfl, rfl⟩)

theorem instructionOn_breakBits {x y : Machine b} (h : instructionOn PROGMEM x = some y) :
    SameBreakBits y.1.cpu.PS x.1.cpu.PS := by
  unfold instructionOn at h
  obtain ⟨r, hr, rfl⟩ := Option.map_eq_some_iff.mp h
  have hall : (instruction x.1).All fun r => SameBreakBits r.2.cpu.PS x.1.cpu.PS :=
    fun opcode => execute_breakBits opcode x.1.afterFetch
  exact hall.run hr

/-! ## Every reachable state -/

/-- Both bits are clear. -/
def Clean (f : Flags) : Prop := f.B = false ∧ f.U = false

theorem SameBreakBits.clean {f g : Flags} (h : SameBreakBits f g) (hg : Clean g) : Clean f :=
  ⟨h.1.trans hg.1, h.2.trans hg.2⟩

theorem Clean.value {f : Flags} (h : Clean f) :
    f.value.getLsbD 4 = false ∧ f.value.getLsbD 5 = false := by
  rw [Flags.getLsbD_value, Flags.getLsbD_value]
  exact h

theorem Reached.clean {x y : Machine b} (h : Reached PROGMEM x y) (hx : Clean x.1.cpu.PS) :
    Clean y.1.cpu.PS := by
  obtain ⟨k, hk⟩ := h
  refine iter_invariant (I := fun z : Machine b => Clean z.1.cpu.PS) ?_ hx hk
  intro z w hz hw
  exact (instructionOn_breakBits PROGMEM ((round_eq_some_iff PROGMEM).mp hw).2).clean hz

theorem Reachable.clean {cpu : Olc6502} (h : Reachable b PROGMEM cpu) : Clean cpu.PS := by
  induction h with
  | init => exact ⟨rfl, rfl⟩
  | reset _ hr ih =>
    rw [resetOn_eq] at hr
    obtain rfl := Option.some.inj hr
    exact ih
  | clock _ hr ih =>
    obtain ⟨y, hy, -, rfl⟩ := (clockOn_eq_some_iff PROGMEM).mp hr
    exact hy.clean PROGMEM ih

theorem getLsbD_0x30 (k : Nat) : (0x30 : U8).getLsbD k = decide (k = 4 ∨ k = 5) := by
  have hlow : ∀ k < 8, (0x30 : U8).getLsbD k = decide (k = 4 ∨ k = 5) := by decide
  rcases Nat.lt_or_ge k 8 with hk | hk
  · exact hlow k hk
  · have hne : ¬ (k = 4 ∨ k = 5) := by omega
    rw [BitVec.getLsbD_of_ge _ _ hk, decide_eq_false hne]

/-! ## The stack -/

/-- Where the status byte goes: `BRK` pushes the return address before it. -/
def Ins.statusCell (i : Ins) (SP : U8) : U16 := stackAddress (if i = .brk then SP - 2 else SP)

/-- The instruction pushes the byte `v`, which is then the top of the stack. -/
structure PushesStatus (i : Ins) (x : Machine b) (v : U8) : Prop where
  write : (stepWrites PROGMEM x).getLast? = some (i.statusCell x.1.cpu.SP, v)
  top : i.statusCell x.1.cpu.SP = stackAddress ((stepOf PROGMEM x).1.cpu.SP + 1)
  byte : peek PROGMEM (stepOf PROGMEM x).2 (i.statusCell x.1.cpu.SP) = v

theorem pushesStatus {i : Ins} {x : Machine b} (hi : i = .php ∨ i = .brk) (h : At PROGMEM i x) :
    PushesStatus PROGMEM i x (pushedStatus x.1.cpu) := by
  have hdown : ∀ SP : U8, SP - 1 - 1 = SP - 2 := fun SP => by bv_omega
  have htop : i.statusCell x.1.cpu.SP = stackAddress ((stepOf PROGMEM x).1.cpu.SP + 1) := by
    rw [stepOf_sp PROGMEM h]
    unfold Ins.statusCell codeSp
    rcases hi with rfl | rfl
    · exact congrArg stackAddress (BitVec.sub_add_cancel x.1.cpu.SP 1).symm
    · exact congrArg stackAddress ((hdown _).symm.trans (BitVec.sub_add_cancel _ 1).symm)
  refine ⟨?_, htop, ?_⟩
  · rw [stepWrites_at PROGMEM h]
    rcases hi with rfl | rfl
    · rfl
    · exact congrArg (fun SP => some (stackAddress SP, pushedStatus x.1.cpu)) (hdown x.1.cpu.SP)
  · have hlast : ∀ k, (i.pushed x.1.cpu)[k]? = some (pushedStatus x.1.cpu) →
        (i.pushed x.1.cpu).length ≤ 256 →
        peek PROGMEM (pokes x.2 (stackWrites x.1.cpu.SP (i.pushed x.1.cpu)))
          (stackAddress (x.1.cpu.SP - .ofNat 8 k)) = pushedStatus x.1.cpu :=
      fun k hk hlen => peek_stackWrites PROGMEM hlen hk
    rw [stepOf_mem PROGMEM h]
    rcases hi with rfl | rfl
    · have hpush := hlast 0 rfl (show 1 ≤ 256 by decide)
      rwa [show x.1.cpu.SP - BitVec.ofNat 8 0 = x.1.cpu.SP from BitVec.sub_zero _] at hpush
    · exact hlast 2 rfl (show 3 ≤ 256 by decide)

/-- **Break and unused exist on the stack only**: in every state of every call they are clear,
    and the byte `PHP` and `BRK` push to the cell of the stack for it is the status byte with
    just the two of them set. -/
theorem breakBits_onStackOnly (b : Build) (PROGMEM : Progmem) {cpu : Olc6502}
    (hcpu : Reachable b PROGMEM cpu) {oops_cycle : Bool} {mem : Memory b} {cycles : Int}
    {y : Machine b} (hy : Reached PROGMEM (callStart cpu oops_cycle mem cycles) y) :
    (y.1.cpu.PS.value.getLsbD 4 = false ∧ y.1.cpu.PS.value.getLsbD 5 = false) ∧
    ∀ i, i = .php ∨ i = .brk → At PROGMEM i y → ∃ v, PushesStatus PROGMEM i y v ∧
      ∀ k, v.getLsbD k = (y.1.afterFetch.cpu.PS.value.getLsbD k || decide (k = 4 ∨ k = 5)) := by
  refine ⟨(hy.clean PROGMEM (hcpu.clean PROGMEM)).value, fun i hi hat => ?_⟩
  refine ⟨_, pushesStatus PROGMEM hi hat, fun k => ?_⟩
  unfold pushedStatus
  rw [BitVec.getLsbD_or, getLsbD_0x30]
  rfl

/-- A program image of `LDA #$FF`, `PHA`, `PLP`, `PHP` and `BRK`, with a reset vector to it. -/
def plpProgmem : Progmem := fun i =>
  match i.val with
  | 0 => 0xA9
  | 1 => 0xFF
  | 2 => 0x48
  | 3 => 0x28
  | 4 => 0x08
  | 0x7FFD => 0x80
  | _ => 0x00

/-- After a reset, `k` instructions into a call of nine cycles. -/
def plpAt : Nat → Machine ⟨false⟩
  | 0 => callStart { olc6502Init with PC := 0x8000 } false ⟨fun _ => 0x00⟩ 9
  | k + 1 => stepOf plpProgmem (plpAt k)

/-- The next call, `k` instructions into it. -/
def phpAt : Nat → Machine ⟨false⟩
  | 0 => callStart (plpAt 3).1.cpu (plpAt 3).1.oopsCycle (plpAt 3).2 10
  | k + 1 => stepOf plpProgmem (phpAt k)

theorem plpAt_reached : Reached plpProgmem (plpAt 0) (plpAt 3) := by
  have hround : ∀ k < 3, round plpProgmem (plpAt k) = some (plpAt (k + 1)) := by
    intro k hk
    refine (round_eq_some_iff _).mpr ⟨?_, (instructionOn_eq_some_iff _).mpr ⟨?_, rfl⟩⟩
    all_goals
      revert k
      decide
  exact .head _ (hround 0 (by decide)) (.head _ (hround 1 (by decide))
    (.head _ (hround 2 (by decide)) (.refl _ _)))

theorem phpAt_reachable : Reachable ⟨false⟩ plpProgmem (phpAt 0).1.cpu := by
  have hreset : resetOn plpProgmem olc6502Init ⟨7, false⟩ (plpAt 0).2 =
      some ((plpAt 0).1.cpu, ⟨0, false⟩) := by
    rw [resetOn_eq]
    rfl
  have hstop : ¬ Running (plpAt 3) := by decide
  have hclock : clockOn plpProgmem (plpAt 0).1.cpu false (plpAt 0).2 9 =
      some (callResult 9 (plpAt 3)) :=
    (clockOn_eq_some_iff plpProgmem).mpr ⟨plpAt 3, plpAt_reached, hstop, rfl⟩
  have hcall := Reachable.clock (.reset .init hreset) hclock
  exact hcall

/-- `PHP` in the second call, every flag being set, and the `BRK` after it. -/
theorem breakBits_onStackOnly_php :
    (phpAt 0).1.cpu.PS.value = 0xCF ∧ PushesStatus plpProgmem .php (phpAt 0) 0xFF ∧
      PushesStatus plpProgmem .brk (phpAt 1) 0xFF := by
  have hround : round plpProgmem (phpAt 0) = some (phpAt 1) := by
    refine (round_eq_some_iff _).mpr ⟨?_, (instructionOn_eq_some_iff _).mpr ⟨?_, rfl⟩⟩ <;> decide
  have hphp := (breakBits_onStackOnly ⟨false⟩ plpProgmem phpAt_reachable
    (.refl _ (phpAt 0))).2 .php (.inl rfl) (by decide)
  have hbrk := (breakBits_onStackOnly ⟨false⟩ plpProgmem phpAt_reachable
    (.head _ hround (.refl _ _))).2 .brk (.inr rfl) (by decide)
  have hbyte : ∀ (f : Flags) (v : U8), f.value = 0xCF →
      (∀ k, v.getLsbD k = (f.value.getLsbD k || decide (k = 4 ∨ k = 5))) → v = 0xFF := by
    intro f v hf hv
    refine BitVec.eq_of_getLsbD_eq fun k hk => (hv k).trans ?_
    rw [hf]
    revert k
    decide
  obtain ⟨v, hpush, hv⟩ := hphp
  obtain ⟨w, hpush', hw⟩ := hbrk
  obtain rfl := hbyte _ _ (by decide) hv
  obtain rfl := hbyte _ _ (by decide) hw
  exact ⟨by decide, hpush, hpush'⟩

end M6502
