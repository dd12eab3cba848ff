import M6502.Clock

/-!
# Which code acts on an opcode

After the switch, six bit-field tests are made on every opcode. Here each named opcode is
given the one group its mnemonic belongs to, and `execute_opcode` says the tests select
exactly that one: no instruction is decoded twice. For the bytes the header does not name,
`execute_undefined` says which of them a group acts on all the same.
-/

set_option autoImplicit false

namespace M6502

open Lib Cpu

/-- The group's own code, on the bit-fields of an opcode. -/
def Group.arm (g : Group) (opcode : U8) : ClockM Unit :=
  match g with
  | .none => pure ()
  | .flag => flagGroup (fieldAaa opcode)
  | .shift => shiftGroup (fieldAaa opcode) (fieldBbb opcode)
  | .adc => adcGroup (fieldAaa opcode) (fieldBbb opcode)
  | .cmp => cmpGroup (fieldAaa opcode) (fieldBbb opcode) (fieldCc opcode)
  | .incDec => incDecGroup (fieldAaa opcode) (fieldBbb opcode)
  | .branch => branchGroup (fieldAaa opcode)

/-- `g` is the only group whose test an opcode passes. -/
def Group.Only (g : Group) (opcode : U8) : Prop :=
  ((Group.flag.Fires opcode) ↔ g = .flag) ∧ ((Group.shift.Fires opcode) ↔ g = .shift) ∧
  ((Group.adc.Fires opcode) ↔ g = .adc) ∧ ((Group.cmp.Fires opcode) ↔ g = .cmp) ∧
  ((Group.incDec.Fires opcode) ↔ g = .incDec) ∧ ((Group.branch.Fires opcode) ↔ g = .branch)

instance (g : Group) (opcode : U8) : Decidable (g.Only opcode) :=
  inferInstanceAs (Decidable (_ ∧ _))

/-- If one group only passes its test, the code after the switch is that group's. -/
theorem execute_of_only {g : Group} {opcode : U8} (h : g.Only opcode) :
    execute opcode = (do switch opcode; g.arm opcode) := by
  obtain ⟨hf, hs, ha, hc, hi, hb⟩ := h
  unfold execute
  simp only [hf, hs, ha, hc, hi, hb]
  cases g <;> simp [Group.arm]

/-- The group a mnemonic belongs to. -/
def Ins.group : Ins → Group
  | .clc | .sec | .cli | .sei | .clv | .cld | .sed => .flag
  | .aslA | .aslZp | .aslZpx | .aslAbs | .aslAbsx | .lsrA | .lsrZp | .lsrZpx | .lsrAbs | .lsrAbsx
  | .rolA | .rolZp | .rolZpx | .rolAbs | .rolAbsx | .rorA | .rorZp | .rorZpx | .rorAbs
  | .rorAbsx => .shift
  | .adcIm | .adcZp | .adcZpx | .adcAbs | .adcAbsx | .adcAbsy | .adcIndx | .adcIndy
  | .sbcIm | .sbcAbs | .sbcZp | .sbcZpx | .sbcAbsx | .sbcAbsy | .sbcIndx | .sbcIndy => .adc
  | .cmpIm | .cmpZp | .cmpZpx | .cmpAbs | .cmpAbsx | .cmpAbsy | .cmpIndx | .cmpIndy
  | .cpxIm | .cpyIm | .cpxZp | .cpyZp | .cpxAbs | .cpyAbs => .cmp
  | .decZp | .decZpx | .decAbs | .decAbsx | .incZp | .incZpx | .incAbs | .incAbsx => .incDec
  | .beq | .bne | .bcs | .bcc | .bmi | .bpl | .bvc | .bvs => .branch
  | _ => .none

theorem Ins.group_only (i : Ins) : i.group.Only i.opcode := by
  have hall : ∀ i ∈ Ins.all, i.group.Only i.opcode := by decide +kernel
  exact hall i i.mem_all

/-- **A named opcode is executed by its own case of the switch and by its own group.** -/
theorem execute_opcode (i : Ins) :
    execute i.opcode = (do switchArm i; i.group.arm i.opcode) := by
  rw [execute_of_only i.group_only]
  unfold switch
  rw [i.ofOpcode?_opcode]

/-- Only the shifts are split between a case of the switch and a group. -/
theorem switchArm_of_group {i : Ins} (h : i.group ≠ .none) (hs : i.group ≠ .shift) :
    switchArm i = pure () := by
  cases i <;> first | exact absurd rfl h | exact absurd rfl hs | rfl

theorem execute_branch {i : Ins} (h : i.group = .branch) :
    execute i.opcode = branchGroup (fieldAaa i.opcode) := by
  rw [execute_opcode, switchArm_of_group (by simp [h]) (by simp [h]), h]
  rfl

/-! ## Branches -/

/-- The activation a branch leaves, by the byte after its opcode. -/
def branchResult (aaa : U8) (s : Clock) (offset : U8) : Clock :=
  let next := s.cpu.PC + 1
  let target := next + offset.signExtend 16
  if shouldBranch aaa s.cpu.PS then
    { s with
      cpu.PC := target
      cycles := (s.cycles.sub 1).sub
        (if (next - 1) &&& 0xFF00 != target &&& 0xFF00 then 2 else 1)
      oopsCycle := true
      fetched := offset }
  else { s with cpu.PC := next, cycles := s.cycles.sub 1, fetched := offset }

theorem branchGroup_eq (aaa : U8) (s : Clock) :
    branchGroup aaa s =
      .call (.readByte s.cpu.PC) fun offset => .ret ((), branchResult aaa s offset) := by
  refine congrArg (Prog.call _) (funext fun offset => ?_)
  unfold branchResult
  cases hs : shouldBranch aaa s.cpu.PS with
  | true => simp only [if_true]; rfl
  | false => simp only [Bool.false_eq_true, if_false]; rfl

/-! ## The bytes without a name -/

/-- The unnamed bytes the shift group acts on: `aaa < 4`, `cc = 2` and `bbb` 0, 4 or 6. -/
def shiftHoles : List U8 :=
  [0x02, 0x12, 0x1A, 0x22, 0x32, 0x3A, 0x42, 0x52, 0x5A, 0x62, 0x72, 0x7A]

/-- The unnamed bytes the INC/DEC group acts on: `aaa > 5`, `cc = 2` and `bbb` 0, 4 or 6. -/
def incDecHoles : List U8 := [0xC2, 0xD2, 0xDA, 0xE2, 0xF2, 0xFA]

/-- The unnamed bytes that a group acts on. -/
def holes : List U8 := shiftHoles ++ incDecHoles

/-- The group that acts on an unnamed byte. -/
def undefinedGroup (opcode : U8) : Group :=
  if opcode ∈ shiftHoles then .shift else if opcode ∈ incDecHoles then .incDec else .none

theorem undefinedGroup_only {opcode : U8} (h : Ins.ofOpcode? opcode = none) :
    (undefinedGroup opcode).Only opcode := by
  have hall : ∀ op : U8, Ins.ofOpcode? op = none → (undefinedGroup op).Only op := by
    decide +kernel
  exact hall opcode h

/-- An unnamed byte has no case in the switch, but a group may still act on it. -/
theorem execute_undefined {opcode : U8} (h : Ins.ofOpcode? opcode = none) :
    execute opcode = (undefinedGroup opcode).arm opcode := by
  rw [execute_of_only (undefinedGroup_only h)]
  unfold switch
  rw [h]
  rfl

/-- What a shift at one of those bytes leaves: it works on the `fetched` and the `addr` of
    whichever instruction set them last. -/
def shiftHoleResult (opcode : U8) (s : Clock) : Clock :=
  let r := shiftResult (fieldAaa opcode) s.cpu.PS.C s.fetched
  { s with
    fetched := r.1
    temp := match (fieldAaa opcode).toNat with
      | 1 => if s.cpu.PS.C then 0x01 else 0x00
      | 3 => if s.cpu.PS.C then 0x80 else 0x00
      | _ => s.temp
    cpu.PS := { s.cpu.PS with C := r.2, Z := r.1 == 0, N := r.1 &&& 0x80 != 0 }
    cycles := s.cycles.sub (if fieldBbb opcode < 4 then 3 else 4) }

theorem shiftHole_eq {opcode : U8} (h : opcode ∈ shiftHoles) (s : Clock) :
    shiftGroup (fieldAaa opcode) (fieldBbb opcode) s =
      .call (.writeByte s.addr (shiftResult (fieldAaa opcode) s.cpu.PS.C s.fetched).1)
        fun _ => .ret ((), shiftHoleResult opcode s) := by
  have hall : ∀ op ∈ shiftHoles, shiftGroup (fieldAaa op) (fieldBbb op) s =
      .call (.writeByte s.addr (shiftResult (fieldAaa op) s.cpu.PS.C s.fetched).1)
        fun _ => .ret ((), shiftHoleResult op s) := by
    simp only [shiftHoles, List.forall_mem_cons]
    refine ⟨rfl, rfl, rfl, rfl, rfl, rfl, rfl, rfl, rfl, rfl, rfl, rfl, ?_⟩
    exact fun op hop => by cases hop
  exact hall opcode h

/-- The byte an increment or a decrement makes of `A`. -/
def incDecByte (aaa A : U8) : U8 := if aaa = 7 then A + 1 else A - 1

/-- What an increment or a decrement at one of those bytes leaves: none of the four
    addressing cases applies, and no cycle is spent. -/
def incDecHoleResult (opcode : U8) (s : Clock) : Clock :=
  let v := incDecByte (fieldAaa opcode) s.cpu.A
  { s with
    temp := v
    cpu.PS := { s.cpu.PS with Z := v == 0, N := v &&& 0x80 != 0 } }

theorem incDecHole_eq {opcode : U8} (h : opcode ∈ incDecHoles) (s : Clock) :
    incDecGroup (fieldAaa opcode) (fieldBbb opcode) s =
      .call (.writeByte s.addr (incDecByte (fieldAaa opcode) s.cpu.A))
        fun _ => .ret ((), incDecHoleResult opcode s) := by
  have hall : ∀ op ∈ incDecHoles, incDecGroup (fieldAaa op) (fieldBbb op) s =
      .call (.writeByte s.addr (incDecByte (fieldAaa op) s.cpu.A))
        fun _ => .ret ((), incDecHoleResult op s) := by
    simp only [incDecHoles, List.forall_mem_cons]
    refine ⟨rfl, rfl, rfl, rfl, rfl, rfl, ?_⟩
    exact fun op hop => by cases hop
  exact hall opcode h

/-- An unnamed byte outside the holes does nothing at all. -/
theorem execute_inert {opcode : U8} (hn : Ins.ofOpcode? opcode = none) (hh : opcode ∉ holes)
    (s : Clock) : execute opcode s = .ret ((), s) := by
  have hshift : opcode ∉ shiftHoles := fun h => hh (List.mem_append_left _ h)
  have hincDec : opcode ∉ incDecHoles := fun h => hh (List.mem_append_right _ h)
  rw [execute_undefined hn]
  unfold undefinedGroup
  rw [if_neg hshift, if_neg hincDec]
  rfl

/-- The store of an unnamed byte that a group acts on: the byte, and what it leaves. -/
def holeByte (opcode : U8) (s : Clock) : U8 :=
  if opcode ∈ shiftHoles then (shiftResult (fieldAaa opcode) s.cpu.PS.C s.fetched).1
  else incDecByte (fieldAaa opcode) s.cpu.A

def holeResult (opcode : U8) (s : Clock) : Clock :=
  if opcode ∈ shiftHoles then shiftHoleResult opcode s else incDecHoleResult opcode s

/-- The flags a group leaves, where it acts on an unnamed byte. -/
def holeFlags (opcode : U8) (s : Clock) : Flags :=
  { s.cpu.PS with
    C := if opcode ∈ shiftHoles then (shiftResult (fieldAaa opcode) s.cpu.PS.C s.fetched).2
      else s.cpu.PS.C
    Z := holeByte opcode s == 0
    N := holeByte opcode s &&& 0x80 != 0 }

theorem holeResult_cpu (opcode : U8) (s : Clock) :
    (holeResult opcode s).cpu = { s.cpu with PS := holeFlags opcode s } := by
  unfold holeResult holeFlags holeByte
  by_cases h : opcode ∈ shiftHoles
  · rw [if_pos h, if_pos h, if_pos h]
    rfl
  · rw [if_neg h, if_neg h, if_neg h]
    rfl

theorem execute_hole {opcode : U8} (hn : Ins.ofOpcode? opcode = none) (hh : opcode ∈ holes)
    (s : Clock) :
    execute opcode s =
      .call (.writeByte s.addr (holeByte opcode s)) fun _ => .ret ((), holeResult opcode s) := by
  rw [execute_undefined hn]
  unfold undefinedGroup holeByte holeResult
  by_cases hs : opcode ∈ shiftHoles
  · rw [if_pos hs, if_pos hs, if_pos hs]
    exact shiftHole_eq hs s
  · have hi : opcode ∈ incDecHoles := (List.mem_append.mp hh).resolve_left hs
    rw [if_neg hs, if_neg hs, if_neg hs, if_pos hi]
    exact incDecHole_eq hi s

end M6502
