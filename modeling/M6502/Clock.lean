import M6502.Olc6502

/-!
# The interpreter loop (`olc6502_clock`)

One pass through the loop body is `instruction`: fetch, apply the delayed interrupt flag,
then `execute`, which is the switch on the opcode followed by six tests on the opcode's
bit-fields `aaa`, `bbb` and `cc`. Arms of the switch that differ only in register,
addressing helper and cycle adjustment are one definition with those as parameters
(`loadArm`, `storeArm`, …); the table `switchArm` gives each arm its own values, so a
missing `cycles -= 1` or a missing assignment to `addr` in the source is visible there.
-/

set_option autoImplicit false

namespace M6502

open Lib Cpu

/-! ## The arms of the switch -/

inductive Reg
  | A | X | Y
deriving DecidableEq, Repr

def Olc6502.reg (cpu : Olc6502) : Reg → U8
  | .A => cpu.A
  | .X => cpu.X
  | .Y => cpu.Y

def Olc6502.setReg (cpu : Olc6502) (r : Reg) (v : U8) : Olc6502 :=
  match r with
  | .A => { cpu with A := v }
  | .X => { cpu with X := v }
  | .Y => { cpu with Y := v }

def setReg (r : Reg) (v : U8) : ClockM Unit := modify fun s => { s with cpu := s.cpu.setReg r v }

def setPC (pc : U16) : ClockM Unit := modify fun s => { s with cpu.PC := pc }

def setFetched (v : U8) : ClockM Unit := modify fun s => { s with fetched := v }

def setTemp (v : U8) : ClockM Unit := modify fun s => { s with temp := v }

/-- `cpu->PS.value |= v` -/
def orValue (v : U8) : ClockM Unit := modify fun s =>
  { s with cpu.PS := .ofValue (s.cpu.PS.value ||| v) }

/-- `addr = ea` -/
def toAddr (ea : ClockM U16) : ClockM U16 := do
  let address ← ea
  modify fun s => { s with addr := address }
  return address

/-- `(get_zp_address(cpu, &cycles) + index) & 0xFF` -/
def zpIndexed (index : Olc6502 → U8) : ClockM U16 := do
  let zp_address ← getZpAddress
  return (zp_address + (index (← get).cpu).setWidth 16) &&& 0xFF

def zpX : ClockM U16 := zpIndexed (·.X)
def zpY : ClockM U16 := zpIndexed (·.Y)

/-- `oops_cycle = false` -/
def clearOops : ClockM Unit := modify fun s => { s with oopsCycle := false }

/-- `cycles -= oops_cycle ? 2 : 1; oops_cycle = false` -/
def oopsTick : ClockM Unit := do
  tick (if (← get).oopsCycle then 2 else 1)
  clearOops

/-- `reg op= bus_read_byte(ea)`, the arm's cycle adjustment, the flags of `reg`. -/
def loadArm (r : Reg) (op : U8 → U8 → U8) (ea : ClockM U16) (cost : ClockM Unit) :
    ClockM Unit := do
  let v ← busReadByte (← ea)
  setReg r (op ((← get).cpu.reg r) v)
  cost
  updateFlagsFromRegister ((← get).cpu.reg r)

/-- `reg op= fetch_operand(cpu, &cycles)` and the flags of `reg`. -/
def loadImmediateArm (r : Reg) (op : U8 → U8 → U8) : ClockM Unit := do
  let v ← fetchOperand
  setReg r (op ((← get).cpu.reg r) v)
  updateFlagsFromRegister ((← get).cpu.reg r)

/-- `bus_write_byte(ea, reg)` and the arm's cycle adjustment. -/
def storeArm (r : Reg) (ea : ClockM U16) (cost : ClockM Unit) : ClockM Unit := do
  let address ← ea
  busWriteByte address ((← get).cpu.reg r)
  cost

/-- `dst = f(src)`, the flags of `dst`, one cycle: the transfers and `INX`, `DEX`, … -/
def registerArm (dst src : Reg) (f : U8 → U8) : ClockM Unit := do
  setReg dst (f ((← get).cpu.reg src))
  updateFlagsFromRegister ((← get).cpu.reg dst)
  tick 1

/-- The switch part of a shift on memory: the operand and its address are left in `fetched`
    and `addr` for the bit-field group. -/
def shiftFetchArm (ea : ClockM U16) : ClockM Unit := do
  setFetched (← busReadByte (← toAddr ea))

def bitArm (ea : ClockM U16) : ClockM Unit := do
  setFetched (← busReadByte (← ea))
  tick 1
  modify fun s => { s with cpu.PS.Z := s.fetched &&& s.cpu.A == 0 }
  orValue ((← get).fetched &&& 0xC0)

def jmpAbsArm : ClockM Unit := do
  setPC (← getAbsoluteAddress)

def jmpIndArm : ClockM Unit := do
  let addr ← toAddr getAbsoluteAddress
  let addr_high := (addr &&& 0xFF00) ||| ((addr + 1) &&& 0x00FF)
  let high ← busReadByte addr_high
  let low ← busReadByte addr
  let target := (high.setWidth 16 <<< 8) ||| low.setWidth 16
  tick 2
  setPC target

def jsrArm : ClockM Unit := do
  let addr ← toAddr getAbsoluteAddress
  pushWordToStack ((← get).cpu.PC - 1)
  setPC addr
  tick 1

def rtsArm : ClockM Unit := do
  setPC ((← pullWordFromStack) + 1)
  tick 3

def brkArm : ClockM Unit := do
  let _ ← fetchOperand
  pushWordToStack (← get).cpu.PC
  setTemp ((← get).cpu.PS.value ||| 0x30)
  pushByteToStack (← get).temp
  modify fun s => { s with cpu.PS.I := true, cpu.iNxt := true }
  setPC irqVector
  setPC (← getAbsoluteAddress)

def rtiArm : ClockM Unit := do
  setFetched (← pullByteFromStack)
  orValue ((← get).fetched &&& 0xCF)
  modify fun s => { s with cpu.iNxt := bitField (s.fetched &&& 0x04) }
  tick 2
  let addr ← toAddr pullWordFromStack
  setPC addr

def phaArm : ClockM Unit := do
  busWriteByte (stackAddress (← get).cpu.SP) (← get).cpu.A
  modify fun s => { s with cpu.SP := s.cpu.SP - 1 }
  tick 2

def plaArm : ClockM Unit := do
  modify fun s => { s with cpu.SP := s.cpu.SP + 1 }
  setReg .A (← busReadByte (stackAddress (← get).cpu.SP))
  updateFlagsFromRegister (← get).cpu.A
  tick 3

def phpArm : ClockM Unit := do
  busWriteByte (stackAddress (← get).cpu.SP) ((← get).cpu.PS.value ||| 0x30)
  modify fun s => { s with cpu.SP := s.cpu.SP - 1 }
  tick 2

def plpArm : ClockM Unit := do
  modify fun s => { s with cpu.SP := s.cpu.SP + 1 }
  setFetched (← get).cpu.PS.value
  setTemp ((← busReadByte (stackAddress (← get).cpu.SP)) &&& 0xCF)
  -- `I_nxt` is only assigned when the flag changes
  modify fun s =>
    { s with
      cpu.iNxt :=
        if (s.temp &&& 0x04) ^^^ (s.fetched &&& 0x04) ≠ 0 then bitField (s.temp &&& 0x04)
        else s.cpu.iNxt }
  orValue ((← get).temp &&& 0xFB)
  tick 3

def txsArm : ClockM Unit := do
  busWriteByte (stackAddress (← get).cpu.SP) (← get).cpu.X
  tick 1

def tsxArm : ClockM Unit := do
  setReg .X (← busReadByte (stackAddress (← get).cpu.SP))
  updateFlagsFromRegister (← get).cpu.X
  tick 1

/-- The operator of a plain load: the old value of the register is dropped. -/
def load (_ v : U8) : U8 := v

def switchArm : Ins → ClockM Unit
  | .ldaIm => loadImmediateArm .A load
  | .ldaZp => loadArm .A load getZpAddress (pure ())
  | .ldaZpx => loadArm .A load (toAddr zpX) (tick 2)
  | .ldaAbs => loadArm .A load getAbsoluteAddress (tick 1)
  | .ldaAbsx => loadArm .A load (toAddr getAbsoluteAddressX) oopsTick
  | .ldaAbsy => loadArm .A load (toAddr getAbsoluteAddressY) oopsTick
  | .ldaIndx => loadArm .A load getIndexedIndirectX (tick 2)
  | .ldaIndy => loadArm .A load getIndexedIndirectY oopsTick
  | .staZp => storeArm .A getZpAddress (tick 1)
  | .staZpx => storeArm .A (toAddr zpX) (tick 2)
  | .staAbs => storeArm .A (toAddr getAbsoluteAddress) (tick 1)
  | .staAbsx => storeArm .A (toAddr getAbsoluteAddressX) (do tick 2; clearOops)
  | .staAbsy => storeArm .A (toAddr getAbsoluteAddressY) (do tick 2; clearOops)
  | .staIndx => storeArm .A (toAddr getIndexedIndirectX) (tick 2)
  | .staIndy => storeArm .A (toAddr getIndexedIndirectY) (do tick 2; clearOops)
  | .ldxIm => loadImmediateArm .X load
  | .ldxZp => loadArm .X load getZpAddress (tick 1)
  | .ldxZpy => loadArm .X load (toAddr zpY) (tick 2)
  | .ldxAbs => loadArm .X load getAbsoluteAddress (tick 1)
  | .ldxAbsy => loadArm .X load (toAddr getAbsoluteAddressY) oopsTick
  | .stxZp => storeArm .X getZpAddress (tick 1)
  | .stxZpy => storeArm .X (toAddr zpY) (tick 2)
  | .stxAbs => storeArm .X (toAddr getAbsoluteAddress) (tick 1)
  | .ldyIm => loadImmediateArm .Y load
  | .ldyZp => loadArm .Y load getZpAddress (tick 1)
  | .ldyZpx => loadArm .Y load (toAddr zpX) (tick 2)
  | .ldyAbs => loadArm .Y load getAbsoluteAddress (tick 1)
  | .ldyAbsx => loadArm .Y load (toAddr getAbsoluteAddressX) oopsTick
  | .styZp => storeArm .Y getZpAddress (tick 1)
  | .styZpx => storeArm .Y (toAddr zpX) (tick 2)
  | .styAbs => storeArm .Y (toAddr getAbsoluteAddress) (tick 1)
  | .tax => registerArm .X .A id
  | .txa => registerArm .A .X id
  | .tay => registerArm .Y .A id
  | .tya => registerArm .A .Y id
  | .inx => registerArm .X .X (· + 1)
  | .dex => registerArm .X .X (· - 1)
  | .iny => registerArm .Y .Y (· + 1)
  | .dey => registerArm .Y .Y (· - 1)
  | .aslA | .lsrA | .rolA | .rorA => do setFetched (← get).cpu.A
  | .aslZp | .lsrZp | .rolZp | .rorZp => shiftFetchArm getZpAddress
  | .aslZpx | .lsrZpx | .rolZpx | .rorZpx => shiftFetchArm zpX
  | .aslAbs | .lsrAbs | .rolAbs | .rorAbs => shiftFetchArm getAbsoluteAddress
  | .aslAbsx | .lsrAbsx | .rolAbsx | .rorAbsx => do
    shiftFetchArm getAbsoluteAddressX
    clearOops
  | .andIm => loadImmediateArm .A (· &&& ·)
  | .andZp => loadArm .A (· &&& ·) getZpAddress (tick 1)
  | .andZpx => loadArm .A (· &&& ·) (toAddr zpX) (tick 2)
  | .andAbs => loadArm .A (· &&& ·) getAbsoluteAddress (tick 1)
  | .andAbsx => loadArm .A (· &&& ·) (toAddr getAbsoluteAddressX) oopsTick
  | .andAbsy => loadArm .A (· &&& ·) (toAddr getAbsoluteAddressY) oopsTick
  | .andIndx => loadArm .A (· &&& ·) getIndexedIndirectX (tick 2)
  | .andIndy => loadArm .A (· &&& ·) (toAddr getIndexedIndirectY) oopsTick
  | .oraIm => loadImmediateArm .A (· ||| ·)
  | .oraZp => loadArm .A (· ||| ·) getZpAddress (tick 1)
  | .oraZpx => loadArm .A (· ||| ·) (toAddr zpX) (tick 2)
  | .oraAbs => loadArm .A (· ||| ·) getAbsoluteAddress (tick 1)
  | .oraAbsx => loadArm .A (· ||| ·) (toAddr getAbsoluteAddressX) oopsTick
  | .oraAbsy => loadArm .A (· ||| ·) (toAddr getAbsoluteAddressY) oopsTick
  | .oraIndx => loadArm .A (· ||| ·) getIndexedIndirectX (tick 2)
  | .oraIndy => loadArm .A (· ||| ·) (toAddr getIndexedIndirectY) oopsTick
  | .eorIm => loadImmediateArm .A (· ^^^ ·)
  | .eorZp => loadArm .A (· ^^^ ·) getZpAddress (tick 1)
  | .eorZpx => loadArm .A (· ^^^ ·) (toAddr zpX) (tick 2)
  | .eorAbs => loadArm .A (· ^^^ ·) getAbsoluteAddress (tick 1)
  | .eorAbsx => loadArm .A (· ^^^ ·) (toAddr getAbsoluteAddressX) oopsTick
  | .eorAbsy => loadArm .A (· ^^^ ·) (toAddr getAbsoluteAddressY) oopsTick
  | .eorIndx => loadArm .A (· ^^^ ·) getIndexedIndirectX (tick 2)
  | .eorIndy => loadArm .A (· ^^^ ·) (toAddr getIndexedIndirectY) oopsTick
  | .bitZp => bitArm getZpAddress
  | .bitAbs => bitArm getAbsoluteAddress
  | .jmpAbs => jmpAbsArm
  | .jmpInd => jmpIndArm
  | .jsr => jsrArm
  | .rts => rtsArm
  | .brk => brkArm
  | .rti => rtiArm
  | .pha => phaArm
  | .pla => plaArm
  | .php => phpArm
  | .plp => plpArm
  | .txs => txsArm
  | .tsx => tsxArm
  | .nop => tick 1
  | _ => pure ()

/-- `switch (opcode)`; every opcode without a case goes to `default: break`. -/
def switch (opcode : U8) : ClockM Unit :=
  match Ins.ofOpcode? opcode with
  | some i => switchArm i
  | none => pure ()

/-! ## The bit-field groups -/

/-- Set/clear flag instructions. -/
def flagGroup (aaa : U8) : ClockM Unit := do
  let flag_value := bitField (aaa &&& 0x01)
  let flag_selector := aaa >>> 1
  match flag_selector.toNat with
  | 0b00 => modify fun s => { s with cpu.PS.C := flag_value }
  | 0b01 => modify fun s => { s with cpu.iNxt := flag_value }
  | 0b10 => modify fun s => { s with cpu.PS.V := flag_value }
  | 0b11 => modify fun s => { s with cpu.PS.D := flag_value }
  | _ => pure ()
  tick 1

/-- The byte a shift leaves in `fetched`, and the carry it shifts out. -/
def shiftResult (aaa : U8) (C : Bool) (fetched : U8) : U8 × Bool :=
  match aaa.toNat with
  | 0 => (fetched <<< 1, fetched &&& 0x80 != 0)
  | 1 => ((fetched <<< 1) ||| (if C then 0x01 else 0x00), fetched &&& 0x80 != 0)
  | 2 => (fetched >>> 1, fetched &&& 0x01 != 0)
  | 3 => ((fetched >>> 1) ||| (if C then 0x80 else 0x00), fetched &&& 0x01 != 0)
  | _ => (fetched, C)

/-- Shift and rotate instructions, on `fetched`; the rotates also leave the old carry, as
    the bit to shift in, in `temp`. -/
def shiftGroup (aaa bbb : U8) : ClockM Unit := do
  match aaa.toNat with
  | 1 => setTemp (if (← get).cpu.PS.C then 0x01 else 0x00)
  | 3 => setTemp (if (← get).cpu.PS.C then 0x80 else 0x00)
  | _ => pure ()
  modify fun s =>
    { s with
      fetched := (shiftResult aaa s.cpu.PS.C s.fetched).1
      cpu.PS.C := (shiftResult aaa s.cpu.PS.C s.fetched).2 }
  updateFlagsFromRegister (← get).fetched
  if bbb = 2 then
    setReg .A (← get).fetched
    tick 1
  else
    busWriteByte (← get).addr (← get).fetched
    tick (if bbb < 4 then 3 else 4)

/-- The addressing switch of the ADC/SBC and of the CMP/CPX/CPY group. -/
def groupAddress (bbb : U8) : ClockM Unit := do
  match bbb.toNat with
  | 0b000 => let _ ← toAddr getIndexedIndirectX; tick 2
  | 0b001 => let _ ← toAddr getZpAddress; tick 1
  | 0b010 => setFetched (← fetchOperand)
  | 0b011 => let _ ← toAddr getAbsoluteAddress; tick 1
  | 0b100 => let _ ← toAddr getIndexedIndirectY; oopsTick
  | 0b101 => let _ ← toAddr zpX; tick 1
  | 0b110 => let _ ← toAddr getAbsoluteAddressY; oopsTick
  | 0b111 => let _ ← toAddr getAbsoluteAddressX; oopsTick
  | _ => pure ()

/-- The operand of those two groups, in `fetched`. -/
def groupOperand (bbb : U8) : ClockM Unit := do
  groupAddress bbb
  if bbb ≠ 0b010 then
    setFetched (← busReadByte (← get).addr)

/-- ADC/SBC instructions. -/
def adcGroup (aaa bbb : U8) : ClockM Unit := do
  groupOperand bbb
  modify fun s =>
    let value : U16 := if aaa = 7 then ~~~(s.fetched.setWidth 16) + 1 else s.fetched.setWidth 16
    let sum : U16 := s.cpu.A.setWidth 16 + value + (if s.cpu.PS.C then 1 else 0)
    { s with
      cpu.PS.V := (sum ^^^ s.cpu.A.setWidth 16) &&& (sum ^^^ value) &&& 0x0080 != 0
      cpu.PS.C := decide (sum > 0xFF)
      cpu.A := sum.setWidth 8 }
  updateFlagsFromRegister (← get).cpu.A

/-- CMP/CPX/CPY instructions. -/
def cmpGroup (aaa bbb cc : U8) : ClockM Unit := do
  groupAddress bbb
  let cpu := (← get).cpu
  setTemp (if cc = 1 then cpu.A else if aaa = 7 then cpu.X else cpu.Y)
  if bbb ≠ 0b010 then
    setFetched (← busReadByte (← get).addr)
  let value : U16 := (← get).temp.setWidth 16 - (← get).fetched.setWidth 16
  modify fun s => { s with cpu.PS.C := decide (s.temp ≥ s.fetched) }
  updateFlagsFromRegister (value.setWidth 8)

/-- INC/DEC instructions. -/
def incDecGroup (aaa bbb : U8) : ClockM Unit := do
  setTemp (← get).cpu.A
  match bbb.toNat with
  | 0b001 => let _ ← toAddr getZpAddress; tick 3
  | 0b011 => let _ ← toAddr getAbsoluteAddress; tick 3
  | 0b101 => let _ ← toAddr zpX; tick 4
  | 0b111 => let _ ← toAddr getAbsoluteAddressX; tick 4; clearOops
  | _ => pure ()
  let temp := (← get).temp
  setTemp (if aaa = 7 then temp + 1 else temp - 1)
  updateFlagsFromRegister (← get).temp
  busWriteByte (← get).addr (← get).temp

/-- The condition a branch opcode tests. -/
def shouldBranch (aaa : U8) (PS : Flags) : Bool :=
  match aaa.toNat with
  | 0b000 => !PS.N
  | 0b001 => PS.N
  | 0b010 => !PS.V
  | 0b011 => PS.V
  | 0b100 => !PS.C
  | 0b101 => PS.C
  | 0b110 => !PS.Z
  | 0b111 => PS.Z
  | _ => false

/-- Branch type instructions. -/
def branchGroup (aaa : U8) : ClockM Unit := do
  let should_branch := shouldBranch aaa (← get).cpu.PS
  setFetched (← fetchOperand)
  if should_branch then
    let old_PC := (← get).cpu.PC
    setPC (old_PC + (← get).fetched.signExtend 16)
    let crossed ← pageBoundaryCrossed (old_PC - 1) (← get).cpu.PC
    tick (if crossed then 2 else 1)

/-! ## The loop -/

/-- The opcode's bit-fields. -/
def fieldAaa (opcode : U8) : U8 := (opcode >>> 5) &&& 0x07
def fieldBbb (opcode : U8) : U8 := (opcode >>> 2) &&& 0x07
def fieldCc (opcode : U8) : U8 := opcode &&& 0x03

/-- The six groups after the switch, and none of them. -/
inductive Group
  | none | flag | shift | adc | cmp | incDec | branch
deriving DecidableEq, Repr

/-- The test an opcode has to pass for a group to act on it. -/
def Group.Fires (g : Group) (opcode : U8) : Prop :=
  let aaa := fieldAaa opcode
  let bbb := fieldBbb opcode
  let cc := fieldCc opcode
  match g with
  | .none => False
  | .flag => aaa ≠ 4 ∧ bbb = 6 ∧ cc = 0
  | .shift => aaa < 4 ∧ cc = 2
  | .adc => (aaa = 3 ∨ aaa = 7) ∧ cc = 1
  | .cmp => (cc = 1 ∧ aaa = 6) ∨ (cc = 0 ∧ aaa > 5 ∧ bbb < 4 ∧ bbb ≠ 0b010)
  | .incDec => cc = 2 ∧ aaa > 5 ∧ bbb ≠ 2
  | .branch => cc = 0 ∧ bbb = 4

instance (g : Group) (opcode : U8) : Decidable (g.Fires opcode) :=
  match g with
  | .none => inferInstanceAs (Decidable False)
  | .flag => inferInstanceAs (Decidable (_ ∧ _ ∧ _))
  | .shift => inferInstanceAs (Decidable (_ ∧ _))
  | .adc => inferInstanceAs (Decidable ((_ ∨ _) ∧ _))
  | .cmp => inferInstanceAs (Decidable ((_ ∧ _) ∨ (_ ∧ _ ∧ _ ∧ _)))
  | .incDec => inferInstanceAs (Decidable (_ ∧ _ ∧ _))
  | .branch => inferInstanceAs (Decidable (_ ∧ _))

/-- The switch, then the six bit-field tests in turn. -/
def execute (opcode : U8) : ClockM Unit := do
  let aaa := fieldAaa opcode
  let bbb := fieldBbb opcode
  let cc := fieldCc opcode
  switch opcode
  if Group.flag.Fires opcode then flagGroup aaa
  if Group.shift.Fires opcode then shiftGroup aaa bbb
  if Group.adc.Fires opcode then adcGroup aaa bbb
  if Group.cmp.Fires opcode then cmpGroup aaa bbb cc
  if Group.incDec.Fires opcode then incDecGroup aaa bbb
  if Group.branch.Fires opcode then branchGroup aaa

/-- `cpu->PS.I = cpu->I_nxt` -/
def applyINxt : ClockM Unit := modify fun s => { s with cpu.PS.I := s.cpu.iNxt }

/-- The body of the loop. -/
def instruction : ClockM Unit := do
  let opcode ← fetchOperand
  applyINxt
  execute opcode

/-- `while (cycles > 0)`, for at most `fuel` instructions. -/
def clockLoop : Nat → ClockM Unit
  | 0 => pure ()
  | fuel + 1 => do
    if 0 < (← get).cycles.val then
      instruction
      clockLoop fuel

/-- The state the loop starts in. -/
def clockStart (cpu : Olc6502) (oops_cycle : Bool) (cycles : Int) : Clock where
  cpu := cpu
  cycles := ⟨cycles, false⟩
  oopsCycle := oops_cycle
  addr := 0x0000
  fetched := 0x00
  temp := 0x00

/-- `return requested_cycles - cycles`: a `uint32_t` difference, returned as `int32_t`. -/
def clockReturn (requested_cycles cycles : Int) : Int :=
  (BitVec.ofInt 32 requested_cycles - BitVec.ofInt 32 cycles).toInt

/-- `olc6502_clock`: the value returned, and the activation as the loop leaves it. Every
    instruction costs at least one cycle, so `cycles` instructions are always enough. -/
def olc6502Clock (cpu : Olc6502) (oops_cycle : Bool) (cycles : Int) :
    Prog BusSig (Int × Clock) :=
  (clockLoop cycles.toNat (clockStart cpu oops_cycle cycles)).bind fun r =>
    .ret (clockReturn cycles r.2.cycles.val, r.2)

end M6502
