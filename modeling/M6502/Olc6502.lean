import Mathlib.Algebra.Group.Int.Defs
import M6502.Lib.Prog
import M6502.Constants

/-!
# The CPU and its helpers (`olc6502.h`, and `olc6502.c` but for `olc6502_clock`)

The CPU talks to the rest of the system through three bus operations only, so its code is
a program over those three (`BusSig`): the decoder and the memory of `Ti74ls138.lean` are
one environment it can run in.

`Clock` is what one activation of `olc6502_clock` works on: the CPU, the cycle counter the
helpers decrement, the global `oops_cycle`, and the three locals that live across
instructions. The counter is exact; `overflow` records whether a subtraction ever left
the range of `int32_t`.
-/

set_option autoImplicit false

namespace M6502

open Lib

/-! ## Processor status -/

/-- `union Flags`, by its bit-fields. -/
structure Flags where
  C : Bool
  Z : Bool
  I : Bool
  D : Bool
  B : Bool
  U : Bool
  V : Bool
  N : Bool
deriving DecidableEq, Repr

/-- The union's other member. -/
def Flags.value (f : Flags) : U8 :=
  BitVec.ofBoolListLE [f.C, f.Z, f.I, f.D, f.B, f.U, f.V, f.N]

/-- The bit-fields after a write to `value`. -/
def Flags.ofValue (v : U8) : Flags where
  C := v.getLsbD 0
  Z := v.getLsbD 1
  I := v.getLsbD 2
  D := v.getLsbD 3
  B := v.getLsbD 4
  U := v.getLsbD 5
  V := v.getLsbD 6
  N := v.getLsbD 7

/-- What a one-bit field keeps of a byte assigned to it. -/
def bitField (v : U8) : Bool := v.getLsbD 0

/-! ## State -/

/-- `olc6502_t`, without the pointer to the decoder. -/
structure Olc6502 where
  A : U8
  X : U8
  Y : U8
  SP : U8
  PS : Flags
  PC : U16
  iNxt : Bool
deriving DecidableEq, Repr

/-- The `int32_t` cycle counter. -/
structure Cycles where
  val : Int
  overflow : Bool
deriving DecidableEq, Repr

def int32Min : Int := -2 ^ 31
def int32Max : Int := 2 ^ 31 - 1

/-- `cycles -= k` -/
def Cycles.sub (c : Cycles) (k : Nat) : Cycles where
  val := c.val - k
  overflow := c.overflow || decide (c.val - k < int32Min)

/-- An activation of `olc6502_clock`. -/
structure Clock where
  cpu : Olc6502
  cycles : Cycles
  oopsCycle : Bool
  addr : U16
  fetched : U8
  temp : U8
deriving DecidableEq, Repr

/-! ## The bus, as the CPU sees it -/

inductive BusOp
  | readByte (address : U16)
  | readWord (address : U16)
  | writeByte (address : U16) (value : U8)
deriving DecidableEq

abbrev BusSig : Sig where
  Op := BusOp
  Ans
    | .readByte _ => U8
    | .readWord _ => U16
    | .writeByte _ _ => Unit

abbrev ClockM := StateT Clock (Prog BusSig)

namespace Cpu

def busReadByte (address : U16) : ClockM U8 := fun s =>
  .call (.readByte address) fun v => .ret (v, s)

def busReadWord (address : U16) : ClockM U16 := fun s =>
  .call (.readWord address) fun v => .ret (v, s)

def busWriteByte (address : U16) (value : U8) : ClockM Unit := fun s =>
  .call (.writeByte address value) fun _ => .ret ((), s)

/-! ## Helpers -/

/-- `cycles -= k` -/
def tick (k : Nat) : ClockM Unit := modify fun s => { s with cycles := s.cycles.sub k }

def updateFlagsFromRegister (reg : U8) : ClockM Unit := modify fun s =>
  { s with cpu.PS.Z := reg == 0, cpu.PS.N := reg &&& 0x80 != 0 }

/-- Besides its answer it leaves the global `oops_cycle` set. -/
def pageBoundaryCrossed (addr1 addr2 : U16) : ClockM Bool := do
  modify fun s => { s with oopsCycle := true }
  return addr1 &&& 0xFF00 != addr2 &&& 0xFF00

/-- `oops_cycle = page_boundary_crossed(addr1, addr2)` -/
def setOopsCycle (addr1 addr2 : U16) : ClockM Unit := do
  let crossed ← pageBoundaryCrossed addr1 addr2
  modify fun s => { s with oopsCycle := crossed }

/-- `cpu->PC++`, as an expression -/
def postIncPC : ClockM U16 := do
  let pc := (← get).cpu.PC
  modify fun s => { s with cpu.PC := pc + 1 }
  return pc

def fetchOperand : ClockM U8 := do
  tick 1
  busReadByte (← postIncPC)

def getZpAddress : ClockM U16 := do
  let zp_address ← busReadByte (← postIncPC)
  tick 1
  return zp_address.setWidth 16

def getAbsoluteAddress : ClockM U16 := do
  let abs_address ← busReadWord (← get).cpu.PC
  modify fun s => { s with cpu.PC := s.cpu.PC + 2 }
  tick 2
  return abs_address

/-- `get_absolute_addressX` and `get_absolute_addressY` differ in the index register. -/
def absoluteIndexed (index : Olc6502 → U8) : ClockM U16 := do
  let abs_address ← busReadWord (← get).cpu.PC
  let final_address := abs_address + (index (← get).cpu).setWidth 16
  modify fun s => { s with cpu.PC := s.cpu.PC + 2 }
  tick 2
  setOopsCycle abs_address final_address
  return final_address

def getAbsoluteAddressX : ClockM U16 := absoluteIndexed (·.X)
def getAbsoluteAddressY : ClockM U16 := absoluteIndexed (·.Y)

def getIndexedIndirectX : ClockM U16 := do
  let arg ← getZpAddress
  busReadWord (arg + (← get).cpu.X.setWidth 16)

def getIndexedIndirectY : ClockM U16 := do
  let arg ← getZpAddress
  let base_address ← busReadWord arg
  let final_address := base_address + (← get).cpu.Y.setWidth 16
  tick 2
  setOopsCycle base_address final_address
  return final_address

/-- `STACK_BASE + cpu->SP` -/
def stackAddress (SP : U8) : U16 := stackBase + SP.setWidth 16

def pushByteToStack (value : U8) : ClockM Unit := do
  busWriteByte (stackAddress (← get).cpu.SP) value
  modify fun s => { s with cpu.SP := s.cpu.SP - 1 }
  tick 1

def pushWordToStack (value : U16) : ClockM Unit := do
  pushByteToStack ((value >>> 8).setWidth 8)
  pushByteToStack (value.setWidth 8)

def pullByteFromStack : ClockM U8 := do
  modify fun s => { s with cpu.SP := s.cpu.SP + 1 }
  let value ← busReadByte (stackAddress (← get).cpu.SP)
  tick 1
  return value

def pullWordFromStack : ClockM U16 := do
  let low ← pullByteFromStack
  let high ← pullByteFromStack
  return (high.setWidth 16 <<< 8) ||| low.setWidth 16

end Cpu

/-- `olc6502_init`; what the CPU held before is overwritten. -/
def olc6502Init : Olc6502 where
  A := 0
  X := 0
  Y := 0
  PC := resetVector
  SP := (stackBase - 3).setWidth 8
  PS := .ofValue 0x04
  iNxt := true

/-- `olc6502_reset`: the CPU and the counter it leaves. -/
def olc6502Reset (cpu : Olc6502) (cycles : Cycles) : Prog BusSig (Olc6502 × Cycles) :=
  .call (.readWord resetVector) fun prg_start =>
    .ret ({ cpu with
      SP := (stackBase - 3).setWidth 8
      PS.I := true
      PS.D := false
      PC := prg_start
      iNxt := true }, cycles.sub 7)

end M6502
