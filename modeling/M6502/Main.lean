import M6502.Lib.Loop
import M6502.Wozmon

/-!
# The commands of the shell (`main.c`)

`run_command` and `wozmon_command` drive the machine from outside: they call `olc6502_clock`,
read the fields of the CPU, use the bus and print. So they are programs over these operations
(`HostSig`), and `host` answers them with the machine of `System.lean`. Their `while` loops
need not end; `fuel` bounds how often the condition is tested, and a command that is not done
by then returns `none`. What C leaves undefined is an operation nothing answers.
-/

set_option autoImplicit false

namespace M6502

open Lib

/-! ## The machine, as the commands see it -/

/-- What the commands print. -/
inductive Output
  | text (s : String)
  /-- `CPU halted after executing %d cycles. Break Flag: %d` -/
  | halted (total_cycles : Int) (is_break : U8)
  /-- `print_cpu_status` -/
  | cpuStatus (cpu : Olc6502)
  /-- `WOZMON: %s` -/
  | wozmon (line : List U8)
deriving DecidableEq

inductive HostOp
  | busReadByte (address : U16)
  | busReadWord (address : U16)
  | busWriteByte (address : U16) (value : U8)
  /-- `olc6502_clock(&cpu, cycles)` -/
  | clock (cycles : Int)
  /-- The fields of `cpu`. -/
  | cpu
  | printf (out : Output)
  | undefined

abbrev HostSig : Sig where
  Op := HostOp
  Ans
    | .busReadByte _ => U8
    | .busReadWord _ => U16
    | .busWriteByte _ _ => Unit
    | .clock _ => Int
    | .cpu => Olc6502
    | .printf _ => Unit
    | .undefined => Empty

abbrev Command := Prog HostSig

/-- `cpu`, the global `oops_cycle`, `mem`, and what has been printed. -/
structure Host (b : Build) where
  cpu : Olc6502
  oopsCycle : Bool
  mem : Memory b
  output : List Output

def host {b : Build} (PROGMEM : Progmem) : Prog.Handler HostSig (Host b)
  | .busReadByte address, x => (busReadByte PROGMEM x.mem address).map fun v => (v, x)
  | .busReadWord address, x => (busReadWord PROGMEM x.mem address).map fun v => (v, x)
  | .busWriteByte address value, x =>
    (busWriteByte x.mem address value).map fun mem => ((), { x with mem })
  | .clock cycles, x => (clockOn PROGMEM x.cpu x.oopsCycle x.mem cycles).map fun r =>
    (r.ret, { x with cpu := r.cpu, oopsCycle := r.oopsCycle, mem := r.mem })
  | .cpu, x => some (x.cpu, x)
  | .printf out, x => some ((), { x with output := x.output ++ [out] })
  | .undefined, _ => none

namespace Shell

def busReadByte (address : U16) : Command U8 := .call (.busReadByte address) .ret
def busReadWord (address : U16) : Command U16 := .call (.busReadWord address) .ret
def busWriteByte (address : U16) (value : U8) : Command Unit :=
  .call (.busWriteByte address value) .ret
def clock (cycles : Int) : Command Int := .call (.clock cycles) .ret
def cpu : Command Olc6502 := .call .cpu .ret
def printf (out : Output) : Command Unit := .call (.printf out) .ret
def undefined {α : Type} : Command α := .call .undefined Empty.elim

def printCpuStatus : Command Unit := do printf (.cpuStatus (← cpu))

/-! ## `run_command` -/

/-- The variables of its loop; `stopped` is whether it was left by the `break`. `total_cycles`
    is exact: what an overflow of the `int` would do is undefined. -/
structure RunLocals where
  totalCycles : Int
  stopped : Bool

def runRound (v : RunLocals) : Command RunLocals := do
  let cycles ← clock 1
  return { totalCycles := v.totalCycles + cycles, stopped := decide (cycles = 0) }

def runTest (irq_address : U16) (v : RunLocals) : Command Bool := do
  return !v.stopped && decide ((← cpu).PC ≠ irq_address)

/-- The break flag, looked up in the stack frame pushed last. -/
def isBreak : Command U8 := do
  let cpu ← cpu
  if cpu.SP.setWidth 16 = stackBase - 3 then return 0
  else do
    let v ← busReadByte (cpu.SP.setWidth 16 + 1)
    return if v &&& 0x10 ≠ 0 then 1 else 0

def runCommand (fuel argc : Nat) : Command (Option Int) := do
  if argc ≠ 1 then do
    printf (.text "Usage: run\n")
    return some (-1)
  else do
    let irq_address ← busReadWord irqVector
    match ← Prog.whileDo (runTest irq_address) runRound fuel ⟨0, false⟩ with
    | none => return none
    | some v => do
      let is_break ← isBreak
      printf (.halted v.totalCycles is_break)
      printCpuStatus
      return some 0

/-! ## `wozmon_command` -/

/-- A string of C: its bytes before the zero that ends it. -/
structure CStr where
  bytes : List U8
  nul_notMem : 0 ∉ bytes
deriving DecidableEq

/-- `s[i]`, for an `i` up to that of the zero. -/
def CStr.get (s : CStr) (i : Nat) : U8 := s.bytes.getD i 0

def emptyArg : CStr := ⟨[], by simp⟩
/-- `"read"` -/
def readArg : CStr := ⟨[0x72, 0x65, 0x61, 0x64], by decide⟩
/-- `"write"` -/
def writeArg : CStr := ⟨[0x77, 0x72, 0x69, 0x74, 0x65], by decide⟩

/-- What `%s` prints of an array, if there is a zero in it. -/
def textOf (buf : Fin 0x0100 → U8) : Option (List U8) :=
  if (List.ofFn buf).contains 0 then some ((List.ofFn buf).takeWhile (· ≠ 0)) else none

/-- The variables of the loop of `wozmon read`. -/
structure ReadLocals where
  monData : U8
  buf : Fin 0x0100 → U8
  inputIndex : Nat
  rxDone : Bool

/-- `buf[input_index] = new_mon_data`, and the two assignments that follow. -/
def ReadLocals.store (v : ReadLocals) (new_mon_data : U8) : Option ReadLocals :=
  if h : v.inputIndex < 0x0100 then
    some { v with
      buf := Function.update v.buf ⟨v.inputIndex, h⟩ new_mon_data
      monData := new_mon_data
      inputIndex := v.inputIndex + 1 }
  else none

/-- The body of `if (new_mon_data != mon_data)`. -/
def receive (v : ReadLocals) (new_mon_data : U8) : Command ReadLocals :=
  match v.store new_mon_data with
  | none => undefined
  | some v =>
    if new_mon_data = 0x0D then
      match textOf v.buf with
      | none => undefined
      | some line => do
        printf (.wozmon line)
        return { v with inputIndex := 0, buf := fun _ => 0, rxDone := true }
    else return v

def readRound (v : ReadLocals) : Command ReadLocals := do
  let new_mon_data ← busReadByte aciaData
  let v ← (if new_mon_data ≠ v.monData then receive v new_mon_data else pure v : Command _)
  let _ ← clock 1
  return v

def readTest (irq_address : U16) (v : ReadLocals) : Command Bool := do
  return decide ((← cpu).PC ≠ irq_address) && !v.rxDone

/-- `wozmon read` -/
def wozmonRead (irq_address : U16) (fuel : Nat) : Command (Option Int) := do
  let mon_data ← busReadByte aciaData
  let done ← Prog.whileDo (readTest irq_address) readRound fuel ⟨mon_data, fun _ => 0, 0, false⟩
  return done.map fun _ => 0

/-- `for (size_t i = …; i < sizeof(input) && input[i] != '\0'; i++)`, where `sizeof(input) - i`
    is `left`. -/
def writeFrom (input : CStr) : (left i : Nat) → Command Unit
  | 0, _ => return ()
  | left + 1, i =>
    if input.get i = 0 then return ()
    else do
      busWriteByte aciaData (input.get i)
      busWriteByte aciaStatus 0x10
      let _ ← clock 1
      writeFrom input left (i + 1)

/-- `wozmon write`; `input` is a pointer, of `sizeofPointer` bytes. -/
def wozmonWrite (sizeofPointer : Nat) (input : CStr) : Command Unit :=
  writeFrom input sizeofPointer 0

def wozmonCommand (sizeofPointer fuel : Nat) (argv : List CStr) : Command (Option Int) := do
  match argv with
  | _ :: sub :: args => do
    let irq_address ← busReadWord irqVector
    if sub = readArg then wozmonRead irq_address fuel
    else if sub = writeArg then do
      wozmonWrite sizeofPointer (args.headD emptyArg)
      return some 0
    else return some 0
  | _ => do
    printf (.text "Usage: wozmon <read/write> <empty/data>\n")
    return some (-1)

end Shell

end M6502
