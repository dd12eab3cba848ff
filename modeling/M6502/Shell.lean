import M6502.Lib.CNumber
import M6502.Main

/-!
# The shell (`main.c`)

`main` brings the machine up and hands over to a shell, which calls the commands for the lines
that are typed. The shell is a library of its own and is not modelled: a session is the calls it
makes. `longBits` is the width of the platform's `long`, its `int` has 32 bits.
-/

set_option autoImplicit false

namespace M6502

open Lib

namespace Shell

def CStr.chars (s : CStr) : List Char := s.bytes.map fun v => Char.ofNat v.toNat

/-- `0x%0wX` -/
def hexText (w n : Nat) : String := String.ofList ('0' :: 'x' :: printX w n)

/-! ## `clock_command`, `print_command` -/

def clockCommand (argv : List CStr) : Command Int :=
  match argv with
  | [_, arg] =>
    match atoi 32 arg.chars with
    | none => undefined
    | some cycles => do
      let actual_cycles ← clock cycles
      printf (.text s!"Requested {cycles} cycles, executed {actual_cycles} cycles\n")
      printCpuStatus
      return 0
  | _ => do
    printf (.text "Usage: clock <cycles>\n")
    return -1

def printCommand (argc : Nat) : Command Int := do
  if argc ≠ 1 then do
    printf (.text "Usage: print\n")
    return -1
  else do
    printCpuStatus
    return 0

/-! ## `inspect_memory_command` -/

section Inspect

variable (longBits : Nat)

/-- An argument as an address: `(uint16_t)strtoul(arg, NULL, 0)`. -/
def addressArg (arg : CStr) : U16 := .ofNat 16 (strtoul longBits arg.chars)

/-- `addr` is 32 bits wide, so it can pass an end of `0xFFFF`. -/
def inspectRound (addr : BitVec 32) : Command (BitVec 32) := do
  let value ← busReadByte (addr.setWidth 16)
  printf (.text s!"{hexText 2 value.toNat} ")
  return addr + 1

def inspectTest (end' : U16) (addr : BitVec 32) : Command Bool := do
  return decide (addr ≤ end'.setWidth 32)

def invalidRange : Output :=
  .text s!"Invalid address range. Start should be <= end and both should be < {memoryMaxSize}\n"

def inspectMemoryCommand (fuel : Nat) (argv : List CStr) : Command (Option Int) :=
  match argv with
  | [_, first, last] => do
    let start := addressArg longBits first
    let end' := addressArg longBits last
    if start > end' then do
      printf invalidRange
      return some (-1)
    else do
      printf (.text s!"{hexText 4 start.toNat}:\t")
      match ← Prog.whileDo (inspectTest end') inspectRound fuel (start.setWidth 32) with
      | none => return none
      | some _ => do
        printf (.text "\n")
        return some 0
  | _ => do
    printf (.text "Usage: inspect <start_address> <end_address>\n")
    return some (-1)

end Inspect

/-! ## `reset_command` -/

section Machine

variable {b : Build} (PROGMEM : Progmem)

/-- `olc6502_reset(&cpu, &cycles)`; the counter is not used again. -/
def resetCpu (cycles : Cycles) (x : Host b) : Option (Host b) :=
  (resetOn PROGMEM x.cpu cycles x.mem).map fun r => { x with cpu := r.1 }

def resetCommand (argc : Nat) (x : Host b) : Option (Int × Host b) :=
  if argc ≠ 1 then
    (do printf (.text "Usage: reset\n"); return -1 : Command Int).run (host PROGMEM) x
  else
    (resetCpu PROGMEM ⟨9, false⟩ x).bind fun x =>
      (do printCpuStatus; return 0 : Command Int).run (host PROGMEM) x

/-! ## `main` -/

/-- What an initialisation prints, where it succeeds. -/
def announce (status : Int) (s : String) : List Output := if status = 0 then [.text s] else []

/-- `main`, up to the shell: the static objects are zero before. -/
def boot (b : Build) : Option (Host b) :=
  let (status, mem) := memoryInit (⟨fun _ => 0⟩ : Memory b)
  resetCpu PROGMEM ⟨9, false⟩
    { cpu := olc6502Init
      oopsCycle := false
      mem
      output :=
        announce status s!"{totalMemorySize b} bytes of memory initialized with zeros\n" ++
        announce 0 "74LS138 decoder initialized and connected to memory bus\n" ++
        announce 0 "CPU initialized to power-up state\n" }

/-! ## Sessions -/

/-- The commands registered with `SHELL_COMMAND`. -/
inductive ShellCommand
  | clock
  | print
  | reset
  | inspect
  | run
  | wozmon
deriving DecidableEq

variable (longBits sizeofPointer : Nat)

/-- Called with `argv`, the command returns `ret`, its loop being done after some number of
    rounds. -/
def Executes (c : ShellCommand) (argv : List CStr) (x : Host b) (ret : Int) (y : Host b) : Prop :=
  match c with
  | .clock => (clockCommand argv).run (host PROGMEM) x = some (ret, y)
  | .print => (printCommand argv.length).run (host PROGMEM) x = some (ret, y)
  | .reset => resetCommand PROGMEM argv.length x = some (ret, y)
  | .inspect => ∃ fuel, (inspectMemoryCommand longBits fuel argv).run (host PROGMEM) x =
      some (some ret, y)
  | .run => ∃ fuel, (runCommand fuel argv.length).run (host PROGMEM) x = some (some ret, y)
  | .wozmon => ∃ fuel, (wozmonCommand sizeofPointer fuel argv).run (host PROGMEM) x =
      some (some ret, y)

/-- The commands are called one after the other. -/
inductive Session : List (ShellCommand × List CStr) → Host b → Host b → Prop
  | nil (x : Host b) : Session [] x x
  | cons {c : ShellCommand} {argv : List CStr} {l : List (ShellCommand × List CStr)} {ret : Int}
    {x y z : Host b} (h : Executes PROGMEM longBits sizeofPointer c argv x ret y)
    (hl : Session l y z) : Session ((c, argv) :: l) x z

end Machine

end Shell

end M6502
