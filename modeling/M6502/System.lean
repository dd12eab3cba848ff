import M6502.Clock
import M6502.Ti74ls138

/-!
# The CPU on its bus

The CPU's bus operations answered by the decoder, the memory array and the program image.
An access outside an array is undefined in C: every function here is `none` from there on.
-/

set_option autoImplicit false

namespace M6502

open Lib

variable {b : Build} (PROGMEM : Progmem)

def bus : Prog.Handler BusSig (Memory b)
  | .readByte address, mem => (busReadByte PROGMEM mem address).map fun v => (v, mem)
  | .readWord address, mem => (busReadWord PROGMEM mem address).map fun v => (v, mem)
  | .writeByte address value, mem => (busWriteByte mem address value).map fun mem' => ((), mem')

/-- An activation of `olc6502_clock` and the memory it runs on. -/
abbrev Machine (b : Build) := Clock × Memory b

/-- The body of the loop. -/
def instructionOn (x : Machine b) : Option (Machine b) :=
  ((instruction x.1).run (bus PROGMEM) x.2).map fun r => (r.1.2, r.2)

/-- What a call of `olc6502_clock` returns, and what it leaves for the next one. -/
structure ClockResult (b : Build) where
  ret : Int
  cpu : Olc6502
  oopsCycle : Bool
  mem : Memory b

def clockOn (cpu : Olc6502) (oops_cycle : Bool) (mem : Memory b) (cycles : Int) :
    Option (ClockResult b) :=
  ((olc6502Clock cpu oops_cycle cycles).run (bus PROGMEM) mem).map fun r =>
    { ret := r.1.1, cpu := r.1.2.cpu, oopsCycle := r.1.2.oopsCycle, mem := r.2 }

def resetOn (cpu : Olc6502) (cycles : Cycles) (mem : Memory b) : Option (Olc6502 × Cycles) :=
  ((olc6502Reset cpu cycles).run (bus PROGMEM) mem).map (·.1)

/-! ## Calls on several CPUs

`oops_cycle` is one global of the program, so instances of `olc6502_t` with decoders and
memories of their own share it. -/

inductive Call
  | clock (cycles : Int)
  | reset (cycles : Cycles)

/-- What a call gives its caller: the cycles consumed, or the counter `olc6502_reset` was
    given a pointer to. -/
inductive Answer
  | consumed (cycles : Int)
  | counter (cycles : Cycles)

/-- A call on one instance, and the global it leaves. -/
def callOn (call : Call) (device : Olc6502 × Memory b) (oops_cycle : Bool) :
    Option (Answer × (Olc6502 × Memory b) × Bool) :=
  match call with
  | .clock cycles => (clockOn PROGMEM device.1 oops_cycle device.2 cycles).map fun r =>
    (.consumed r.ret, (r.cpu, r.mem), r.oopsCycle)
  | .reset cycles => (resetOn PROGMEM device.1 cycles device.2).map fun r =>
    (.counter r.2, (r.1, device.2), oops_cycle)

end M6502
