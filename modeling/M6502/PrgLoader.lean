import M6502.Lib.CText
import M6502.System

/-!
# Program files (`prg_loader.c`)

A program file has a line for each segment: the load address, a colon, the bytes in
hexadecimal. The loader touches the machine through `bus_write_byte` only, so it is a program
over the bus like the CPU. A null pointer passed to `strtol` is undefined in C; the loader
answers `none` where it would do that. `longBits` is the width of the platform's `long`.
-/

set_option autoImplicit false

namespace M6502

open Lib

def bufSize : Nat := 64

/-- `prg_segment_t`, with the bytes `data` points to; `size` is their number. -/
structure PrgSegment where
  loadAddress : U16
  data : List U8
  size_lt : data.length < 0x10000

/-! ## Writing -/

/-- What the loop body prints for a segment. -/
def segmentText (segment : PrgSegment) : List Char :=
  ['0', 'x'] ++ printX 4 segment.loadAddress.toNat ++ [':', ' '] ++
    segment.data.flatMap (fun v => printX 2 v.toNat ++ [' ']) ++ ['\n']

/-- `write_prg_file`: what it returns, and the file it leaves; `opens` is whether `fopen`
    succeeds. -/
def writePrgFile (opens : Bool) (segments : List PrgSegment) : Int × Option (List Char) :=
  if opens then (0, some (segments.flatMap segmentText)) else (-1, none)

/-! ## Loading -/

section Load

variable (longBits : Nat)

/-- The loop over the tokens after the address. -/
def loadTokens (loadAddr : U16) : U16 → List (List Char) → Prog BusSig Unit
  | _, [] => .ret ()
  | offset, token :: tokens =>
    let data : U8 := .ofInt 8 (strtolHex longBits token)
    let virtual_addr := loadAddr + offset
    .call (.writeByte virtual_addr data) fun _ => loadTokens loadAddr (offset + 1) tokens

/-- The body of the loop over the lines. -/
def loadLine (myString : List Char) : Prog BusSig (Option Unit) :=
  match strtok ':' (cString myString) with
  | none => .ret none
  | some (token, rest) =>
    let loadAddr : U16 := .ofInt 16 (strtolHex longBits token)
    (loadTokens longBits loadAddr 0 (strtokAll ' ' rest)).bind fun _ => .ret (some ())

def loadLines : List (List Char) → Prog BusSig (Option Int)
  | [] => .ret (some 0)
  | line :: lines => (loadLine longBits line).bind fun r =>
    match r with
    | none => .ret none
    | some () => loadLines lines

/-- `load_prg_file`: what it returns; `file` is what `fopen` finds. -/
def loadPrgFile (file : Option (List Char)) : Prog BusSig (Option Int) :=
  match file with
  | none => .ret (some (-1))
  | some content => loadLines longBits (fgetsAll bufSize content)

variable {b : Build} (PROGMEM : Progmem)

/-- The loader on the machine's bus. -/
def loadPrgFileOn (file : Option (List Char)) (mem : Memory b) : Option (Int × Memory b) :=
  ((loadPrgFile longBits file).run (bus PROGMEM) mem).bind fun r => r.1.map fun ret => (ret, r.2)

end Load

end M6502
