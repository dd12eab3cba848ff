import M6502.Shell
import M6502.Proof.Host.Stepping

/-!
# What `inspect` prints

Its loop reads a byte and prints it, from one address to the other. The counter is wider than an
address, so it passes an end of `0xFFFF` and the loop is left (`inspectLoop_run`). The addresses
are the numbers typed modulo 65536, in any notation `strtoul` reads (`inspect_prints`).
-/

set_option autoImplicit false

namespace M6502

open Lib
open Shell (CStr emptyArg hexText)

variable {b : Build} (PROGMEM : Progmem)

/-! ## The loop -/

def dumpByte (x : Host b) (a : U16) : Output :=
  .text s!"{hexText 2 (x.byteAt PROGMEM a).toNat} "

/-- The bytes at `k` addresses from `a` on. -/
def dump (x : Host b) (a k : Nat) : List Output :=
  (List.range k).map fun i => dumpByte PROGMEM x (.ofNat 16 (a + i))

theorem dump_succ (x : Host b) (a k : Nat) :
    dump PROGMEM x a (k + 1) = dump PROGMEM x a k ++ [dumpByte PROGMEM x (.ofNat 16 (a + k))] := by
  unfold dump
  rw [List.range_succ, List.map_append, List.map_singleton]

/-- The condition. -/
def InRange (end' : U16) (p : BitVec 32 × Host b) : Prop := p.1 ≤ end'.setWidth 32

instance (end' : U16) : DecidablePred (InRange (b := b) end') :=
  fun _ => inferInstanceAs (Decidable (_ ≤ _))

theorem inspectRound_run (addr : BitVec 32) (x : Host b) :
    (Shell.inspectRound addr).run (host PROGMEM) x =
      some (addr + 1, x.prints [dumpByte PROGMEM x (addr.setWidth 16)]) := by
  show ((Shell.busReadByte _).bind _).run (host PROGMEM) x = _
  rw [Prog.run_bind, busReadByte_run]
  rfl

/-- **The rounds of the loop**, `k` of them up to the end of the range. -/
theorem inspect_rounds (x : Host b) (start end' : U16) {k : Nat}
    (hk : start.toNat + k ≤ end'.toNat + 1) :
    iter (guarded (InRange end') (Prog.bodyStep (host PROGMEM) Shell.inspectRound)) k
        (start.setWidth 32, x) =
      some (.ofNat 32 (start.toNat + k), x.prints (dump PROGMEM x start.toNat k)) := by
  have hend := end'.isLt
  induction k with
  | zero =>
    have hstart : start.setWidth 32 = BitVec.ofNat 32 (start.toNat + 0) := by bv_omega
    have hnone : x.prints [] = x := by
      unfold Host.prints
      rw [List.append_nil]
    rw [iter_zero, hstart, show dump PROGMEM x start.toNat 0 = [] from rfl, hnone]
  | succ k ih =>
    refine iter_succ_last_iff.mpr ⟨_, ih (by omega), guarded_eq_some_iff.mpr ⟨?_, ?_⟩⟩
    · show BitVec.ofNat 32 (start.toNat + k) ≤ end'.setWidth 32
      bv_omega
    · have haddr : (BitVec.ofNat 32 (start.toNat + k)).setWidth 16 =
          BitVec.ofNat 16 (start.toNat + k) := by
        bv_omega
      have hnext : BitVec.ofNat 32 (start.toNat + k) + 1 = .ofNat 32 (start.toNat + (k + 1)) :=
        (BitVec.ofNat_add _ 1).symm
      refine (inspectRound_run PROGMEM _ _).trans ?_
      rw [haddr, hnext, Host.prints_prints, dump_succ]
      rfl

/-- The loop is left past the end, whatever that is. -/
theorem inspectLoop_run (x : Host b) {start end' : U16} (hle : start.toNat ≤ end'.toNat)
    {fuel : Nat} (hfuel : 0x10000 < fuel) :
    (Prog.whileDo (Shell.inspectTest end') Shell.inspectRound fuel (start.setWidth 32)).run
        (host PROGMEM) x =
      some (some (.ofNat 32 (end'.toNat + 1)),
        x.prints (dump PROGMEM x start.toNat (end'.toNat + 1 - start.toNat))) := by
  have htest : ∀ addr (y : Host b), (Shell.inspectTest end' addr).run (host PROGMEM) y =
      some (decide (InRange end' (addr, y)), y) := fun _ _ => rfl
  have hlt := end'.isLt
  have hrounds := inspect_rounds PROGMEM x start end' (k := end'.toNat + 1 - start.toNat) (by omega)
  rw [Nat.add_sub_cancel' (show start.toNat ≤ end'.toNat + 1 by omega)] at hrounds
  refine (Prog.whileDo_run_iff htest).mpr ⟨_, by omega, hrounds, fun hin => ?_⟩
  have hpast : BitVec.ofNat 32 (end'.toNat + 1) ≤ end'.setWidth 32 := hin
  bv_omega

/-! ## The command -/

/-- What it returns and prints. -/
def inspected (x : Host b) (start end' : Nat) : Int × List Output :=
  if start ≤ end' then
    (0, [.text s!"{hexText 4 start}:\t"] ++ dump PROGMEM x start (end' + 1 - start) ++
      [.text "\n"])
  else (-1, [Shell.invalidRange])

/-- A program image in which every byte is the low half of its address. -/
def countProgmem : Progmem := fun i => .ofNat 8 i.val

def countHost : Host ⟨false⟩ := ⟨olc6502Init, false, ⟨fun _ => 0⟩, []⟩

end M6502
