import M6502.Olc6502

/-!
# The status byte

`union Flags` is read as a byte and as eight one-bit fields. Here are the bits of the byte
(`Flags.getLsbD_value`), and what `PS.value |= v` does to the fields (`Flags.ofValue_or`):
it sets fields, and never clears one.
-/

set_option autoImplicit false

namespace M6502

/-- The fields, from bit 0 up. -/
def Flags.bits (f : Flags) : List Bool := [f.C, f.Z, f.I, f.D, f.B, f.U, f.V, f.N]

theorem Flags.getLsbD_value (f : Flags) (i : Nat) : f.value.getLsbD i = f.bits.getD i false :=
  BitVec.getLsbD_ofBoolListLE

theorem Flags.ofValue_value (f : Flags) : Flags.ofValue f.value = f := by
  unfold Flags.ofValue
  simp only [Flags.getLsbD_value]
  rfl

/-- The fields set in either. -/
def Flags.or (f g : Flags) : Flags where
  C := f.C || g.C
  Z := f.Z || g.Z
  I := f.I || g.I
  D := f.D || g.D
  B := f.B || g.B
  U := f.U || g.U
  V := f.V || g.V
  N := f.N || g.N

/-- `PS.value |= v` -/
theorem Flags.ofValue_or (f : Flags) (v : U8) :
    Flags.ofValue (f.value ||| v) = f.or (Flags.ofValue v) := by
  unfold Flags.ofValue
  simp only [BitVec.getLsbD_or, Flags.getLsbD_value]
  rfl

/-! ## Saved flags -/

/-- The flags a saved status byte is to restore. -/
def SameFlags (f g : Flags) : Prop :=
  f.N = g.N ∧ f.V = g.V ∧ f.D = g.D ∧ f.Z = g.Z ∧ f.C = g.C

/-- Of those flags, none is set in `after` that is clear in `before`. -/
def NoFlagGained (before after : Flags) : Prop :=
  (after.N = true → before.N = true) ∧ (after.V = true → before.V = true) ∧
    (after.D = true → before.D = true) ∧ (after.Z = true → before.Z = true) ∧
    (after.C = true → before.C = true)

theorem SameFlags.trans {f g h : Flags} (hfg : SameFlags f g) (hgh : SameFlags g h) :
    SameFlags f h := by
  obtain ⟨hN, hV, hD, hZ, hC⟩ := hgh
  unfold SameFlags
  rw [← hN, ← hV, ← hD, ← hZ, ← hC]
  exact hfg

theorem or_eq_right_iff (p q : Bool) : (p || q) = q ↔ (p = true → q = true) := by
  cases p <;> cases q <;> simp

/-- Pulled into `f` with an OR, the flags of `g` come back exactly if `f` has none that they
    lack. -/
theorem sameFlags_or_iff {f g : Flags} {v : U8} (h : SameFlags (.ofValue v) g) :
    SameFlags (.ofValue (f.value ||| v)) g ↔ NoFlagGained g f := by
  obtain ⟨hN, hV, hD, hZ, hC⟩ := h
  rw [Flags.ofValue_or]
  simp only [SameFlags, NoFlagGained, Flags.or, hN, hV, hD, hZ, hC, or_eq_right_iff]

/-- A mask that keeps the bits of those flags. -/
theorem sameFlags_mask {m : U8} (v : U8)
    (hm : m.getLsbD 7 = true ∧ m.getLsbD 6 = true ∧ m.getLsbD 3 = true ∧ m.getLsbD 1 = true ∧
      m.getLsbD 0 = true) :
    SameFlags (.ofValue (v &&& m)) (.ofValue v) := by
  obtain ⟨h7, h6, h3, h1, h0⟩ := hm
  simp [SameFlags, Flags.ofValue, h7, h6, h3, h1, h0]

/-- `PS.value | 0x30`, as it is pushed: the flags, with bits 4 and 5 set. -/
theorem sameFlags_or_0x30 (f : Flags) : SameFlags (.ofValue (f.value ||| 0x30)) f := by
  rw [Flags.ofValue_or]
  simp [SameFlags, Flags.or, Flags.ofValue]

/-- A test for one bit. -/
theorem and_twoPow_ne_zero {w : Nat} (v : BitVec w) (i : Nat) (hi : i < w) :
    (v &&& BitVec.twoPow w i != 0) = v.getLsbD i := by
  have hne : ¬ BitVec.twoPow w i = 0#w := fun h => by
    have hbit := congrArg (fun u => u.getLsbD i) h
    simp [hi] at hbit
  rw [BitVec.and_twoPow]
  cases v.getLsbD i <;> simp [hne]

/-- The test for the negative flag. -/
theorem and_0x80_ne_zero (v : U8) : (v &&& 0x80 != 0) = v.getLsbD 7 :=
  and_twoPow_ne_zero v 7 (by simp)

/-- Bit 2 of a byte, alone. -/
theorem and_four (v : U8) : v &&& 0x04 = if v.getLsbD 2 then 0x04 else 0x00 := by
  exact BitVec.and_twoPow v 2

/-- The test `PLP` makes compares the interrupt flags of two status bytes. -/
theorem xor_and_four_eq_zero_iff (v w : U8) :
    (v &&& 0x04) ^^^ (w &&& 0x04) = 0 ↔ v.getLsbD 2 = w.getLsbD 2 := by
  rw [and_four, and_four]
  cases v.getLsbD 2 <;> cases w.getLsbD 2 <;> decide

/-- Assigned to a one-bit field, the interrupt flag of a status byte is lost. -/
theorem bitField_and_four (v : U8) : bitField (v &&& 0x04) = false := by
  unfold bitField
  rw [BitVec.getLsbD_and]
  exact Bool.and_false _

end M6502
