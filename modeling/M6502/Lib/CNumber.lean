import M6502.Lib.CText

/-!
# Numbers in the C library

`atoi`, and `strtoul` where it takes the base from the prefix of the numeral. A number written
with digits to a base of at most 16 is read back to that base (`baseValue_map`), so `strtoul`
reads what is written in any of the three notations of C (`strtoul_numeral`).
-/

set_option autoImplicit false

namespace Lib

/-- The digits to the base `base` up to the first character that is none, after `n`. -/
def baseValue (base : Nat) : Nat → List Char → Nat
  | n, [] => n
  | n, c :: s =>
    match hexDigit? c with
    | none => n
    | some d => if d < base then baseValue base (base * n + d) s else n

/-- What a numeral says, its prefix being that of its base. -/
def numeralValue : List Char → Nat
  | '0' :: 'x' :: s | '0' :: 'X' :: s => baseValue 16 0 s
  | '0' :: s => baseValue 8 0 s
  | s => baseValue 10 0 s

/-- Whether there is a minus sign, and what follows the sign. -/
def dropSign : List Char → Bool × List Char
  | '-' :: s => (true, s)
  | '+' :: s => (false, s)
  | s => (false, s)

/-- `strtoul(s, NULL, 0)` for an `unsigned long` of `bits` bits. -/
def strtoul (bits : Nat) (s : List Char) : Nat :=
  let (minus, s) := dropSign (s.dropWhile isSpace)
  let n := numeralValue s
  if 2 ^ bits ≤ n then 2 ^ bits - 1
  else if minus then (2 ^ bits - n) % 2 ^ bits
  else n

/-- `atoi(s)` for an `int` of `bits` bits: a number that is not one is undefined. -/
def atoi (bits : Nat) (s : List Char) : Option Int :=
  let (minus, s) := dropSign (s.dropWhile isSpace)
  let n : Int := if minus then -baseValue 10 0 s else baseValue 10 0 s
  if -2 ^ (bits - 1) ≤ n ∧ n < 2 ^ (bits - 1) then some n else none

/-! ## Numerals -/

/-- The notations of C. -/
inductive Radix
  | hexadecimal
  | octal
  | decimal
deriving DecidableEq

namespace Radix

def base : Radix → Nat
  | hexadecimal => 16
  | octal => 8
  | decimal => 10

def marker : Radix → List Char
  | hexadecimal => ['0', 'x']
  | octal => ['0']
  | decimal => []

theorem base_spec (r : Radix) : 1 < r.base ∧ r.base ≤ 16 := by cases r <;> decide

end Radix

/-- The digits of `n`, as few as there can be. -/
def digitText (base n : Nat) : List Char :=
  if n = 0 then ['0'] else (Nat.digits base n).reverse.map hexUpper

/-- `n`, written in a notation. -/
def numeral (r : Radix) (n : Nat) : List Char := r.marker ++ digitText r.base n

/-- The number written with the digits `ds`. -/
theorem baseValue_map {base : Nat} (hbase : base ≤ 16) {ds : List Nat} (h : ∀ d ∈ ds, d < base)
    (n : Nat) :
    baseValue base n (ds.map hexUpper) = base ^ ds.length * n + Nat.ofDigits base ds.reverse := by
  induction ds generalizing n with
  | nil => simp [baseValue]
  | cons d ds ih =>
    obtain ⟨hd, hds⟩ := List.forall_mem_cons.mp h
    simp only [List.map_cons, baseValue, (hexUpper_spec d (by omega)).1, if_pos hd, ih hds,
      List.reverse_cons, Nat.ofDigits_append, Nat.ofDigits_singleton, List.length_reverse,
      List.length_cons]
    ring

section Digits

variable {base : Nat} (hone : 1 < base) (hbase : base ≤ 16)
include hone hbase

theorem baseValue_digitText (n : Nat) : baseValue base 0 (digitText base n) = n := by
  unfold digitText
  split
  next h =>
    subst h
    show (if 0 < base then base * 0 + 0 else 0) = 0
    simp
  next =>
    have hlt : ∀ d ∈ (Nat.digits base n).reverse, d < base :=
      fun d hd => Nat.digits_lt_base hone (List.mem_reverse.mp hd)
    rw [baseValue_map hbase hlt, Nat.mul_zero, Nat.zero_add, List.reverse_reverse,
      Nat.ofDigits_digits]

/-- The first digit is one, and zero only where it is the only one. -/
theorem digitText_head (n : Nat) :
    ∃ d s, digitText base n = hexUpper d :: s ∧ d < 16 ∧ (d = 0 → n = 0 ∧ s = []) := by
  unfold digitText
  split
  next h => exact ⟨0, [], rfl, by decide, fun _ => ⟨h, rfl⟩⟩
  next h =>
    have hne : Nat.digits base n ≠ [] := mt Nat.digits_eq_nil_iff_eq_zero.mp h
    refine ⟨(Nat.digits base n).getLast hne, (Nat.digits base n).dropLast.reverse.map hexUpper,
      ?_, ?_, fun hzero => absurd hzero (Nat.getLast_digit_ne_zero base h)⟩
    · conv_lhs => rw [← List.dropLast_append_getLast hne]
      rw [List.reverse_append, List.reverse_singleton, List.singleton_append, List.map_cons]
    · have := Nat.digits_lt_base hone (List.getLast_mem hne)
      omega

end Digits

theorem hexUpper_ne_zero : ∀ d < 16, d ≠ 0 → hexUpper d ≠ '0' := by decide

/-- **A numeral is read in its notation.** -/
theorem numeralValue_numeral (r : Radix) (n : Nat) : numeralValue (numeral r n) = n := by
  obtain ⟨hone, hbase⟩ := r.base_spec
  have hvalue := baseValue_digitText hone hbase n
  obtain ⟨d, s, htext, hd, hzero⟩ := digitText_head hone hbase n
  unfold numeral
  cases r with
  | hexadecimal => exact hvalue
  | octal =>
    have hx := (hexUpper_spec d hd).2.2
    simp only [List.mem_cons, List.not_mem_nil, or_false, not_or] at hx
    obtain ⟨-, -, hx, hX, -⟩ := hx
    rw [htext] at hvalue ⊢
    unfold numeralValue
    split
    next h => exact absurd (List.cons.inj (List.cons.inj h).2).1 hx
    next h => exact absurd (List.cons.inj (List.cons.inj h).2).1 hX
    next h => rwa [← (List.cons.inj h).2]
    next h => exact absurd rfl (h _)
  | decimal =>
    rw [htext] at hvalue ⊢
    show numeralValue (hexUpper d :: s) = n
    by_cases h0 : d = 0
    · obtain ⟨rfl, rfl⟩ := hzero h0
      subst h0
      rfl
    have hne := hexUpper_ne_zero d hd h0
    unfold numeralValue
    split
    next h => exact absurd (List.cons.inj h).1 hne
    next h => exact absurd (List.cons.inj h).1 hne
    next h => exact absurd (List.cons.inj h).1 hne
    next => exact hvalue

section Strtoul

variable {bits n : Nat} (h : n < 2 ^ bits)
include h

/-- Where no blank and no sign comes first. -/
theorem strtoul_of_head {c : Char} {s : List Char} (hc : isSpace c = false) (hminus : c ≠ '-')
    (hplus : c ≠ '+') (hvalue : numeralValue (c :: s) = n) : strtoul bits (c :: s) = n := by
  have hsign : dropSign (c :: s) = (false, c :: s) := by
    unfold dropSign
    split
    next h => exact absurd (List.cons.inj h).1 hminus
    next h => exact absurd (List.cons.inj h).1 hplus
    next => rfl
  unfold strtoul
  rw [List.dropWhile_cons_of_neg (by simp [hc]), hsign]
  show (if 2 ^ bits ≤ numeralValue (c :: s) then _ else _) = n
  rw [hvalue, if_neg (Nat.not_le.mpr h)]
  rfl

/-- **`strtoul` reads a number back**, in any notation. -/
theorem strtoul_numeral (r : Radix) : strtoul bits (numeral r n) = n := by
  have hvalue := numeralValue_numeral r n
  cases r with
  | hexadecimal => exact strtoul_of_head h (by decide) (by decide) (by decide) hvalue
  | octal => exact strtoul_of_head h (by decide) (by decide) (by decide) hvalue
  | decimal =>
    obtain ⟨d, s, htext, hd, -⟩ := digitText_head (show 1 < 10 by decide) (by decide) n
    obtain ⟨-, hspace, hsign⟩ := hexUpper_spec d hd
    simp only [List.mem_cons, List.not_mem_nil, or_false, not_or] at hsign
    rw [show numeral .decimal n = hexUpper d :: s from htext] at hvalue ⊢
    exact strtoul_of_head h hspace hsign.1 hsign.2.1 hvalue

/-- What `0x%0wX` prints is read back. -/
theorem strtoul_printX {w : Nat} (hw : n < 16 ^ w) :
    strtoul bits ('0' :: 'x' :: printX w n) = n := by
  obtain ⟨ds, hprint, -, hds, hvalue⟩ := printX_spec hw
  refine strtoul_of_head h (by decide) (by decide) (by decide) ?_
  show baseValue 16 0 (printX w n) = n
  rw [hprint, baseValue_map (by decide) hds, hvalue, Nat.mul_zero, Nat.zero_add]

/-- The ways to write `n`: the numerals, and what `0x%0wX` prints. -/
inductive Writes (n : Nat) : List Char → Prop
  | numeral (r : Radix) : Writes n (numeral r n)
  | printX {w : Nat} (hw : n < 16 ^ w) : Writes n ('0' :: 'x' :: printX w n)

theorem strtoul_writes {s : List Char} (hs : Writes n s) : strtoul bits s = n := by
  cases hs with
  | numeral r => exact strtoul_numeral h r
  | printX hw => exact strtoul_printX h hw

end Strtoul

end Lib
