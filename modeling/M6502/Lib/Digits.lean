import Mathlib.Data.Nat.Digits.Defs
import Mathlib.Tactic.Linarith
import Mathlib.Tactic.Ring

/-!
# Little-endian numbers and carry chains

`value β f n` is the number whose `n` digits to base `β`, lowest first, are `f 0`, …,
`f (n - 1)`. A digit-by-digit computation hands a carry from one digit to the next, and
`value_chain` adds up what it does to the digits: whatever the digits are, the carry into
the lowest and the carry out of the highest are all that is left over.

Read in two's complement, whether a sum is in range is decided by the highest digits and the
carry into them (`signed_sum_iff`).
-/

set_option autoImplicit false

namespace Lib

/-- The number with `n` digits `f`, lowest first. -/
def value (β : Nat) (f : Nat → Nat) (n : Nat) : Nat := Nat.ofDigits β ((List.range n).map f)

variable {β : Nat} {f g t : Nat → Nat} {n : Nat}

@[simp] theorem value_zero (β : Nat) (f : Nat → Nat) : value β f 0 = 0 := rfl

theorem value_succ (β : Nat) (f : Nat → Nat) (n : Nat) :
    value β f (n + 1) = value β f n + β ^ n * f n := by
  simp [value, List.range_succ, Nat.ofDigits_append]

theorem value_congr (h : ∀ i < n, f i = g i) : value β f n = value β g n := by
  unfold value
  rw [List.map_congr_left fun i hi => h i (List.mem_range.mp hi)]

theorem value_lt (hβ : 1 < β) (h : ∀ i < n, f i < β) : value β f n < β ^ n := by
  have hlt := Nat.ofDigits_lt_base_pow_length (b := β) (l := (List.range n).map f) hβ (by simpa)
  rwa [List.length_map, List.length_range] at hlt

theorem value_add (β : Nat) (f g : Nat → Nat) (n : Nat) :
    value β (fun i => f i + g i) n = value β f n + value β g n := by
  unfold value
  rw [Nat.ofDigits_add_ofDigits_eq_ofDigits_zipWith_of_length_eq (by simp), List.zipWith_map,
    List.zipWith_self]

theorem value_mul (β k : Nat) (f : Nat → Nat) (n : Nat) :
    value β (fun i => k * f i) n = k * value β f n := by
  unfold value
  rw [Nat.mul_ofDigits, List.map_map]
  rfl

/-- **A carry chain.** If each digit and the carry out of it make up what comes in, so do the
    number and the last carry. -/
theorem value_chain {κ : Nat → Nat} (h : ∀ i < n, f i + β * κ (i + 1) = t i + κ i) :
    value β f n + β ^ n * κ n = value β t n + κ 0 := by
  induction n with
  | zero => simp
  | succ n ih =>
    have hlow := ih fun i hi => h i (Nat.lt_succ_of_lt hi)
    have hdigit := h n (Nat.lt_succ_self n)
    calc value β f (n + 1) + β ^ (n + 1) * κ (n + 1)
        = value β f n + β ^ n * (f n + β * κ (n + 1)) := by rw [value_succ, Nat.pow_succ]; ring
      _ = value β f n + β ^ n * κ n + β ^ n * t n := by rw [hdigit]; ring
      _ = value β t (n + 1) + κ 0 := by rw [hlow, value_succ]; ring

/-! ## The chain of an addition -/

/-- The carry into digit `i`, of digits `t` that are to be normalised. -/
def carry (β : Nat) (t : Nat → Nat) : Nat → Nat
  | 0 => 0
  | i + 1 => (t i + carry β t i) / β

/-- Digit `i`, normalised. -/
def digit (β : Nat) (t : Nat → Nat) (i : Nat) : Nat := (t i + carry β t i) % β

theorem digit_carry (β : Nat) (t : Nat → Nat) (i : Nat) :
    digit β t i + β * carry β t (i + 1) = t i + carry β t i := Nat.mod_add_div _ _

theorem value_digit (β : Nat) (t : Nat → Nat) (n : Nat) :
    value β (digit β t) n + β ^ n * carry β t n = value β t n :=
  value_chain fun i _ => digit_carry β t i

theorem digit_lt (hβ : 0 < β) (t : Nat → Nat) (i : Nat) : digit β t i < β := Nat.mod_lt _ hβ

/-- The number and the last carry, by division. -/
theorem value_digit_div (hβ : 1 < β) (t : Nat → Nat) (n : Nat) :
    value β (digit β t) n = value β t n % β ^ n ∧ carry β t n = value β t n / β ^ n := by
  have hsum := value_digit β t n
  have hlt : value β (digit β t) n < β ^ n := value_lt hβ fun i _ => digit_lt (by omega) t i
  rw [← hsum]
  constructor
  · rw [Nat.add_mul_mod_self_left, Nat.mod_eq_of_lt hlt]
  · rw [Nat.add_mul_div_left _ _ (Nat.pow_pos (by omega)), Nat.div_eq_of_lt hlt, Nat.zero_add]

/-! ## Two's complement -/

/-- The highest digit carries the sign. -/
theorem bmod_digit {B h low d : Nat} (hlow : low < B) (hd : d < 2 * h) :
    Int.bmod (low + B * d) (B * (2 * h)) = low + B * Int.bmod d (2 * h) := by
  have hmul : ∀ e, e + 1 ≤ 2 * h → low + B * e < B * (2 * h) := by
    intro e he
    have := Nat.mul_le_mul_left B he
    rw [Nat.mul_add] at this
    omega
  have hhalf : (B * (2 * h) + 1) / 2 = B * h := by
    rw [Nat.mul_left_comm]
    omega
  have hmod : ((low : Int) + B * d) % (B * (2 * h) : Nat) = low + B * d := by
    have := hmul d hd
    exact Int.emod_eq_of_lt (by positivity) (by exact_mod_cast this)
  have hmod' : (d : Int) % (2 * h : Nat) = d :=
    Int.emod_eq_of_lt (by positivity) (by exact_mod_cast hd)
  unfold Int.bmod
  rw [hmod, hmod']
  by_cases hs : d < h
  · have hle := Nat.mul_le_mul_left B (Nat.succ_le_of_lt hs)
    rw [Nat.mul_succ] at hle
    rw [if_pos (by norm_cast; omega), if_pos (by norm_cast; omega)]
  · have hle := Nat.mul_le_mul_left B (Nat.le_of_not_lt hs)
    rw [if_neg (by norm_cast; omega), if_neg (by norm_cast; omega)]
    push_cast
    ring

/-- **A sum is in range exactly if** the sum of the highest digits and the carry into them
    is. -/
theorem signed_sum_iff {B h low₁ low₂ low d₁ d₂ k : Nat} (h₁ : low₁ < B) (h₂ : low₂ < B)
    (hlow : low < B) (hd₁ : d₁ < 2 * h) (hd₂ : d₂ < 2 * h) (hsum : low₁ + low₂ = low + B * k) :
    (-(B * h : Int) ≤ Int.bmod (low₁ + B * d₁) (B * (2 * h)) +
          Int.bmod (low₂ + B * d₂) (B * (2 * h)) ∧
        Int.bmod (low₁ + B * d₁) (B * (2 * h)) + Int.bmod (low₂ + B * d₂) (B * (2 * h)) <
          B * h) ↔
      -(h : Int) ≤ Int.bmod d₁ (2 * h) + Int.bmod d₂ (2 * h) + k ∧
        Int.bmod d₁ (2 * h) + Int.bmod d₂ (2 * h) + k < h := by
  rw [bmod_digit h₁ hd₁, bmod_digit h₂ hd₂]
  generalize Int.bmod d₁ (2 * h) = s₁
  generalize Int.bmod d₂ (2 * h) = s₂
  have hsum' : (low₁ : Int) + low₂ = low + B * k := by exact_mod_cast hsum
  have hlow' : (low : Int) < B := by exact_mod_cast hlow
  have hlow0 : (0 : Int) ≤ low := by positivity
  have htotal : (low₁ + B * s₁ + (low₂ + B * s₂) : Int) = low + B * (s₁ + s₂ + k) := by
    linarith [mul_add (B : Int) (s₁ + s₂) k, mul_add (B : Int) s₁ s₂]
  rw [htotal]
  generalize s₁ + s₂ + (k : Int) = u
  constructor
  · rintro ⟨hlo, hhi⟩
    constructor
    · by_contra hlt
      have := mul_le_mul_of_nonneg_left (show u + 1 ≤ -h by omega) (show (0 : Int) ≤ B by omega)
      rw [mul_add, mul_neg] at this
      linarith
    · by_contra hlt
      have := mul_le_mul_of_nonneg_left (show (h : Int) ≤ u by omega) (show (0 : Int) ≤ B by omega)
      linarith
  · rintro ⟨hlo, hhi⟩
    constructor
    · have := mul_le_mul_of_nonneg_left hlo (show (0 : Int) ≤ B by omega)
      rw [mul_neg] at this
      linarith
    · have := mul_le_mul_of_nonneg_left (show u + 1 ≤ h by omega) (show (0 : Int) ≤ B by omega)
      rw [mul_add] at this
      linarith

end Lib
