import Mathlib.Logic.Relation

/-!
# Runs of a partial step function

`iter f k x` is the state after `k` steps of `f` from `x`, where every one of them was
defined. `whileSteps` is a loop with a guard, run for a bounded number of rounds; its
states are those of `iter` on the guarded step.
-/

set_option autoImplicit false

namespace Lib

variable {σ τ : Type}

def iter (f : σ → Option σ) : Nat → σ → Option σ
  | 0, x => some x
  | k + 1, x => (f x).bind (iter f k)

@[simp] theorem iter_zero (f : σ → Option σ) (x : σ) : iter f 0 x = some x := rfl

theorem iter_succ (f : σ → Option σ) (k : Nat) (x : σ) :
    iter f (k + 1) x = (f x).bind (iter f k) := rfl

theorem iter_add (f : σ → Option σ) :
    ∀ (j k : Nat) (x : σ), iter f (j + k) x = (iter f j x).bind (iter f k)
  | 0, k, x => by rw [Nat.zero_add, iter_zero, Option.bind_some]
  | j + 1, k, x => by
    rw [Nat.add_right_comm, iter_succ, iter_succ, Option.bind_assoc]
    exact congrArg _ (funext fun y => iter_add f j k y)

/-- The last step split off. -/
theorem iter_succ_last (f : σ → Option σ) (k : Nat) (x : σ) :
    iter f (k + 1) x = (iter f k x).bind f := by
  rw [iter_add]
  exact congrArg _ (funext fun y => Option.bind_fun_some (f y))

theorem iter_succ_last_iff {f : σ → Option σ} {k : Nat} {x y : σ} :
    iter f (k + 1) x = some y ↔ ∃ z, iter f k x = some z ∧ f z = some y := by
  rw [iter_succ_last]
  exact Option.bind_eq_some_iff

/-- What the start has and every step keeps, every state of a run has. -/
theorem iter_invariant {f : σ → Option σ} {I : σ → Prop}
    (hstep : ∀ x y, I x → f x = some y → I y) :
    ∀ {k : Nat} {x y : σ}, I x → iter f k x = some y → I y
  | 0, _, _, hx, h => Option.some.inj h ▸ hx
  | k + 1, x, y, hx, h => by
    obtain ⟨z, hz, hy⟩ := Option.bind_eq_some_iff.mp h
    exact iter_invariant hstep (hstep x z hx hz) hy

/-- Every state on the way to `y` has a run of its own to `y`. -/
theorem iter_split {f : σ → Option σ} {j k : Nat} {x y z : σ} (hjk : j ≤ k)
    (hj : iter f j x = some z) (hk : iter f k x = some y) : iter f (k - j) z = some y := by
  have hsum : k = j + (k - j) := by omega
  rw [hsum, iter_add, hj, Option.bind_some] at hk
  exact hk

/-! ## Guarded loops -/

/-- One round of the loop: no step where the guard fails. -/
def guarded (c : σ → Prop) [DecidablePred c] (f : σ → Option σ) (x : σ) : Option σ :=
  if c x then f x else none

/-- The loop, for at most `n` rounds. -/
def whileSteps (c : σ → Prop) [DecidablePred c] (f : σ → Option σ) : Nat → σ → Option σ
  | 0, x => some x
  | n + 1, x => if c x then (f x).bind (whileSteps c f n) else some x

section While

variable {c : σ → Prop} [DecidablePred c] {f : σ → Option σ}

theorem guarded_eq_some_iff {x y : σ} : guarded c f x = some y ↔ c x ∧ f x = some y := by
  unfold guarded
  split
  · rename_i h
    exact (and_iff_right h).symm
  · rename_i h
    exact ⟨fun he => absurd he (by simp), fun he => absurd he.1 h⟩

/-- Nothing runs on from a state that fails the guard. -/
theorem iter_guarded_stop {k : Nat} {x y : σ} (hx : ¬ c x) (h : iter (guarded c f) k x = some y) :
    k = 0 ∧ y = x := by
  cases k with
  | zero => exact ⟨rfl, (Option.some.inj h).symm⟩
  | succ k =>
    obtain ⟨z, hz, -⟩ := Option.bind_eq_some_iff.mp h
    exact absurd (guarded_eq_some_iff.mp hz).1 hx

/-- The loop ends in the first state that fails the guard, unless the rounds run out. -/
theorem whileSteps_eq_some_iff : ∀ {n : Nat} {x y : σ},
    whileSteps c f n x = some y ↔ ∃ k ≤ n, iter (guarded c f) k x = some y ∧ (c y → k = n)
  | 0, x, y => by
    constructor
    · intro h
      exact ⟨0, Nat.le_refl _, h, fun _ => rfl⟩
    · rintro ⟨k, hk, h, -⟩
      obtain rfl := Nat.le_zero.mp hk
      exact h
  | n + 1, x, y => by
    unfold whileSteps
    by_cases hc : c x
    · rw [if_pos hc]
      constructor
      · intro h
        obtain ⟨z, hz, hy⟩ := Option.bind_eq_some_iff.mp h
        obtain ⟨k, hk, hit, hend⟩ := whileSteps_eq_some_iff.mp hy
        refine ⟨k + 1, by omega, ?_, fun hcy => by rw [hend hcy]⟩
        rw [iter_succ, guarded_eq_some_iff.mpr ⟨hc, hz⟩, Option.bind_some]
        exact hit
      · rintro ⟨k, hk, hit, hend⟩
        cases k with
        | zero =>
          obtain rfl := Option.some.inj hit
          exact absurd (hend hc) (by omega)
        | succ k =>
          obtain ⟨z, hz, hy⟩ := Option.bind_eq_some_iff.mp hit
          rw [(guarded_eq_some_iff.mp hz).2, Option.bind_some]
          exact whileSteps_eq_some_iff.mpr ⟨k, by omega, hy, fun hcy => by
            have := hend hcy
            omega⟩
    · rw [if_neg hc]
      constructor
      · intro h
        obtain rfl := Option.some.inj h
        exact ⟨0, by omega, rfl, fun hcx => absurd hcx hc⟩
      · rintro ⟨k, hk, hit, -⟩
        rw [(iter_guarded_stop hc hit).2]

end While

end Lib
