import M6502.Lib.Run

/-!
# Total correctness over a step relation

`Leads R k x Q` is a triple for `k` steps: from `x` there is a run of `k` steps, and every
such run ends in `Q`. The rules are those of a program logic: `Leads.step` and `Leads.seq`
compose, and `Leads.loop` is the rule of a counted loop, its invariant indexed by the rounds
that are done. `Arrives` is the triple for code with branches, whose runs differ in length,
and `Leads.forever` the rule of a loop that is never left.

`Simulates` is a forward simulation along a map of the states. What is proved of the runs of
the simulated relation holds of those of the other (`Simulates.leads`, `Simulates.arrives`).
-/

set_option autoImplicit false

namespace Lib

variable {σ : Type} {R : σ → σ → Prop}

/-- `y` follows `x` by `k` steps of `R`. -/
def Steps (R : σ → σ → Prop) : Nat → σ → σ → Prop
  | 0, x, y => y = x
  | k + 1, x, y => ∃ z, R x z ∧ Steps R k z y

theorem steps_add : ∀ {j k : Nat} {x z : σ},
    Steps R (j + k) x z ↔ ∃ y, Steps R j x y ∧ Steps R k y z
  | 0, k, x, z => by
    rw [Nat.zero_add]
    exact ⟨fun h => ⟨x, rfl, h⟩, fun ⟨y, hy, h⟩ => hy ▸ h⟩
  | j + 1, k, x, z => by
    rw [Nat.add_right_comm]
    constructor
    · rintro ⟨w, hw, h⟩
      obtain ⟨y, hy, hz⟩ := steps_add.mp h
      exact ⟨y, ⟨w, hw, hy⟩, hz⟩
    · rintro ⟨y, ⟨w, hw, hy⟩, hz⟩
      exact ⟨w, hw, steps_add.mpr ⟨y, hy, hz⟩⟩

/-- From `x`, `k` steps can be taken, and they end in `Q`. -/
structure Leads (R : σ → σ → Prop) (k : Nat) (x : σ) (Q : σ → Prop) : Prop where
  runs : ∃ y, Steps R k x y
  ends : ∀ y, Steps R k x y → Q y

variable {k : Nat} {x : σ} {Q : σ → Prop}

theorem Leads.mono {P : σ → Prop} (h : Leads R k x P) (hPQ : ∀ y, P y → Q y) : Leads R k x Q :=
  ⟨h.runs, fun y hy => hPQ y (h.ends y hy)⟩

theorem Leads.done (h : Q x) : Leads R 0 x Q := ⟨⟨x, rfl⟩, fun _ hy => hy ▸ h⟩

theorem Leads.step (hx : ∃ y, R x y) (h : ∀ y, R x y → Leads R k y Q) : Leads R (k + 1) x Q := by
  constructor
  · obtain ⟨y, hy⟩ := hx
    obtain ⟨z, hz⟩ := (h y hy).runs
    exact ⟨z, y, hy, hz⟩
  · rintro z ⟨y, hy, hz⟩
    exact (h y hy).ends z hz

theorem Leads.seq {j : Nat} {P : σ → Prop} (h : Leads R j x P)
    (h' : ∀ y, P y → Leads R k y Q) : Leads R (j + k) x Q := by
  constructor
  · obtain ⟨y, hy⟩ := h.runs
    obtain ⟨z, hz⟩ := (h' y (h.ends y hy)).runs
    exact ⟨z, steps_add.mpr ⟨y, hy, hz⟩⟩
  · intro z hz
    obtain ⟨y, hy, hyz⟩ := steps_add.mp hz
    exact (h' y (h.ends y hy)).ends z hyz

/-- **A counted loop**: a body of `m` steps that takes the invariant from one round to the
    next takes it from the first to the last. -/
theorem Leads.loop {m n : Nat} {I : Nat → σ → Prop}
    (hbody : ∀ i < n, ∀ y, I i y → Leads R m y (I (i + 1))) (h0 : I 0 x) :
    Leads R (m * n) x (I n) := by
  induction n with
  | zero => exact .done h0
  | succ n ih =>
    have hn := ih fun i hi => hbody i (Nat.lt_succ_of_lt hi)
    exact hn.seq (hbody n (Nat.lt_succ_self n))

/-- Over the graph of a step function, steps are its iteration. -/
theorem steps_iff_iter {f : σ → Option σ} {k : Nat} {x y : σ} :
    Steps (fun x y => f x = some y) k x y ↔ iter f k x = some y := by
  induction k generalizing x with
  | zero => exact ⟨fun h => congrArg some h.symm, fun h => (Option.some.inj h).symm⟩
  | succ k ih =>
    rw [iter_succ, Option.bind_eq_some_iff]
    exact exists_congr fun z => and_congr Iff.rfl ih

/-! ## Runs of any length -/

/-- Every run from a state comes to `Q`, and none gets stuck before. -/
inductive Arrives (R : σ → σ → Prop) (Q : σ → Prop) : σ → Prop
  | done {x : σ} (h : Q x) : Arrives R Q x
  | step {x : σ} (hx : ∃ y, R x y) (h : ∀ y, R x y → Arrives R Q y) : Arrives R Q x

theorem Arrives.seq {P : σ → Prop} (h : Arrives R P x) (h' : ∀ y, P y → Arrives R Q y) :
    Arrives R Q x := by
  induction h with
  | done h => exact h' _ h
  | step hx _ ih => exact .step hx ih

theorem Arrives.mono {P : σ → Prop} (h : Arrives R P x) (hPQ : ∀ y, P y → Q y) : Arrives R Q x :=
  h.seq fun y hy => .done (hPQ y hy)

/-- A run that is not there yet has a step to take. -/
theorem Arrives.next (h : Arrives R Q x) (hx : ¬ Q x) :
    (∃ y, R x y) ∧ ∀ y, R x y → Arrives R Q y := by
  cases h with
  | done h => exact absurd h hx
  | step hx h => exact ⟨hx, h⟩

/-- **Divergence**: where the runs from the states of `I` come back to `I`, after a step at
    least and through states of `P` only, there are runs of every length, through `P`. -/
theorem Leads.forever {P I : σ → Prop}
    (hI : ∀ x, I x → (∃ y, P x ∧ R x y) ∧
      ∀ y, P x ∧ R x y → Arrives (fun x y => P x ∧ R x y) I y)
    (h : Arrives (fun x y => P x ∧ R x y) I x) (k : Nat) : Leads R k x P := by
  have hnext : ∀ x, Arrives (fun x y => P x ∧ R x y) I x → (∃ y, P x ∧ R x y) ∧
      ∀ y, P x ∧ R x y → Arrives (fun x y => P x ∧ R x y) I y := by
    intro x h
    by_cases hx : I x
    · exact hI x hx
    · exact h.next hx
  induction k generalizing x with
  | zero =>
    obtain ⟨⟨y, hP, -⟩, -⟩ := hnext x h
    exact .done hP
  | succ k ih =>
    obtain ⟨⟨y, hP, hy⟩, hall⟩ := hnext x h
    exact .step ⟨y, hy⟩ fun z hz => ih (hall z ⟨hP, hz⟩)

/-! ## Simulation -/

section Sim

variable {τ : Type} {T : τ → τ → Prop} {φ : σ → τ}

/-- Every step of `T` from the image of a state can be taken by `R`, and only to its image. -/
def Simulates (R : σ → σ → Prop) (T : τ → τ → Prop) (φ : σ → τ) : Prop :=
  ∀ x t, T (φ x) t → (∃ y, R x y) ∧ ∀ y, R x y → φ y = t

/-- **Forward simulation**: a run of `T` from the image of a state is one of `R`. -/
theorem Simulates.leads (hsim : Simulates R T φ) {t : τ} (h : Steps T k (φ x) t) :
    Leads R k x fun y => φ y = t := by
  induction k generalizing x with
  | zero => exact .done h.symm
  | succ k ih =>
    obtain ⟨u, hu, hrest⟩ := h
    obtain ⟨hsome, hall⟩ := hsim x u hu
    exact .step hsome fun y hy => ih (hall y hy ▸ hrest)

theorem Simulates.arrives (hsim : Simulates R T φ) {P : τ → Prop} (h : Arrives T P (φ x)) :
    Arrives R (fun y => P (φ y)) x := by
  generalize ht : φ x = t at h
  induction h generalizing x with
  | done h => exact .done (ht ▸ h)
  | step hx _ ih =>
    subst ht
    obtain ⟨u, hu⟩ := hx
    obtain ⟨hsome, hall⟩ := hsim x u hu
    exact .step hsome fun y hy => ih u hu (hall y hy)

end Sim

end Lib
