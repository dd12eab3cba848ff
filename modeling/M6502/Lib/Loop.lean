import M6502.Lib.Prog
import M6502.Lib.Run

/-!
# Loops in programs

A `while` loop whose condition and body talk to the environment, for a bounded number of
tests of the condition. Against a handler it is a run of the body on the pair of the loop's
variables and the handler's state (`whileDo_run_iff`), so what holds of a loop can be proved
about `iter`.

`MadeOf` reads a program, loops included, as a transition system sees it: as steps of the
environment's state. An invariant of the steps is then one of every program made of them.
-/

set_option autoImplicit false

namespace Lib.Prog

variable {S : Sig} {τ σ : Type}

/-- `while (c) body`, on the variables `t`; `none` where the condition still holds after `n`
    tests. -/
def whileDo (c : τ → Prog S Bool) (body : τ → Prog S τ) : Nat → τ → Prog S (Option τ)
  | 0, _ => .ret none
  | n + 1, t => (c t).bind fun b =>
    if b then (body t).bind (whileDo c body n) else .ret (some t)

/-- The body on the machine. -/
def bodyStep (h : Handler S σ) (body : τ → Prog S τ) (p : τ × σ) : Option (τ × σ) :=
  (body p.1).run h p.2

section Run

variable {h : Handler S σ} {c : τ → Prog S Bool} {body : τ → Prog S τ} {C : τ × σ → Prop}
  [DecidablePred C]

theorem whileDo_run_iff (hc : ∀ t s, (c t).run h s = some (decide (C (t, s)), s)) {n : Nat}
    {t t' : τ} {s s' : σ} :
    (whileDo c body n t).run h s = some (some t', s') ↔
      ∃ k < n, iter (guarded C (bodyStep h body)) k (t, s) = some (t', s') ∧ ¬ C (t', s') := by
  induction n generalizing t s with
  | zero =>
    constructor
    · intro he
      cases he
    · rintro ⟨k, hk, -⟩
      exact absurd hk (Nat.not_lt_zero k)
  | succ n ih =>
    rw [whileDo, run_bind, hc, Option.bind_some]
    by_cases hC : C (t, s)
    · rw [decide_eq_true hC, if_pos rfl, run_bind]
      constructor
      · intro he
        obtain ⟨p, hp, hrest⟩ := Option.bind_eq_some_iff.mp he
        obtain ⟨k, hk, hit, hstop⟩ := ih.mp hrest
        refine ⟨k + 1, Nat.succ_lt_succ hk, ?_, hstop⟩
        rw [iter_succ, guarded_eq_some_iff.mpr ⟨hC, hp⟩]
        exact hit
      · rintro ⟨k, hk, hit, hstop⟩
        cases k with
        | zero =>
          obtain ⟨rfl, rfl⟩ := Prod.mk.inj (Option.some.inj hit)
          exact absurd hC hstop
        | succ k =>
          obtain ⟨p, hp, hrest⟩ := Option.bind_eq_some_iff.mp hit
          have hbody : (body t).run h s = some p := (guarded_eq_some_iff.mp hp).2
          rw [hbody, Option.bind_some]
          exact ih.mpr ⟨k, Nat.lt_of_succ_lt_succ hk, hrest, hstop⟩
    · rw [decide_eq_false hC, if_neg Bool.false_ne_true]
      constructor
      · intro he
        obtain ⟨ht, rfl⟩ := Prod.mk.inj (Option.some.inj he)
        obtain rfl := Option.some.inj ht
        exact ⟨0, Nat.succ_pos n, rfl, hC⟩
      · rintro ⟨k, -, hit, -⟩
        obtain ⟨-, hend⟩ := iter_guarded_stop hC hit
        obtain ⟨rfl, rfl⟩ := Prod.mk.inj hend
        rfl

end Run

/-! ## What a program is made of -/

/-- Every run of the program takes the state through steps of `T`. -/
def MadeOf {α : Type} (h : Handler S σ) (T : σ → σ → Prop) (p : Prog S α) : Prop :=
  ∀ s a s', p.run h s = some (a, s') → Relation.ReflTransGen T s s'

section MadeOf

variable {α β : Type} {h : Handler S σ} {T : σ → σ → Prop}

theorem MadeOf.ret (a : α) : MadeOf h T (pure a) := by
  intro s a' s' hr
  obtain ⟨-, rfl⟩ := Prod.mk.inj (Option.some.inj hr)
  exact .refl

theorem MadeOf.bind {p : Prog S α} {f : α → Prog S β} (hp : MadeOf h T p)
    (hf : ∀ a, MadeOf h T (f a)) : MadeOf h T (p >>= f) := by
  intro s a s' hr
  have hbind : (p.bind f).run h s = some (a, s') := hr
  rw [run_bind] at hbind
  obtain ⟨x, hx, hrest⟩ := Option.bind_eq_some_iff.mp hbind
  exact (hp s x.1 x.2 hx).trans (hf x.1 x.2 a s' hrest)

theorem MadeOf.whileDo {c : τ → Prog S Bool} {body : τ → Prog S τ} (hc : ∀ t, MadeOf h T (c t))
    (hbody : ∀ t, MadeOf h T (body t)) (n : Nat) (t : τ) : MadeOf h T (whileDo c body n t) := by
  induction n generalizing t with
  | zero => exact .ret none
  | succ n ih =>
    refine (hc t).bind fun b => ?_
    cases b with
    | false => exact .ret (some t)
    | true => exact (hbody t).bind ih

end MadeOf

end Lib.Prog
