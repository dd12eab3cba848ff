import Mathlib.Logic.Function.Basic

/-!
# Programs over an operation signature

A component that talks to its environment through a fixed set of operations is a
decision tree: it either returns, or performs an operation and continues with the
answer. The tree is independent of what answers the operations, so one program can be

* run against a concrete handler, which may refuse an operation (`run`);
* judged against **every** environment at once, each answer being arbitrary (`All`).

`All.run` is the link between the two readings: what holds for every answer holds for
the answers a handler gives.
-/

set_option autoImplicit false

namespace Lib

/-- An operation signature: the operations, and the type each is answered at. -/
structure Sig where
  Op : Type
  Ans : Op → Type

/-- A program over `S` returning an `α`. -/
inductive Prog (S : Sig) (α : Type) where
  | ret (a : α)
  | call (op : S.Op) (k : S.Ans op → Prog S α)

namespace Prog

variable {S : Sig} {α β γ σ : Type}

def bind : Prog S α → (α → Prog S β) → Prog S β
  | .ret a, f => f a
  | .call op k, f => .call op fun r => (k r).bind f

instance : Monad (Prog S) where
  pure := .ret
  bind := .bind

@[simp] theorem call_bind (op : S.Op) (k : S.Ans op → Prog S α) (f : α → Prog S β) :
    (call op k).bind f = call op fun r => (k r).bind f := rfl

@[simp] theorem bind_ret : ∀ p : Prog S α, p.bind .ret = p
  | .ret _ => rfl
  | .call op k => congrArg (call op) (funext fun r => bind_ret (k r))

theorem bind_assoc (f : α → Prog S β) (g : β → Prog S γ) :
    ∀ p : Prog S α, (p.bind f).bind g = p.bind fun a => (f a).bind g
  | .ret _ => rfl
  | .call op k => congrArg (call op) (funext fun r => bind_assoc f g (k r))

instance : LawfulMonad (Prog S) :=
  LawfulMonad.mk' (Prog S) bind_ret (fun _ _ => rfl) fun p f g => bind_assoc f g p

/-! ## Every answer -/

/-- `Q` holds of the result whatever the operations are answered. -/
def All (Q : α → Prop) : Prog S α → Prop
  | .ret a => Q a
  | .call _ k => ∀ r, (k r).All Q

theorem All.mono {Q R : α → Prop} (h : ∀ a, Q a → R a) :
    ∀ {p : Prog S α}, p.All Q → p.All R
  | .ret a, hp => h a hp
  | .call _ _, hp => fun r => All.mono h (hp r)

theorem all_bind {Q : β → Prop} {f : α → Prog S β} :
    ∀ {p : Prog S α}, (p.bind f).All Q ↔ p.All fun a => (f a).All Q
  | .ret _ => Iff.rfl
  | .call _ _ => forall_congr' fun _ => all_bind

/-- Continuations that agree on every result the program can have. -/
theorem bind_congr {Q : α → Prop} {f g : α → Prog S β} :
    ∀ {p : Prog S α}, p.All Q → (∀ a, Q a → f a = g a) → p.bind f = p.bind g
  | .ret a, hp, hfg => hfg a hp
  | .call op _, hp, hfg => congrArg (call op) (funext fun r => bind_congr (hp r) hfg)

/-! ## Running against a handler -/

/-- A handler over a state `σ`; `none` is an operation it does not answer. -/
abbrev Handler (S : Sig) (σ : Type) := (op : S.Op) → σ → Option (S.Ans op × σ)

def run (h : Handler S σ) : Prog S α → σ → Option (α × σ)
  | .ret a, s => some (a, s)
  | .call op k, s => (h op s).bind fun x => (k x.1).run h x.2

theorem run_call (h : Handler S σ) (op : S.Op) (k : S.Ans op → Prog S α) (s : σ) :
    (call op k).run h s = (h op s).bind fun x => (k x.1).run h x.2 := rfl

theorem run_bind (h : Handler S σ) (f : α → Prog S β) :
    ∀ (p : Prog S α) (s : σ),
      (p.bind f).run h s = (p.run h s).bind fun x => (f x.1).run h x.2
  | .ret _, _ => rfl
  | .call op k, s => by
    rw [call_bind, run_call, run_call, Option.bind_assoc]
    exact congrArg _ (funext fun x => run_bind h f (k x.1) x.2)

/-- What holds for every answer holds for the answers a handler gives. -/
theorem All.run {Q : α → Prop} {h : Handler S σ} :
    ∀ {p : Prog S α} {s s' : σ} {a : α}, p.All Q → p.run h s = some (a, s') → Q a
  | .ret _, _, _, _, hp, hr => by
    obtain ⟨rfl, -⟩ := Prod.mk.inj (Option.some.inj hr)
    exact hp
  | .call op k, s, _, _, hp, hr => by
    obtain ⟨x, -, hk⟩ := Option.bind_eq_some_iff.mp hr
    exact All.run (hp x.1) hk

/-! ## Partial handlers, split into a value and a condition

A handler that refuses some operations is often a total one guarded by a condition. A run
then splits the same way: `eval` computes, and `Safe` collects the conditions met on the way. -/

/-- A handler that answers everything. -/
abbrev Total (S : Sig) (σ : Type) := (op : S.Op) → σ → S.Ans op × σ

def eval (t : Total S σ) : Prog S α → σ → α × σ
  | .ret a, s => (a, s)
  | .call op k, s => (k (t op s).1).eval t (t op s).2

/-- Every operation on the way satisfies `D` in the state it is performed in. -/
def Safe (D : S.Op → σ → Prop) (t : Total S σ) : Prog S α → σ → Prop
  | .ret _, _ => True
  | .call op k, s => D op s ∧ (k (t op s).1).Safe D t (t op s).2

instance Safe.decidable {D : S.Op → σ → Prop} [∀ op s, Decidable (D op s)] {t : Total S σ} :
    ∀ (p : Prog S α) (s : σ), Decidable (p.Safe D t s)
  | .ret _, _ => .isTrue trivial
  | .call op k, s =>
    haveI := Safe.decidable (D := D) (t := t) (k (t op s).1) (t op s).2
    inferInstanceAs (Decidable (_ ∧ _))

section Guarded

variable {h : Handler S σ} {D : S.Op → σ → Prop} [∀ op s, Decidable (D op s)] {t : Total S σ}

theorem run_of_safe (hh : ∀ op s, h op s = if D op s then some (t op s) else none) :
    ∀ {p : Prog S α} {s : σ}, p.Safe D t s → p.run h s = some (p.eval t s)
  | .ret _, _, _ => rfl
  | .call op k, s, hs => by
    rw [run_call, hh, if_pos hs.1]
    exact run_of_safe hh hs.2

theorem safe_of_run (hh : ∀ op s, h op s = if D op s then some (t op s) else none) :
    ∀ {p : Prog S α} {s : σ} {r : α × σ}, p.run h s = some r → p.Safe D t s
  | .ret _, _, _, _ => trivial
  | .call op k, s, r, hr => by
    rw [run_call, hh] at hr
    by_cases hd : D op s
    · rw [if_pos hd] at hr
      exact ⟨hd, safe_of_run hh hr⟩
    · rw [if_neg hd] at hr
      exact absurd hr (by simp)

/-- A run against a guarded handler succeeds exactly where it is safe, with `eval`'s result. -/
theorem run_eq_some_iff (hh : ∀ op s, h op s = if D op s then some (t op s) else none)
    {p : Prog S α} {s : σ} {r : α × σ} :
    p.run h s = some r ↔ p.Safe D t s ∧ p.eval t s = r := by
  constructor
  · intro hr
    have hs := safe_of_run hh hr
    rw [run_of_safe hh hs] at hr
    exact ⟨hs, Option.some.inj hr⟩
  · rintro ⟨hs, rfl⟩
    exact run_of_safe hh hs

end Guarded

/-- The operations performed, each with the state it is performed in. -/
def trace (t : Total S σ) : Prog S α → σ → List (S.Op × σ)
  | .ret _, _ => []
  | .call op k, s => (op, s) :: (k (t op s).1).trace t (t op s).2

theorem safe_iff_trace {D : S.Op → σ → Prop} {t : Total S σ} : ∀ {p : Prog S α} {s : σ},
    p.Safe D t s ↔ ∀ o ∈ p.trace t s, D o.1 o.2
  | .ret _, _ => by
    constructor
    · intro _ o ho
      cases ho
    · intro _
      trivial
  | .call op k, s => by
    show D op s ∧ (k _).Safe D t _ ↔ ∀ o ∈ (op, s) :: (k _).trace t _, D o.1 o.2
    rw [safe_iff_trace, List.forall_mem_cons]

/-! ## Lockstep -/

/-- The two programs perform the same operations, whatever the answers, and return related
    results. -/
inductive Rel (R : α → β → Prop) : Prog S α → Prog S β → Prop
  | ret {a : α} {b : β} (h : R a b) : Rel R (.ret a) (.ret b)
  | call {op : S.Op} {k : S.Ans op → Prog S α} {k' : S.Ans op → Prog S β}
      (h : ∀ r, Rel R (k r) (k' r)) : Rel R (.call op k) (.call op k')

theorem Rel.eval {R : α → β → Prop} {t : Total S σ} {p : Prog S α} {q : Prog S β}
    (h : Rel R p q) (s : σ) :
    R (p.eval t s).1 (q.eval t s).1 ∧ (p.eval t s).2 = (q.eval t s).2 := by
  induction h generalizing s with
  | ret h => exact ⟨h, rfl⟩
  | call _ ih => exact ih _ _

theorem Rel.safe {R : α → β → Prop} {D : S.Op → σ → Prop} {t : Total S σ} {p : Prog S α}
    {q : Prog S β} (h : Rel R p q) (s : σ) : p.Safe D t s ↔ q.Safe D t s := by
  induction h generalizing s with
  | ret _ => exact Iff.rfl
  | call _ ih => exact and_congr Iff.rfl (ih _ _)

theorem Rel.bind {γ δ : Type} {R : α → β → Prop} {R' : γ → δ → Prop} {p : Prog S α} {q : Prog S β}
    {f : α → Prog S γ} {g : β → Prog S δ} (h : Rel R p q)
    (hfg : ∀ a b, R a b → Rel R' (f a) (g b)) : Rel R' (p.bind f) (q.bind g) := by
  induction h with
  | ret h => exact hfg _ _ h
  | call _ ih => exact .call ih

/-- Against one handler both fail, or both succeed with results that agree on whatever related
    results agree on. -/
theorem Rel.run_map {γ : Type} {R : α → β → Prop} {f : α → γ} {g : β → γ}
    (hfg : ∀ a b, R a b → f a = g b) {h : Handler S σ} {p : Prog S α} {q : Prog S β}
    (hpq : Rel R p q) (s : σ) :
    (p.run h s).map (fun r => (f r.1, r.2)) = (q.run h s).map fun r => (g r.1, r.2) := by
  induction hpq generalizing s with
  | ret hr =>
    show some (f _, s) = some (g _, s)
    rw [hfg _ _ hr]
  | call _ ih =>
    rw [run_call, run_call, Option.map_bind, Option.map_bind]
    exact congrArg _ (funext fun x => ih x.1 x.2)

theorem Rel.all_left {R : α → β → Prop} {Q : α → Prop} (hQ : ∀ a b, R a b → Q a)
    {p : Prog S α} {q : Prog S β} (h : Rel R p q) : p.All Q := by
  induction h with
  | ret h => exact hQ _ _ h
  | call _ ih => exact ih

end Prog

end Lib
