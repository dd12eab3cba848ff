import Mathlib.Data.List.Destutter
import M6502.Lib.Run

/-!
# A value, sampled

A system runs, and somebody looks at one value of it before each step. What he can tell apart
are the changes of the value (`changes`): of a value that is written twice he sees one write.
`changes` is `List.destutter'` without the value it starts with.
-/

set_option autoImplicit false

namespace Lib

/-! ## The states of a run -/

section Visited

variable {σ : Type} (f : σ → Option σ)

/-- The states the first `k` steps from `x` begin in. -/
def visited : Nat → σ → List σ
  | 0, _ => []
  | k + 1, x => x :: ((f x).map (visited k)).getD []

variable {f}

theorem visited_succ {x y : σ} (h : f x = some y) (k : Nat) :
    visited f (k + 1) x = x :: visited f k y := by
  show x :: ((f x).map (visited f k)).getD [] = _
  rw [h]
  rfl

theorem visited_succ_last {k : Nat} {x y : σ} (h : iter f k x = some y) :
    visited f (k + 1) x = visited f k x ++ [y] := by
  induction k generalizing x with
  | zero =>
    obtain rfl := Option.some.inj h
    show x :: ((f x).map _).getD [] = [x]
    cases f x <;> rfl
  | succ k ih =>
    obtain ⟨z, hz, hy⟩ := Option.bind_eq_some_iff.mp h
    rw [visited_succ hz, visited_succ hz, ih hy, List.cons_append]

end Visited

/-! ## Changes -/

section Changes

variable {α : Type} [DecidableEq α]

/-- The values of a list that differ from the one before, which for the first is `a`. -/
def changes : α → List α → List α
  | _, [] => []
  | a, c :: l => if c = a then changes a l else c :: changes c l

theorem destutter'_eq_cons_changes (a : α) (l : List α) :
    l.destutter' (· ≠ ·) a = a :: changes a l := by
  induction l generalizing a with
  | nil => rfl
  | cons c l ih =>
    by_cases h : c = a
    · rw [List.destutter'_cons_neg l (not_not.mpr h.symm), ih, changes, if_pos h]
    · rw [List.destutter'_cons_pos l (Ne.symm h), ih, changes, if_neg h]

theorem changes_sublist (a : α) (l : List α) : (changes a l).Sublist l := by
  have hsub := List.destutter'_sublist l (· ≠ ·) a
  rw [destutter'_eq_cons_changes] at hsub
  exact List.cons_sublist_cons.mp hsub

theorem changes_append (a : α) (l m : List α) :
    changes a (l ++ m) = changes a l ++ changes (l.getLastD a) m := by
  induction l generalizing a with
  | nil => rfl
  | cons d l ih =>
    rw [List.cons_append, List.getLastD_cons, changes, changes]
    by_cases h : d = a
    · rw [if_pos h, if_pos h, ih, h]
    · rw [if_neg h, if_neg h, ih, List.cons_append]

theorem changes_append_singleton (a c : α) (l : List α) :
    changes a (l ++ [c]) = changes a l ++ if c = l.getLastD a then [] else [c] :=
  changes_append a l [c]

/-- Nothing is missing exactly if nothing was before, and the value added is a change. -/
theorem changes_append_singleton_eq_iff {a c : α} {l : List α} :
    changes a (l ++ [c]) = l ++ [c] ↔ changes a l = l ∧ c ≠ l.getLastD a := by
  rw [changes_append_singleton]
  by_cases h : c = l.getLastD a
  · rw [if_pos h, List.append_nil]
    refine iff_of_false (fun heq => ?_) fun hand => hand.2 h
    have hlen := (changes_sublist a l).length_le
    rw [heq, List.length_append] at hlen
    exact absurd hlen (by simp)
  · rw [if_neg h, List.append_cancel_right_eq, and_iff_left h]

/-- A value that has never changed is the one it was. -/
theorem getLastD_of_changes_eq_nil {a : α} {l : List α} (h : changes a l = []) :
    l.getLastD a = a := by
  induction l with
  | nil => rfl
  | cons d l ih =>
    rw [changes] at h
    by_cases hd : d = a
    · rw [if_pos hd] at h
      rw [List.getLastD_cons, hd]
      exact ih h
    · rw [if_neg hd] at h
      cases h

end Changes

/-! ## Up to a mark -/

section UpTo

variable {α : Type} [DecidableEq α]

/-- The list up to its first `c`, which is included. -/
def upTo (c : α) : List α → List α
  | [] => []
  | d :: l => if d = c then [d] else d :: upTo c l

theorem upTo_append_cons {c : α} {l r : List α} (h : c ∉ l) :
    upTo c (l ++ c :: r) = l ++ [c] := by
  induction l with
  | nil => exact if_pos rfl
  | cons d l ih =>
    obtain ⟨hd, hl⟩ := not_or.mp (mt List.mem_cons.mpr h)
    rw [List.cons_append, upTo, if_neg (Ne.symm hd), ih hl, List.cons_append]

/-- Where `c` is seen for the first time, everything up to it has been seen exactly if nothing
    before it is missing. -/
theorem changes_append_eq_upTo_iff {a c : α} {l : List α} (hc : c ∉ changes a l)
    (hlast : l.getLastD a ≠ c) : changes a l ++ [c] = upTo c (l ++ [c]) ↔ changes a l = l := by
  by_cases hmem : c ∈ l
  · obtain ⟨u, w, rfl, hu⟩ := List.eq_append_cons_of_mem hmem
    rw [List.append_assoc, List.cons_append, upTo_append_cons hu, List.append_cancel_right_eq]
    refine iff_of_false (fun heq => ?_) fun heq => hc (by rw [heq]; exact hmem)
    -- a `c` that is not seen was there already, and nothing was seen before it
    have hat : c = u.getLastD a := by
      by_contra hne
      refine hc ?_
      rw [changes_append, changes, if_neg hne]
      simp
    have hnil : u = [] := by
      rcases List.eq_nil_or_concat u with rfl | ⟨v, d, rfl⟩
      · rfl
      · rw [List.concat_eq_append, List.getLastD_concat] at hat
        exact absurd hu (by simp [hat])
    subst hnil
    have hstart : c = a := hat
    exact hlast ((getLastD_of_changes_eq_nil heq).trans hstart.symm)
  · rw [upTo_append_cons hmem, List.append_cancel_right_eq]

end UpTo

end Lib
