import Mathlib.Logic.Function.Basic

/-!
# Stores addressed through a map

Addresses name cells through a map `cell` that need not be injective. What a cell holds
after a sequence of writes is the value of the last write whose address names it
(`writeAll_apply`). Two ways of naming cells can then be compared by comparing which write
each of them finds last (`lastWrite_of_imp`).
-/

set_option autoImplicit false

namespace Lib

variable {A I V : Type}

/-- The last write of a sequence whose address satisfies `p`. -/
def lastWrite (p : A → Prop) [DecidablePred p] : List (A × V) → Option (A × V)
  | [] => none
  | w :: ws => (lastWrite p ws).or (if p w.1 then some w else none)

/-- The store after a sequence of writes. -/
def writeAll [DecidableEq I] (cell : A → I) (d : I → V) (ws : List (A × V)) : I → V :=
  ws.foldl (fun d w => Function.update d (cell w.1) w.2) d

theorem writeAll_apply [DecidableEq I] (cell : A → I) (i : I) (ws : List (A × V)) (d : I → V) :
    writeAll cell d ws i =
      ((lastWrite (fun a => cell a = i) ws).map Prod.snd).getD (d i) := by
  induction ws generalizing d with
  | nil => rfl
  | cons w ws ih =>
    show writeAll cell (Function.update d (cell w.1) w.2) ws i = _
    rw [ih, lastWrite]
    cases lastWrite (fun a => cell a = i) ws with
    | some v => rfl
    | none =>
      rw [Option.none_or]
      by_cases hi : cell w.1 = i
      · rw [if_pos hi, ← hi, Function.update_self]
        rfl
      · rw [if_neg hi]
        exact Function.update_of_ne (Ne.symm hi) _ _

section

variable {p q : A → Prop} [DecidablePred p] [DecidablePred q] {ws : List (A × V)} {w : A × V}

theorem lastWrite_spec (h : lastWrite p ws = some w) : p w.1 := by
  induction ws with
  | nil => cases h
  | cons v ws ih =>
    rw [lastWrite] at h
    rcases Option.or_eq_some_iff.mp h with h | ⟨-, h⟩
    · exact ih h
    · by_cases hv : p v.1
      · rw [if_pos hv] at h
        exact Option.some.inj h ▸ hv
      · rw [if_neg hv] at h
        cases h

theorem lastWrite_mem (h : lastWrite p ws = some w) : w ∈ ws := by
  induction ws with
  | nil => cases h
  | cons v ws ih =>
    rw [lastWrite] at h
    rcases Option.or_eq_some_iff.mp h with h | ⟨-, h⟩
    · exact List.mem_cons_of_mem v (ih h)
    · by_cases hv : p v.1
      · rw [if_pos hv] at h
        exact Option.some.inj h ▸ List.mem_cons_self
      · rw [if_neg hv] at h
        cases h

theorem lastWrite_eq_none_iff : lastWrite p ws = none ↔ ∀ w ∈ ws, ¬ p w.1 := by
  induction ws with
  | nil => exact iff_of_true rfl fun w hw => absurd hw List.not_mem_nil
  | cons v ws ih =>
    rw [lastWrite, Option.or_eq_none_iff, ih, List.forall_mem_cons]
    by_cases hv : p v.1 <;> simp [hv]

theorem lastWrite_none_of_imp (hqp : ∀ a, q a → p a) (h : lastWrite p ws = none) :
    lastWrite q ws = none :=
  lastWrite_eq_none_iff.mpr fun w hw hq => lastWrite_eq_none_iff.mp h w hw (hqp w.1 hq)

/-- A last write found under a wider condition is found under the narrower one it meets. -/
theorem lastWrite_of_imp (hqp : ∀ a, q a → p a) (h : lastWrite p ws = some w) (hw : q w.1) :
    lastWrite q ws = some w := by
  induction ws with
  | nil => cases h
  | cons v ws ih =>
    rw [lastWrite] at h ⊢
    rcases Option.or_eq_some_iff.mp h with h | ⟨hn, h⟩
    · rw [ih h, Option.some_or]
    · by_cases hv : p v.1
      · rw [if_pos hv] at h
        obtain rfl := Option.some.inj h
        rw [lastWrite_none_of_imp hqp hn, Option.none_or, if_pos hw]
      · rw [if_neg hv] at h
        cases h

theorem lastWrite_congr (h : ∀ w ∈ ws, (p w.1 ↔ q w.1)) : lastWrite p ws = lastWrite q ws := by
  induction ws with
  | nil => rfl
  | cons v ws ih =>
    obtain ⟨hv, hws⟩ := List.forall_mem_cons.mp h
    simp only [lastWrite, ih hws, hv]

end

theorem lastWrite_append (p : A → Prop) [DecidablePred p] (xs ys : List (A × V)) :
    lastWrite p (xs ++ ys) = (lastWrite p ys).or (lastWrite p xs) := by
  induction xs with
  | nil => rw [List.nil_append, lastWrite, Option.or_none]
  | cons w xs ih => rw [List.cons_append, lastWrite, lastWrite, ih, Option.or_assoc]

theorem lastWrite_singleton (p : A → Prop) [DecidablePred p] (w : A × V) :
    lastWrite p [w] = if p w.1 then some w else none := Option.none_or

/-- Where the writes are made block by block, the last one is the last one of the last block that
    has any. -/
theorem lastWrite_flatMap_eq_some_iff {S : Type} {p : A → Prop} [DecidablePred p]
    {writes : S → List (A × V)} {blocks : List S} {w : A × V} :
    lastWrite p (blocks.flatMap writes) = some w ↔
      ∃ before s after, blocks = before ++ s :: after ∧ lastWrite p (writes s) = some w ∧
        ∀ t ∈ after, lastWrite p (writes t) = none := by
  induction blocks with
  | nil =>
    refine iff_of_false (by simp [lastWrite]) ?_
    rintro ⟨before, s, after, h, -⟩
    exact absurd h (by simp)
  | cons u blocks ih =>
    rw [List.flatMap_cons, lastWrite_append, Option.or_eq_some_iff, ih]
    constructor
    -- found further down, or in the first block with nothing further down
    · rintro (⟨before, s, after, rfl, hs, hafter⟩ | ⟨hnone, hu⟩)
      · exact ⟨u :: before, s, after, rfl, hs, hafter⟩
      · refine ⟨[], u, blocks, rfl, hu, fun t ht => ?_⟩
        rw [lastWrite_eq_none_iff] at hnone ⊢
        exact fun v hv => hnone v (List.mem_flatMap.mpr ⟨t, ht, hv⟩)
    · rintro ⟨before, s, after, h, hs, hafter⟩
      cases before with
      | nil =>
        obtain ⟨rfl, rfl⟩ := List.cons.inj h
        refine .inr ⟨lastWrite_eq_none_iff.mpr fun v hv => ?_, hs⟩
        obtain ⟨t, ht, hv⟩ := List.mem_flatMap.mp hv
        exact lastWrite_eq_none_iff.mp (hafter t ht) v hv
      | cons u' before =>
        obtain ⟨-, rfl⟩ := List.cons.inj h
        exact .inl ⟨before, s, after, rfl, hs, hafter⟩

theorem lastWrite_flatMap_eq_none_iff {S : Type} {p : A → Prop} [DecidablePred p]
    {writes : S → List (A × V)} {blocks : List S} :
    lastWrite p (blocks.flatMap writes) = none ↔ ∀ s ∈ blocks, lastWrite p (writes s) = none := by
  simp only [lastWrite_eq_none_iff, List.mem_flatMap, forall_exists_index, and_imp]
  exact ⟨fun h s hs w hw => h w s hs hw, fun h w s hs hw => h s hs w hw⟩

end Lib
