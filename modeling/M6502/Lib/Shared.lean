import Mathlib.Logic.Function.Basic

/-!
# Components that share a global

`Op C L G A` is an operation of a component: on a call of `C` it works on the component's own
state `L` and on a global state `G` that all components share, and gives an answer of `A`. If
the global never shows in the answer nor in the own state (`Op.Blind`), an interleaving of
calls on many components is, for each of them, its own calls alone (`interleaved_alone`).
-/

set_option autoImplicit false

namespace Lib

variable {ι C L G A : Type}

/-- An operation of a component; `none` where it is undefined. -/
abbrev Op (C L G A : Type) := C → L → G → Option (A × L × G)

/-- Whatever the global holds, the answer and the component's own state are the same. -/
def Op.Blind (op : Op C L G A) : Prop :=
  ∀ c l g g', (op c l g).map (fun r => (r.1, r.2.1)) = (op c l g').map fun r => (r.1, r.2.1)

/-- A sequence of calls on one component: the answers, and the state it is left in. -/
def alone (op : Op C L G A) : List C → L → G → Option (List A × L)
  | [], l, _ => some ([], l)
  | c :: cs, l, g =>
    (op c l g).bind fun r => (alone op cs r.2.1 r.2.2).map fun q => (r.1 :: q.1, q.2)

/-- A sequence of calls on the components of a system. -/
def interleaved [DecidableEq ι] (op : Op C L G A) :
    List (ι × C) → (ι → L) → G → Option (List (ι × A) × (ι → L))
  | [], ls, _ => some ([], ls)
  | (i, c) :: cs, ls, g =>
    (op c (ls i) g).bind fun r =>
      (interleaved op cs (Function.update ls i r.2.1) r.2.2).map fun q => ((i, r.1) :: q.1, q.2)

/-- Those of a tagged sequence that carry the tag `i`. -/
def own [DecidableEq ι] {X : Type} (i : ι) (xs : List (ι × X)) : List X :=
  xs.filterMap fun x => if x.1 = i then some x.2 else none

variable {op : Op C L G A}

theorem Op.Blind.exists (h : op.Blind) {c : C} {l : L} {g : G} (g' : G) {r : A × L × G}
    (hr : op c l g = some r) : ∃ g'', op c l g' = some (r.1, r.2.1, g'') := by
  have hmap := h c l g g'
  rw [hr, Option.map_some] at hmap
  obtain ⟨⟨a, l', g''⟩, hr', heq⟩ := Option.map_eq_some_iff.mp hmap.symm
  obtain ⟨rfl, rfl⟩ := Prod.mk.inj heq
  exact ⟨g'', hr'⟩

section

variable [DecidableEq ι] {X : Type}

theorem own_cons_self (i : ι) (x : X) (xs : List (ι × X)) :
    own i ((i, x) :: xs) = x :: own i xs := by
  simp [own]

theorem own_cons_of_ne {i j : ι} (h : j ≠ i) (x : X) (xs : List (ι × X)) :
    own i ((j, x) :: xs) = own i xs := by
  simp [own, h]

/-- **Each component of an interleaving is as if its calls had been the only ones**, from any
    value of the global. -/
theorem interleaved_alone (h : op.Blind) {cs : List (ι × C)} {ls ls' : ι → L} {g : G}
    {as : List (ι × A)} (hrun : interleaved op cs ls g = some (as, ls')) (i : ι) (g' : G) :
    alone op (own i cs) (ls i) g' = some (own i as, ls' i) := by
  induction cs generalizing ls g g' as with
  | nil =>
    obtain ⟨rfl, rfl⟩ := Prod.mk.inj (Option.some.inj hrun)
    rfl
  | cons c cs ih =>
    obtain ⟨j, c⟩ := c
    obtain ⟨r, hr, hrest⟩ := Option.bind_eq_some_iff.mp hrun
    obtain ⟨q, hq, heq⟩ := Option.map_eq_some_iff.mp hrest
    obtain ⟨rfl, rfl⟩ := Prod.mk.inj heq
    by_cases hji : j = i
    · subst hji
      obtain ⟨g'', hr'⟩ := h.exists g' hr
      have htail := ih hq g''
      rw [Function.update_self] at htail
      rw [own_cons_self, own_cons_self, alone, hr', Option.bind_some, htail, Option.map_some]
    · have htail := ih hq g'
      rw [Function.update_of_ne (Ne.symm hji)] at htail
      rw [own_cons_of_ne hji, own_cons_of_ne hji, htail]

end

end Lib
