import M6502.Proof.Host.Capture
import M6502.Proof.Cpu.Operand

/-!
# The buffer of `wozmon read`

The loop keeps what it catches in a buffer of 256 bytes and never compares the index with that
size; only a carriage return sets it back. So it is the program that decides how far the
index goes. A line fits (`LineFits`) if there are no more than 256 changes up to its carriage
return, and the buffer has a zero left to end the string when the line is printed.
-/

set_option autoImplicit false

namespace M6502

open Lib
open Shell (ReadLocals)

variable {b : Build} (PROGMEM : Progmem)

/-- What `c` found in `ACIA_DATA` makes the loop do stays inside the buffer, and if a line is
    printed there is a zero in it. -/
structure CaptureSafe (v : ReadLocals) (c : U8) : Prop where
  store : c ≠ v.monData → v.inputIndex < 0x0100
  terminated : ∀ u, c ≠ v.monData → v.store c = some u → c = carriageReturn → ∃ i, u.buf i = 0

/-- The changes up to here fit in the buffer, with a zero after or among them if they are a line. -/
def LineFits (cs : List U8) : Prop :=
  cs.length ≤ 0x0100 ∧ (cs.getLast? = some carriageReturn → cs.length < 0x0100 ∨ 0 ∈ cs)

theorem textOf_isSome_iff (buf : Fin 0x0100 → U8) :
    (Shell.textOf buf).isSome ↔ ∃ i, buf i = 0 := by
  have hmem : (List.ofFn buf).contains 0 = true ↔ ∃ i, buf i = 0 :=
    List.contains_iff_mem.trans List.mem_ofFn
  unfold Shell.textOf
  rw [← hmem]
  cases (List.ofFn buf).contains 0 <;> exact Iff.rfl

/-- What is not safe is what is undefined in C. -/
theorem captureSafe_iff_isSome (v : ReadLocals) (x : Host b) :
    CaptureSafe v (x.acia PROGMEM) ↔
      ((if x.acia PROGMEM ≠ v.monData then Shell.receive v (x.acia PROGMEM)
        else .ret v : Command ReadLocals).run (host PROGMEM) x).isSome := by
  by_cases hnew : x.acia PROGMEM = v.monData
  · rw [if_neg (not_not.mpr hnew)]
    exact iff_of_true ⟨fun h => absurd hnew h, fun _ h => absurd hnew h⟩ rfl
  · rw [if_pos hnew, receive_run]
    by_cases hroom : v.inputIndex < 0x0100
    · obtain ⟨u, hu⟩ : ∃ u, v.store (x.acia PROGMEM) = some u := ⟨_, dif_pos hroom⟩
      rw [hu, Option.bind_some]
      by_cases hcr : x.acia PROGMEM = carriageReturn
      · rw [if_pos hcr, Option.isSome_map, textOf_isSome_iff]
        constructor
        · intro h
          exact h.terminated u hnew hu hcr
        · intro h
          refine ⟨fun _ => hroom, fun w _ hw _ => ?_⟩
          obtain rfl := Option.some.inj (hu.symm.trans hw)
          exact h
      · rw [if_neg hcr]
        exact iff_of_true ⟨fun _ => hroom, fun _ _ _ h => absurd h hcr⟩ rfl
    · have hnone : v.store (x.acia PROGMEM) = none := dif_neg hroom
      rw [hnone]
      exact iff_of_false (fun h => hroom (h.store hnew)) (by simp)

theorem exists_getD_zero_iff {cs : List U8} (h : cs.length ≤ 0x0100) :
    (∃ i : Fin 0x0100, cs.getD i 0 = 0) ↔ cs.length < 0x0100 ∨ 0 ∈ cs := by
  constructor
  · rintro ⟨i, hi⟩
    by_cases hlt : i.val < cs.length
    · rw [List.getD_eq_getElem _ _ hlt] at hi
      exact .inr (hi ▸ List.getElem_mem hlt)
    · exact .inl (Nat.lt_of_le_of_lt (Nat.le_of_not_lt hlt) i.isLt)
  · rintro (hlt | hmem)
    · exact ⟨⟨cs.length, hlt⟩, List.getD_eq_default _ _ (Nat.le_refl _)⟩
    · obtain ⟨j, hj, he⟩ := List.getElem_of_mem hmem
      exact ⟨⟨j, Nat.lt_of_lt_of_le hj h⟩, (List.getD_eq_getElem _ _ hj).trans he⟩

/-- After the changes `cs`, which are no line yet, the next poll is safe exactly if what is there
    then fits. -/
theorem captureSafe_iff_lineFits {cs : List U8} (hlen : cs.length ≤ 0x0100)
    (hcr : carriageReturn ∉ cs) (mon_data c : U8) :
    CaptureSafe (localsOf mon_data cs) c ↔
      LineFits (cs ++ if c = mon_data then [] else [c]) := by
  by_cases hnew : c = mon_data
  · rw [if_pos hnew, List.append_nil]
    refine iff_of_true ⟨fun h => absurd hnew h, fun _ h => absurd hnew h⟩ ⟨hlen, fun hlast => ?_⟩
    exact absurd (List.mem_of_getLast? hlast) hcr
  · have hlast : (cs ++ [c]).getLast? = some c := by simp
    have hindex : (cs ++ [c]).length = cs.length + 1 := List.length_append
    rw [if_neg hnew]
    unfold LineFits
    rw [hlast]
    constructor
    · intro h
      have hroom : cs.length < 0x0100 := h.store hnew
      have hfull : (cs ++ [c]).length ≤ 0x0100 := by rw [hindex]; exact hroom
      refine ⟨hfull, fun he => ?_⟩
      have hstore := (localsOf_store mon_data c cs).trans (if_pos hroom)
      exact (exists_getD_zero_iff hfull).mp (h.terminated _ hnew hstore (Option.some.inj he))
    · rintro ⟨hfull, hzero⟩
      have hroom : cs.length < 0x0100 := by rwa [hindex] at hfull
      refine ⟨fun _ => hroom, fun u _ hu he => ?_⟩
      obtain rfl := Option.some.inj
        (((localsOf_store mon_data c cs).trans (if_pos hroom)).symm.trans hu)
      exact (exists_getD_zero_iff hfull).mpr (hzero (congrArg some he))

/-- The changes of every shorter run fit, so there is room for those of this one. -/
theorem length_caught_le {x y : Host b} {k : Nat} (h : iter (pollStep PROGMEM) k x = some y)
    (hcr : carriageReturn ∉ caught PROGMEM k x)
    (hfits : ∀ j < k, ∀ z, iter (pollStep PROGMEM) j x = some z →
      z.cpu.PC ≠ irqAddress PROGMEM → carriageReturn ∉ caught PROGMEM j x →
        LineFits (caught PROGMEM (j + 1) x)) : (caught PROGMEM k x).length ≤ 0x0100 := by
  cases k with
  | zero => exact Nat.zero_le _
  | succ k =>
    have hsub := caught_sublist_succ PROGMEM h
    obtain ⟨z, hz, hpc, -⟩ := (iter_pollStep_succ_iff PROGMEM).mp h
    exact (hfits k (Nat.lt_succ_self k) z hz hpc fun hmem => hcr (hsub.subset hmem)).1

theorem lineFits_of_captureSafe {x : Host b} {n : Nat}
    (h : ∀ k < n, ∀ v y, ReadHead PROGMEM x k (v, y) → ReadGoesOn PROGMEM (v, y) →
      CaptureSafe v (y.acia PROGMEM)) :
    ∀ k < n, ∀ y, iter (pollStep PROGMEM) k x = some y → y.cpu.PC ≠ irqAddress PROGMEM →
      carriageReturn ∉ caught PROGMEM k x → LineFits (caught PROGMEM (k + 1) x) := by
  intro k hk
  induction k using Nat.strongRecOn with
  | ind k ih =>
    intro y hy hpc hcr
    have hlen := length_caught_le PROGMEM hy hcr fun j hj =>
      ih j hj (Nat.lt_trans hj hk)
    obtain ⟨hhead, hdone⟩ := (readHead_iff PROGMEM).mpr ⟨hy, hcr, hlen, rfl⟩
    have hsafe := h k hk _ y hhead ⟨hpc, hdone⟩
    rw [caught_succ hy]
    exact (captureSafe_iff_lineFits hlen hcr _ _).mp hsafe

/-- **The loop stays inside its buffer, for any number of rounds, exactly if** what the machine
    shows it fits. -/
theorem capture_inBounds_iff (b : Build) (PROGMEM : Progmem) (x : Host b) (n : Nat) :
    (∀ k < n, ∀ v y, ReadHead PROGMEM x k (v, y) → ReadGoesOn PROGMEM (v, y) →
        CaptureSafe v (y.acia PROGMEM)) ↔
      ∀ k < n, ∀ y, iter (pollStep PROGMEM) k x = some y → y.cpu.PC ≠ irqAddress PROGMEM →
        carriageReturn ∉ caught PROGMEM k x → LineFits (caught PROGMEM (k + 1) x) := by
  constructor
  · exact lineFits_of_captureSafe PROGMEM
  · intro h k hk v y hhead hgoes
    obtain ⟨hy, hcr, hlen, rfl⟩ := (readHead_iff PROGMEM).mp ⟨hhead, hgoes.2⟩
    have hfits := h k hk y hy hgoes.1 hcr
    rw [caught_succ hy] at hfits
    exact (captureSafe_iff_lineFits hlen hcr _ _).mpr hfits

/-! ## A program that writes no carriage return -/

/-- `INC ACIA_DATA`, `DEC ACIA_DATA`, and back. -/
def toggleProgmem : Progmem := fun i =>
  ([0xEE, 0x00, 0x41, 0xCE, 0x00, 0x41, 0x4C, 0x00, 0x80] : List U8).getD i.val 0

/-- At `pc` in it, with `c` in `ACIA_DATA`. -/
def toggleHost (pc : U16) (c value : U8) : Host ⟨false⟩ where
  cpu := { olc6502Init with PC := pc, PS := .ofValue value }
  oopsCycle := false
  mem := poke ⟨fun _ => 0⟩ aciaData c
  output := []

theorem poke_poke (mem : Memory b) {a : U16} (ha : StoreInBounds b a) (v w : U8) :
    poke (poke mem a v) a w = poke mem a w := by
  refine Memory.view_inj ?_
  rw [view_poke _ _ ha, view_poke _ _ ha, view_poke _ _ ha, Function.update_idem]

/-- A step of the program, from what it does to the CPU and the one byte it writes. -/
theorem toggle_step {i : Ins} {pc pc' : U16} {c c' value value' : U8}
    (hat : At toggleProgmem i (toggleHost pc c value).machine)
    (hsafe : StepSafe toggleProgmem (toggleHost pc c value).machine)
    (hpc : pc ≠ irqAddress toggleProgmem)
    (hcpu : (stepOf toggleProgmem (toggleHost pc c value).machine).1.cpu =
      (toggleHost pc' c' value').cpu)
    (hoops : (stepOf toggleProgmem (toggleHost pc c value).machine).1.oopsCycle = false)
    (hwrites : i.writes toggleProgmem (toggleHost pc c value).machine = [(aciaData, c')] ∨
      i.writes toggleProgmem (toggleHost pc c value).machine = [] ∧ c = c') :
    pollStep toggleProgmem (toggleHost pc c value) = some (toggleHost pc' c' value') := by
  have hmem : (stepOf toggleProgmem (toggleHost pc c value).machine).2 =
      poke ⟨fun _ => 0⟩ aciaData c' := by
    have hstart : (toggleHost pc c value).machine.2 = poke ⟨fun _ => 0⟩ aciaData c := rfl
    have hone : ∀ mem : Memory ⟨false⟩, pokes mem [(aciaData, c')] = poke mem aciaData c' := by
      intro mem
      unfold pokes
      rw [List.foldl_cons, List.foldl_nil]
    have hbound : StoreInBounds ⟨false⟩ aciaData := by decide
    rw [stepOf_mem toggleProgmem hat]
    rcases hwrites with hw | ⟨hw, rfl⟩
    · rw [hw, hone, hstart]
      exact poke_poke _ hbound c c'
    · rw [hw]
      rfl
  refine (pollStep_iff toggleProgmem).mpr ⟨hpc, hsafe, ?_⟩
  unfold Host.stepped
  dsimp only
  rw [hcpu, hoops, hmem]
  rfl

theorem toggle_inc :
    pollStep toggleProgmem (toggleHost 0x8000 0xFF 0x84) = some (toggleHost 0x8003 0x01 0x04) :=
  toggle_step (i := .incAbs) (by decide) (by decide) (by decide) (by decide) (by decide)
    (.inl (by decide))

theorem toggle_dec :
    pollStep toggleProgmem (toggleHost 0x8003 0x01 0x04) = some (toggleHost 0x8006 0xFF 0x84) :=
  toggle_step (i := .decAbs) (by decide) (by decide) (by decide) (by decide) (by decide)
    (.inl (by decide))

theorem toggle_jmp :
    pollStep toggleProgmem (toggleHost 0x8006 0xFF 0x84) = some (toggleHost 0x8000 0xFF 0x84) :=
  toggle_step (i := .jmpAbs) (by decide) (by decide) (by decide) (by decide) (by decide)
    (.inr ⟨by decide, rfl⟩)

/-- Three instructions later everything is as it was, and two more changes have been seen. -/
theorem toggle_caught (m : Nat) :
    iter (pollStep toggleProgmem) (3 * m) (toggleHost 0x8000 0xFF 0x84) =
        some (toggleHost 0x8000 0xFF 0x84) ∧
      (caught toggleProgmem (3 * m) (toggleHost 0x8000 0xFF 0x84)).length = 2 * m ∧
      carriageReturn ∉ caught toggleProgmem (3 * m) (toggleHost 0x8000 0xFF 0x84) := by
  induction m with
  | zero => exact ⟨rfl, rfl, List.not_mem_nil⟩
  | succ m ih =>
    obtain ⟨hit, hlen, hcr⟩ := ih
    have hiter : iter (pollStep toggleProgmem) (3 * m + 1 + 1 + 1) (toggleHost 0x8000 0xFF 0x84) =
        some (toggleHost 0x8000 0xFF 0x84) := by
      rw [iter_succ, toggle_inc, Option.bind_some, iter_succ, toggle_dec, Option.bind_some,
        iter_succ, toggle_jmp, Option.bind_some, hit]
    have hcaught : caught toggleProgmem (3 * m + 1 + 1 + 1) (toggleHost 0x8000 0xFF 0x84) =
        0x01 :: 0xFF :: caught toggleProgmem (3 * m) (toggleHost 0x8000 0xFF 0x84) := by
      unfold caught polls
      rw [visited_succ toggle_inc, visited_succ toggle_dec, visited_succ toggle_jmp]
      rfl
    refine ⟨hiter, ?_, ?_⟩
    · show (caught toggleProgmem (3 * m + 1 + 1 + 1) _).length = _
      rw [hcaught, List.length_cons, List.length_cons, hlen]
      omega
    · show _ ∉ caught toggleProgmem (3 * m + 1 + 1 + 1) _
      rw [hcaught]
      simp only [List.mem_cons, not_or]
      exact ⟨by decide, by decide, hcr⟩

/-- After 387 instructions of it 258 characters have been kept. -/
theorem not_capture_inBounds :
    ¬ ∀ (b : Build) (PROGMEM : Progmem) (x : Host b) (k : Nat) (v : ReadLocals) (y : Host b),
      ReadHead PROGMEM x k (v, y) → ReadGoesOn PROGMEM (v, y) → CaptureSafe v (y.acia PROGMEM) := by
  intro h
  obtain ⟨hit, hlen, hcr⟩ := toggle_caught 129
  have hsub := lineFits_of_captureSafe toggleProgmem (n := 3 * 129 + 1)
    (fun k _ v y => h ⟨false⟩ toggleProgmem (toggleHost 0x8000 0xFF 0x84) k v y) (3 * 129)
    (Nat.lt_succ_self _) _ hit (by decide) hcr
  have hle := hsub.1
  rw [caught_succ hit, List.length_append, hlen] at hle
  omega

end M6502
