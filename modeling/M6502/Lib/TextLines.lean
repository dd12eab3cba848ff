import M6502.Lib.CText

/-!
# A file, line by line

`fgets` knows nothing of lines that are longer than its buffer: it hands them out in pieces.
`mem_fgetsAll_iff` says which, for every file: of each line those that begin at a multiple of
the room there is. The last line of a file need not end in a newline, so a line is written
`l ++ e` below, where `e` is the newline or nothing.

A loop of calls that use something up comes to its end (`ends_repeated`), so the bound in
`repeated` is not what ends it.
-/

set_option autoImplicit false

namespace Lib

/-! ## Loops that end -/

section Ends

variable {σ α : Type}

/-- The calls of `f` from `s` come to a null pointer, and have returned `as` by then. -/
inductive Ends (f : σ → Option (α × σ)) : σ → List α → Prop
  | stop {s : σ} (h : f s = none) : Ends f s []
  | next {s s' : σ} {a : α} {as : List α} (h : f s = some (a, s')) (hrest : Ends f s' as) :
      Ends f s (a :: as)

theorem ends_repeated {f : σ → Option (α × σ)} {size : σ → Nat}
    (h : ∀ s a s', f s = some (a, s') → size s' < size s) (s : σ) :
    Ends f s (repeated f (size s) s) := by
  induction hn : size s using Nat.strongRecOn generalizing s with
  | ind n ih =>
    rw [← hn]
    cases hf : f s with
    | none =>
      rw [repeated_none hf]
      exact .stop hf
    | some r =>
      have hlt := h s r.1 r.2 hf
      rw [repeated_some h hf]
      exact .next hf (ih (size r.2) (hn ▸ hlt) r.2 rfl)

theorem ends_strtokAll (d : Char) (s : List Char) : Ends (strtok d) s (strtokAll d s) :=
  ends_repeated (fun _ _ _ h => strtok_shorter h) s

theorem ends_fgetsAll {n : Nat} (hn : 2 ≤ n) (file : List Char) :
    Ends (fgets n) file (fgetsAll n file) :=
  ends_repeated (fun _ _ _ h => fgets_shorter hn h) file

end Ends

/-! ## Lines -/

/-- The lines of a file, each with the newline it ends in. -/
def fileLines : List Char → List (List Char)
  | [] => []
  | c :: s =>
    if c = '\n' then [c] :: fileLines s
    else match fileLines s with
      | [] => [[c]]
      | l :: ls => (c :: l) :: ls

theorem fileLines_line {l : List Char} (hl : '\n' ∉ l) (rest : List Char) :
    fileLines (l ++ '\n' :: rest) = (l ++ ['\n']) :: fileLines rest := by
  induction l with
  | nil => simp [fileLines]
  | cons c l ih =>
    obtain ⟨hc, hl⟩ := not_or.mp (mt List.mem_cons.mpr hl)
    simp [fileLines, Ne.symm hc, ih hl]

theorem fileLines_last {l : List Char} (hl : '\n' ∉ l) (hne : l ≠ []) : fileLines l = [l] := by
  induction l with
  | nil => exact absurd rfl hne
  | cons c l ih =>
    obtain ⟨hc, hl⟩ := not_or.mp (mt List.mem_cons.mpr hl)
    cases l with
    | nil => simp [fileLines, Ne.symm hc]
    | cons d l =>
      have hrest := ih hl (by simp)
      rw [fileLines, if_neg (Ne.symm hc), hrest]

/-! ## Pieces -/

/-- `piece` is what `l` has from a multiple of `m` on, at most `m` characters. -/
def IsPiece (m : Nat) (l piece : List Char) : Prop :=
  ∃ k, m * k < l.length ∧ piece = (l.drop (m * k)).take m

section Pieces

variable {m : Nat} {l piece : List Char}

theorem isPiece_of_le (hne : l ≠ []) (hlen : l.length ≤ m) : IsPiece m l piece ↔ piece = l := by
  have hpos : 0 < l.length := List.length_pos_iff.mpr hne
  constructor
  · rintro ⟨k, hk, rfl⟩
    obtain rfl : k = 0 := by
      by_contra hk0
      have hmul := Nat.mul_le_mul_left m (Nat.one_le_iff_ne_zero.mpr hk0)
      omega
    rw [Nat.mul_zero, List.drop_zero, List.take_of_length_le hlen]
  · rintro rfl
    refine ⟨0, by rwa [Nat.mul_zero], ?_⟩
    rw [Nat.mul_zero, List.drop_zero, List.take_of_length_le hlen]

theorem isPiece_of_lt (hlen : m < l.length) :
    IsPiece m l piece ↔ piece = l.take m ∨ IsPiece m (l.drop m) piece := by
  constructor
  · rintro ⟨k, hk, rfl⟩
    cases k with
    | zero => exact .inl (by rw [Nat.mul_zero, List.drop_zero])
    | succ k =>
      rw [Nat.mul_succ] at hk
      refine .inr ⟨k, by rw [List.length_drop]; omega, ?_⟩
      rw [List.drop_drop, Nat.mul_succ, Nat.add_comm]
  · rintro (rfl | ⟨k, hk, rfl⟩)
    · exact ⟨0, by rw [Nat.mul_zero]; omega, by rw [Nat.mul_zero, List.drop_zero]⟩
    · rw [List.length_drop] at hk
      refine ⟨k + 1, by rw [Nat.mul_succ]; omega, ?_⟩
      rw [List.drop_drop, Nat.mul_succ, Nat.add_comm]

end Pieces

/-! ## What `fgets` reads of a line -/

theorem takeLine_last {l : List Char} (hl : '\n' ∉ l) {k : Nat} (hk : l.length ≤ k) :
    takeLine k l = (l, []) := by
  induction l generalizing k with
  | nil => cases k <;> rfl
  | cons c l ih =>
    obtain ⟨hc, hl⟩ := not_or.mp (mt List.mem_cons.mpr hl)
    cases k with
    | zero => exact absurd hk (by simp)
    | succ k =>
      have hrest := ih hl (Nat.le_of_succ_le_succ hk)
      simp [takeLine, Ne.symm hc, hrest]

section Line

variable {n : Nat} (hn : 2 ≤ n) {l e rest : List Char} (hl : '\n' ∉ l)
  (he : e = ['\n'] ∨ e = [] ∧ rest = [])
include hn hl he

theorem fgetsAll_fits (hne : l ++ e ≠ []) (hlen : (l ++ e).length < n) :
    fgetsAll n (l ++ e ++ rest) = (l ++ e) :: fgetsAll n rest := by
  rcases he with rfl | ⟨rfl, rfl⟩
  · rw [List.length_append] at hlen
    rw [List.append_assoc]
    exact fgetsAll_line hn hl hlen
  · simp only [List.append_nil] at hne hlen ⊢
    refine fgetsAll_some hn ?_
    unfold fgets
    rw [if_neg hne, takeLine_last hl (Nat.le_sub_one_of_lt hlen)]

/-- Where the line is longer than the buffer, it is cut, and what is left is a line again. -/
theorem fgetsAll_cuts (hlen : n ≤ (l ++ e).length) :
    fgetsAll n (l ++ e ++ rest) =
      (l ++ e).take (n - 1) :: fgetsAll n (l.drop (n - 1) ++ e ++ rest) := by
  have hroom : n - 1 ≤ l.length := by
    rw [List.length_append] at hlen
    rcases he with rfl | ⟨rfl, -⟩
    · exact Nat.sub_le_of_le_add hlen
    · exact Nat.sub_le_of_le_add (Nat.le_succ_of_le hlen)
  have htake : '\n' ∉ l.take (n - 1) := fun h => hl (List.mem_of_mem_take h)
  have hfull : (l.take (n - 1)).length + 1 = n := by
    rw [List.length_take]
    omega
  have hcut : fgetsAll n (l.take (n - 1) ++ (l.drop (n - 1) ++ e ++ rest)) =
      l.take (n - 1) :: fgetsAll n (l.drop (n - 1) ++ e ++ rest) := fgetsAll_full hn htake hfull
  rw [← List.append_assoc, ← List.append_assoc, List.take_append_drop] at hcut
  rw [hcut, List.take_append_of_le_length hroom]

theorem mem_fgetsAll_line (hne : l ++ e ≠ []) {piece : List Char} :
    piece ∈ fgetsAll n (l ++ e ++ rest) ↔
      IsPiece (n - 1) (l ++ e) piece ∨ piece ∈ fgetsAll n rest := by
  induction hm : l.length using Nat.strongRecOn generalizing l with
  | ind m ih =>
    by_cases hlen : (l ++ e).length < n
    · rw [fgetsAll_fits hn hl he hne hlen, isPiece_of_le hne (Nat.le_sub_one_of_lt hlen)]
      exact List.mem_cons
    · have hlong : n - 1 < (l ++ e).length := by omega
      have hroom : n - 1 ≤ l.length := by
        rw [List.length_append] at hlong
        rcases he with rfl | ⟨rfl, -⟩
        · exact Nat.le_of_lt_succ hlong
        · exact Nat.le_of_lt hlong
      have hdrop : (l ++ e).drop (n - 1) = l.drop (n - 1) ++ e :=
        List.drop_append_of_le_length hroom
      have hleft : l.drop (n - 1) ++ e ≠ [] := by
        rw [← hdrop]
        exact fun h => absurd (List.drop_eq_nil_iff.mp h) (Nat.not_le_of_lt hlong)
      have hrest := ih (l.drop (n - 1)).length (by rw [List.length_drop]; omega)
        (fun h => hl (List.mem_of_mem_drop h)) hleft rfl
      rw [fgetsAll_cuts hn hl he (Nat.le_of_not_lt hlen), List.mem_cons, hrest,
        isPiece_of_lt hlong, hdrop, or_assoc]

end Line

/-- **What `fgets` reads of a file are the pieces of its lines.** -/
theorem mem_fgetsAll_iff {n : Nat} (hn : 2 ≤ n) {file piece : List Char} :
    piece ∈ fgetsAll n file ↔ ∃ line ∈ fileLines file, IsPiece (n - 1) line piece := by
  induction hm : file.length using Nat.strongRecOn generalizing file with
  | ind m ih =>
    by_cases hnl : '\n' ∈ file
    · obtain ⟨l, rest, rfl, hl⟩ := List.eq_append_cons_of_mem hnl
      have hshort : rest.length < m := by
        rw [← hm, List.length_append, List.length_cons]
        omega
      have hline : piece ∈ fgetsAll n (l ++ ['\n'] ++ rest) ↔
          IsPiece (n - 1) (l ++ ['\n']) piece ∨ piece ∈ fgetsAll n rest :=
        mem_fgetsAll_line hn hl (.inl rfl) (by simp)
      rw [List.append_assoc] at hline
      rw [fileLines_line hl rest]
      simp only [List.mem_cons, exists_eq_or_imp]
      rw [← ih rest.length hshort rfl]
      exact hline
    · cases file with
      | nil =>
        constructor
        · intro h
          cases h
        · rintro ⟨line, h, -⟩
          cases h
      | cons c file =>
        have hline : piece ∈ fgetsAll n (c :: file ++ [] ++ []) ↔
            IsPiece (n - 1) (c :: file ++ []) piece ∨ piece ∈ fgetsAll n [] :=
          mem_fgetsAll_line hn hnl (.inr ⟨rfl, rfl⟩) (by simp)
        simp only [List.append_nil] at hline
        rw [fileLines_last hnl (by simp), hline]
        constructor
        · rintro (h | h)
          · exact ⟨_, List.mem_cons_self, h⟩
          · cases h
        · rintro ⟨line, h, hp⟩
          obtain rfl := List.mem_singleton.mp h
          exact .inl hp

end Lib
