import M6502.Lib.TextLines
import M6502.Proof.Host.PrgPieces

/-!
# Files the loader was not written for

The loader tests the token of a byte against a null pointer and the token of an address not.
`strtok` has no token in a piece whose string holds nothing but colons, or nothing at all
because it begins with a zero byte; everything else the loader survives. Which pieces there
are depends on the lines of the file only, so the condition (`PiecesHaveAddress`) is one on
the file.
-/

set_option autoImplicit false

namespace M6502

open Lib

variable {longBits : Nat}

/-- A load comes to its end, in both of its loops, and no null pointer reaches `strtol`. -/
structure LoadSurvives (longBits : Nat) (content : List Char) : Prop where
  lines_end : Ends (fgets bufSize) content (fgetsAll bufSize content)
  tokens_end : ∀ myString ∈ fgetsAll bufSize content, ∀ token rest,
    strtok ':' (cString myString) = some (token, rest) → Ends (strtok ' ') rest (strtokAll ' ' rest)
  never_null : (loadPrgFile longBits (some content)).All (· = some 0)

/-- From each 63rd character of a line on, before the next one or a zero byte, there is
    something other than colons. -/
def PiecesHaveAddress (content : List Char) : Prop :=
  ∀ line ∈ fileLines content, ∀ k, 63 * k < line.length →
    ∃ c ∈ cString ((line.drop (63 * k)).take 63), c ≠ ':'

theorem strtok_ne_none_iff {d : Char} {s : List Char} : strtok d s ≠ none ↔ ∃ c ∈ s, c ≠ d := by
  have hdrop : s.dropWhile (fun c => decide (c = d)) = [] ↔ ∀ c ∈ s, c = d := by
    simp [List.dropWhile_eq_nil_iff]
  have hnone : strtok d s = none ↔ ∀ c ∈ s, c = d := by
    rw [← hdrop]
    unfold strtok
    cases s.dropWhile (fun c => decide (c = d)) <;> simp
  rw [Ne, hnone]
  simp only [not_forall, exists_prop]

theorem all_writeEach {α : Type} {Q : α → Prop} {f : Unit → Prog BusSig α}
    (ws : List (U16 × U8)) : ((writeEach ws).bind f).All Q ↔ (f ()).All Q := by
  induction ws with
  | nil => exact Iff.rfl
  | cons w ws ih => exact ⟨fun h => ih.mp (h ()), fun h _ => ih.mpr h⟩

/-- What the body of the loop leads to, whatever the bus answers. -/
theorem all_loadLine {α : Type} {Q : α → Prop} {f : Option Unit → Prog BusSig α}
    (myString : List Char) :
    ((loadLine longBits myString).bind f).All Q ↔
      (f (if strtok ':' (cString myString) = none then none else some ())).All Q := by
  unfold loadLine
  cases strtok ':' (cString myString) with
  | none => exact Iff.rfl
  | some r =>
    dsimp only
    rw [Prog.bind_assoc, loadTokens_eq, all_writeEach]
    exact Iff.rfl

theorem all_loadLines_iff (lines : List (List Char)) :
    (loadLines longBits lines).All (· = some 0) ↔
      ∀ myString ∈ lines, strtok ':' (cString myString) ≠ none := by
  induction lines with
  | nil =>
    refine iff_of_true rfl ?_
    intro myString h
    cases h
  | cons myString lines ih =>
    rw [loadLines, all_loadLine, List.forall_mem_cons]
    by_cases h : strtok ':' (cString myString) = none
    · rw [if_pos h]
      exact iff_of_false (by simp [Prog.All]) fun hall => hall.1 h
    · rw [if_neg h, and_iff_right h]
      exact ih

/-- **A load survives exactly if every piece `fgets` cuts the file into has an address.** -/
theorem loadSurvives_iff (longBits : Nat) (content : List Char) :
    LoadSurvives longBits content ↔ PiecesHaveAddress content := by
  have hnull : (loadPrgFile longBits (some content)).All (· = some 0) ↔
      PiecesHaveAddress content := by
    have hlines : (loadLines longBits (fgetsAll bufSize content)).All (· = some 0) ↔ _ :=
      all_loadLines_iff _
    refine hlines.trans ?_
    constructor
    · intro h line hline k hk
      refine strtok_ne_none_iff.mp (h _ ?_)
      exact (mem_fgetsAll_iff (show 2 ≤ bufSize by decide)).mpr ⟨line, hline, k, hk, rfl⟩
    · intro h myString hmem
      obtain ⟨line, hline, k, hk, rfl⟩ :=
        (mem_fgetsAll_iff (show 2 ≤ bufSize by decide)).mp hmem
      exact strtok_ne_none_iff.mpr (h line hline k hk)
  constructor
  · intro h
    exact hnull.mp h.never_null
  · intro h
    refine ⟨ends_fgetsAll (by decide) content, ?_, hnull.mpr h⟩
    intro _ _ _ rest _
    exact ends_strtokAll ' ' rest

/-- A file of one colon. -/
theorem not_loadSurvives :
    loadPrgFile 64 (some [':']) = .ret none ∧ ¬ ∀ content, LoadSurvives 64 content := by
  have hnull : loadPrgFile 64 (some [':']) = .ret none := rfl
  refine ⟨hnull, fun h => ?_⟩
  have hall := (h [':']).never_null
  rw [hnull] at hall
  exact absurd (show none = some (0 : Int) from hall) (by simp)

end M6502
