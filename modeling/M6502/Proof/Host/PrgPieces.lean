import M6502.Proof.Bus.Store
import M6502.PrgLoader

/-!
# What the loader stores of a line

`fgets` hands a line to the loader in pieces of at most 63 characters, and each piece is parsed
as if it were a line. What is stored of a line with one colon is decided by the piece the colon
is in (`loadLines_line`): the address is what that piece has of it, the bytes are the tokens
that come after the colon in it, the last of them cut where the piece ends. The other pieces
have no colon and nothing of them is stored, nor of a piece that begins with the colon.

The size of the buffer is a parameter here: a longer one is what a shorter one is compared
with.
-/

set_option autoImplicit false

namespace M6502

open Lib

variable {b : Build} (PROGMEM : Progmem) {longBits : Nat}

/-! ## Programs that only store -/

def writeEach : List (U16 × U8) → Prog BusSig Unit
  | [] => .ret ()
  | w :: ws => .call (.writeByte w.1 w.2) fun _ => writeEach ws

/-- Bytes stored one after the other. -/
def bytesAt : U16 → List U8 → List (U16 × U8)
  | _, [] => []
  | a, v :: vs => (a, v) :: bytesAt (a + 1) vs

theorem writeEach_append {α : Type} (xs ys : List (U16 × U8)) (p : Prog BusSig α) :
    (writeEach (xs ++ ys)).bind (fun _ => p) =
      (writeEach xs).bind fun _ => (writeEach ys).bind fun _ => p := by
  induction xs with
  | nil => rfl
  | cons w xs ih => exact congrArg (Prog.call _) (funext fun _ => ih)

theorem writeEach_run (ws : List (U16 × U8)) (mem : Memory b) :
    (writeEach ws).run (bus PROGMEM) mem = (busWriteBytes mem ws).map fun mem' => ((), mem') := by
  induction ws generalizing mem with
  | nil => rfl
  | cons w ws ih =>
    have hwrite : bus PROGMEM (.writeByte w.1 w.2) mem =
        (busWriteByte mem w.1 w.2).map fun mem' => ((), mem') := rfl
    have hcons : busWriteBytes mem (w :: ws) =
        (busWriteByte mem w.1 w.2).bind fun mem' => busWriteBytes mem' ws := List.foldlM_cons
    rw [writeEach, Prog.run_call, hwrite, hcons]
    cases busWriteByte mem w.1 w.2 with
    | none => rfl
    | some mem' => exact ih mem'

/-- The byte the loader makes of a token. -/
def tokenByte (longBits : Nat) (token : List Char) : U8 := .ofInt 8 (strtolHex longBits token)

theorem loadTokens_eq (loadAddr offset : U16) (tokens : List (List Char)) :
    loadTokens longBits loadAddr offset tokens =
      writeEach (bytesAt (loadAddr + offset) (tokens.map (tokenByte longBits))) := by
  induction tokens generalizing offset with
  | nil => rfl
  | cons t tokens ih =>
    refine congrArg (Prog.call _) (funext fun _ => ?_)
    rw [ih, ← BitVec.add_assoc]

/-! ## Plain text -/

/-- No character that ends a line, an address or a string. -/
def PlainText (s : List Char) : Prop := ∀ c ∈ ['\n', ':', '\x00'], c ∉ s

namespace PlainText

variable {s t : List Char}

theorem append (hs : PlainText s) (ht : PlainText t) : PlainText (s ++ t) := by
  intro c hc hmem
  rcases List.mem_append.mp hmem with hmem | hmem
  · exact hs c hc hmem
  · exact ht c hc hmem

theorem flatMap {α : Type} {f : α → List Char} {l : List α} (h : ∀ x ∈ l, PlainText (f x)) :
    PlainText (l.flatMap f) := by
  intro c hc hmem
  obtain ⟨x, hx, hmem⟩ := List.mem_flatMap.mp hmem
  exact h x hx c hc hmem

theorem take (hs : PlainText s) (k : Nat) : PlainText (s.take k) :=
  fun c hc hmem => hs c hc (List.mem_of_mem_take hmem)

theorem drop (hs : PlainText s) (k : Nat) : PlainText (s.drop k) :=
  fun c hc hmem => hs c hc (List.mem_of_mem_drop hmem)

theorem newline (hs : PlainText s) : '\n' ∉ s := hs '\n' (by simp)

theorem colon (hs : PlainText s) : ':' ∉ s := hs ':' (by simp)

theorem nul (hs : PlainText s) : '\x00' ∉ s := hs '\x00' (by simp)

end PlainText

/-! ## Pieces with and without a colon -/

/-- A piece without a colon stores nothing. -/
theorem loadLine_piece {piece : List Char} (hne : piece ≠ []) (hcolon : ':' ∉ piece)
    (hnul : '\x00' ∉ piece) : loadLine longBits piece = .ret (some ()) := by
  unfold loadLine
  rw [cString_eq hnul, strtok_last hne hcolon]
  rfl

/-- A piece that begins with its colon stores nothing: `strtok` skips it. -/
theorem loadLine_bare {w : List Char} (hne : w ≠ []) (hcolon : ':' ∉ w) (hnul : '\x00' ∉ w) :
    loadLine longBits (':' :: w) = .ret (some ()) := by
  have hstring : '\x00' ∉ ':' :: w := by simp [hnul]
  unfold loadLine
  rw [cString_eq hstring, strtok_delim, strtok_last hne hcolon]
  rfl

/-- A piece with an address and a colon stores a byte for each token after it. -/
theorem loadLine_colon {a w : List Char} (hne : a ≠ []) (hcolon : ':' ∉ a) (ha : '\x00' ∉ a)
    (hw : '\x00' ∉ w) :
    loadLine longBits (a ++ ':' :: w) =
      (writeEach (bytesAt (.ofInt 16 (strtolHex longBits a))
        ((strtokAll ' ' w).map (tokenByte longBits)))).bind fun _ => .ret (some ()) := by
  have hstring : '\x00' ∉ a ++ ':' :: w := by simp [ha, hw]
  have htoken : strtok ':' (a ++ ':' :: w) = some (a, w) := strtok_append hne hcolon (by simp)
  unfold loadLine
  rw [cString_eq hstring, htoken]
  dsimp only
  rw [loadTokens_eq]
  exact congrArg (fun b => (writeEach (bytesAt b _)).bind _) (BitVec.add_zero _)

/-- The pieces of a text without a colon store nothing. -/
theorem loadLines_pieces {l : List Char} {pieces lines : List (List Char)} (hl : PlainText l)
    (h : ∀ piece ∈ pieces, piece ≠ [] ∧ ∀ c ∈ piece, c ∈ l ∨ c = '\n') :
    loadLines longBits (pieces ++ lines) = loadLines longBits lines := by
  induction pieces with
  | nil => rfl
  | cons piece pieces ih =>
    obtain ⟨⟨hne, hchars⟩, hpieces⟩ := List.forall_mem_cons.mp h
    have hnot : ∀ c, c ∉ l → c ≠ '\n' → c ∉ piece := fun c hl hn hmem =>
      (hchars c hmem).elim hl hn
    have hpiece : loadLine longBits piece = .ret (some ()) :=
      loadLine_piece hne (hnot ':' hl.colon (by decide)) (hnot '\x00' hl.nul (by decide))
    rw [List.cons_append, loadLines, hpiece]
    exact ih hpieces

/-! ## A line, piece by piece -/

/-- What is stored of a line with `a` before the colon and `body` after it, for a buffer of
    `size`. -/
def pieceWrites (longBits size : Nat) (a body : List Char) : List (U16 × U8) :=
  let left := a.length % (size - 1)
  if left = 0 then []
  else
    bytesAt (.ofInt 16 (strtolHex longBits (a.drop (a.length - left))))
      ((strtokAll ' ' ((body ++ ['\n']).take (size - 1 - (left + 1)))).map (tokenByte longBits))

section Line

variable {size : Nat} {a body : List Char}

theorem take_line {c : Char} {k : Nat} (hlt : a.length < k) (s : List Char) :
    (a ++ c :: s).take k = a ++ c :: s.take (k - (a.length + 1)) := by
  obtain ⟨n, rfl⟩ := Nat.exists_eq_add_of_lt hlt
  rw [List.take_append, List.take_of_length_le (by omega),
    show a.length + n + 1 - a.length = n + 1 by omega,
    show a.length + n + 1 - (a.length + 1) = n by omega, List.take_succ_cons]

theorem drop_line {c : Char} {k : Nat} (hlt : a.length < k) (s : List Char) :
    (a ++ c :: s).drop k = s.drop (k - (a.length + 1)) := by
  obtain ⟨n, rfl⟩ := Nat.exists_eq_add_of_lt hlt
  rw [List.drop_append, List.drop_eq_nil_of_le (by omega),
    show a.length + n + 1 - a.length = n + 1 by omega,
    show a.length + n + 1 - (a.length + 1) = n by omega, List.drop_succ_cons, List.nil_append]

/-- A full buffer of `a` less leaves as much of it in the piece with the colon. -/
theorem pieceWrites_drop (hle : size - 1 ≤ a.length) :
    pieceWrites longBits size (a.drop (size - 1)) body = pieceWrites longBits size a body := by
  have hmod := Nat.mod_eq_sub_mod hle
  have hleft := Nat.mod_le (a.length - (size - 1)) (size - 1)
  unfold pieceWrites
  rw [List.length_drop, ← hmod]
  dsimp only
  rw [List.drop_drop, show size - 1 + (a.length - (size - 1) - a.length % (size - 1)) =
    a.length - a.length % (size - 1) by omega]

/-- All of `a` is in the piece with the colon if it is shorter than that. -/
theorem pieceWrites_of_lt (hne : a ≠ []) (hlt : a.length < size - 1) :
    pieceWrites longBits size a body =
      bytesAt (.ofInt 16 (strtolHex longBits a))
        ((strtokAll ' ' ((body ++ ['\n']).take (size - 1 - (a.length + 1)))).map
          (tokenByte longBits)) := by
  have hpos : a.length ≠ 0 := mt List.length_eq_zero_iff.mp hne
  unfold pieceWrites
  rw [Nat.mod_eq_of_lt hlt]
  dsimp only
  rw [if_neg hpos, Nat.sub_self, List.drop_zero]

theorem newline_not_mem (ha : PlainText a) (hbody : PlainText body) : '\n' ∉ a ++ ':' :: body := by
  simp [ha.newline, hbody.newline]

variable (hsize : 3 ≤ size) (ha : PlainText a) (hbody : PlainText body)
include hsize ha hbody

/-- The piece with the colon, where it begins with all of `a`. -/
theorem loadLine_first (hlt : a.length < size - 1) :
    loadLine longBits ((a ++ ':' :: body ++ ['\n']).take (size - 1)) =
      (writeEach (pieceWrites longBits size a body)).bind fun _ => .ret (some ()) := by
  -- what it has of the text after the colon
  have hwindow : ∀ c ∈ [':', '\x00'], c ∉ (body ++ ['\n']).take (size - 1 - (a.length + 1)) := by
    intro c hc hmem
    rcases List.mem_append.mp (List.mem_of_mem_take hmem) with hmem | hmem
    · exact hbody c (List.mem_cons_of_mem _ hc) hmem
    · rw [List.mem_singleton.mp hmem] at hc
      exact absurd hc (by decide)
  have hcolon := hwindow ':' (by simp)
  have hnul := hwindow '\x00' (by simp)
  rw [List.append_assoc, List.cons_append, take_line hlt]
  by_cases hne : a = []
  · subst hne
    have hsome : (body ++ ['\n']).take (size - 1 - 1) ≠ [] := by
      intro h
      rcases List.take_eq_nil_iff.mp h with h | h
      · omega
      · simp at h
    exact loadLine_bare hsome hcolon hnul
  · rw [pieceWrites_of_lt hne hlt]
    exact loadLine_colon hne ha.colon ha.nul hnul

/-- The line with that piece first: the others are of what is left of the bytes. -/
theorem loadLines_first (hlt : a.length < size - 1) (rest : List Char) :
    loadLines longBits (fgetsAll size (a ++ ':' :: body ++ '\n' :: rest)) =
      (writeEach (pieceWrites longBits size a body)).bind
        fun _ => loadLines longBits (fgetsAll size rest) := by
  obtain ⟨pieces, hpieces, hall⟩ :=
    fgetsAll_first (show 2 ≤ size by omega) (newline_not_mem ha hbody) rest
  rw [drop_line hlt] at hall
  rw [hpieces, loadLines, loadLine_first hsize ha hbody hlt, Prog.bind_assoc]
  exact congrArg (Prog.bind _) (funext fun _ => loadLines_pieces (hbody.drop _) hall)

/-- A full buffer of `a` is a piece that stores nothing. -/
theorem loadLines_full (hle : size - 1 ≤ a.length) (rest : List Char) :
    loadLines longBits (fgetsAll size (a ++ ':' :: body ++ '\n' :: rest)) =
      loadLines longBits (fgetsAll size (a.drop (size - 1) ++ ':' :: body ++ '\n' :: rest)) := by
  have hne : a.take (size - 1) ≠ [] := by
    intro h
    rcases List.take_eq_nil_iff.mp h with h | h
    · omega
    · rw [h, List.length_nil] at hle
      omega
  rw [fgetsAll_cut (by omega) (newline_not_mem ha hbody)
      (by rw [List.length_append]; omega), List.take_append_of_le_length hle,
    List.drop_append_of_le_length hle, loadLines,
    loadLine_piece hne (ha.take _).colon (ha.take _).nul]
  rfl

/-- **What the loader stores of a line**: what it makes of the piece with the colon. -/
theorem loadLines_line (rest : List Char) :
    loadLines longBits (fgetsAll size (a ++ ':' :: body ++ '\n' :: rest)) =
      (writeEach (pieceWrites longBits size a body)).bind
        fun _ => loadLines longBits (fgetsAll size rest) := by
  induction hlen : a.length using Nat.strongRecOn generalizing a with
  | ind m ih =>
    by_cases hlt : a.length < size - 1
    · exact loadLines_first hsize ha hbody hlt rest
    · have hle := Nat.le_of_not_lt hlt
      have hshorter : (a.drop (size - 1)).length < m := by
        rw [List.length_drop]
        omega
      rw [loadLines_full hsize ha hbody hle, ih _ hshorter (ha.drop _) rfl, pieceWrites_drop hle]

end Line

end M6502
