import Mathlib.Data.List.TakeWhile
import Mathlib.Data.Nat.Digits.Lemmas

/-!
# Text as the C library reads and writes it

The functions of `stdio.h`, `string.h` and `stdlib.h` that a line-oriented text format needs,
as the standard has them: `fgets` with its buffer size, `strtok` with one delimiter, `strtol`
to base 16, and the conversion `%0wX` of `printf`. A file is the list of its characters and a
buffer the list of those before the terminating one; a string in it ends at the first
`'\x00'`.

`fgets` and `strtok` are called until they return a null pointer; `repeated` is that loop.
-/

set_option autoImplicit false

namespace Lib

/-! ## Loops -/

section Repeated

variable {σ α : Type} {f : σ → Option (α × σ)}

/-- What calls of `f` return until there is nothing more, for at most `n` calls. -/
def repeated (f : σ → Option (α × σ)) : Nat → σ → List α
  | 0, _ => []
  | n + 1, s =>
    match f s with
    | none => []
    | some (a, s') => a :: repeated f n s'

/-- Where every call uses something up, `size` calls are enough. -/
theorem repeated_of_le {size : σ → Nat} (h : ∀ s a s', f s = some (a, s') → size s' < size s) :
    ∀ {n : Nat} {s : σ}, size s ≤ n → repeated f n s = repeated f (size s) s
  | 0, s, hn => by rw [Nat.le_zero.mp hn]
  | n + 1, s, hn => by
    cases hs : size s with
    | zero =>
      cases hf : f s with
      | none => simp only [repeated, hf]
      | some r =>
        have hlt := h s r.1 r.2 hf
        omega
    | succ m =>
      cases hf : f s with
      | none => simp only [repeated, hf]
      | some r =>
        have hlt := h s r.1 r.2 hf
        have hleft := repeated_of_le h (n := n) (s := r.2) (by omega)
        have hright := repeated_of_le h (n := m) (s := r.2) (by omega)
        simp only [repeated, hf, hleft, hright]

theorem repeated_none {n : Nat} {s : σ} (hf : f s = none) : repeated f n s = [] := by
  cases n with
  | zero => rfl
  | succ n => simp only [repeated, hf]

theorem repeated_some {size : σ → Nat} (h : ∀ s a s', f s = some (a, s') → size s' < size s)
    {s s' : σ} {a : α} (hf : f s = some (a, s')) :
    repeated f (size s) s = a :: repeated f (size s') s' := by
  rw [← repeated_of_le h (Nat.le_succ (size s))]
  simp only [repeated, hf, repeated_of_le h (Nat.le_of_lt (h s a s' hf))]

end Repeated

/-! ## `fgets` -/

/-- Up to `k` characters, none after the first newline. -/
def takeLine : Nat → List Char → List Char × List Char
  | 0, s => ([], s)
  | _ + 1, [] => ([], [])
  | k + 1, c :: s =>
    if c = '\n' then ([c], s) else (c :: (takeLine k s).1, (takeLine k s).2)

/-- `fgets(buffer, n, file)`: what it leaves in the buffer, and in the file. -/
def fgets (n : Nat) (file : List Char) : Option (List Char × List Char) :=
  if file = [] then none else some (takeLine (n - 1) file)

/-- `while (fgets(buffer, n, file))` -/
def fgetsAll (n : Nat) (file : List Char) : List (List Char) :=
  repeated (fgets n) file.length file

/-! ## `strtok` -/

/-- The string a buffer holds. -/
def cString (buffer : List Char) : List Char := buffer.takeWhile (· ≠ '\x00')

/-- `strtok` with the delimiter `d`: the token, and what the next call goes on with. -/
def strtok (d : Char) (s : List Char) : Option (List Char × List Char) :=
  match s.dropWhile (· = d) with
  | [] => none
  | c :: s => some ((c :: s).takeWhile (· ≠ d), ((c :: s).dropWhile (· ≠ d)).tail)

/-- The tokens up to the first null pointer. -/
def strtokAll (d : Char) (s : List Char) : List (List Char) := repeated (strtok d) s.length s

/-! ## `strtol` -/

def isSpace (c : Char) : Bool := c ∈ [' ', '\t', '\n', '\x0b', '\x0c', '\r']

def hexDigit? (c : Char) : Option Nat :=
  if '0' ≤ c ∧ c ≤ '9' then some (c.toNat - '0'.toNat)
  else if 'a' ≤ c ∧ c ≤ 'f' then some (c.toNat - 'a'.toNat + 10)
  else if 'A' ≤ c ∧ c ≤ 'F' then some (c.toNat - 'A'.toNat + 10)
  else none

/-- The digits up to the first character that is none, after `n`. -/
def hexValue : Nat → List Char → Nat
  | n, [] => n
  | n, c :: s =>
    match hexDigit? c with
    | none => n
    | some d => hexValue (16 * n + d) s

/-- The prefix `0x`, where there is one. Without digits after it, it stands for zero too. -/
def dropHexPrefix : List Char → List Char
  | '0' :: 'x' :: s | '0' :: 'X' :: s => s
  | s => s

/-- `strtol(s, NULL, 16)` for a `long` of `bits` bits. -/
def strtolHex (bits : Nat) (s : List Char) : Int :=
  let n : Int :=
    match s.dropWhile isSpace with
    | '-' :: s => -hexValue 0 (dropHexPrefix s)
    | '+' :: s => hexValue 0 (dropHexPrefix s)
    | s => hexValue 0 (dropHexPrefix s)
  max (-2 ^ (bits - 1)) (min n (2 ^ (bits - 1) - 1))

/-! ## `printf` -/

def hexUpper (d : Nat) : Char :=
  if d < 10 then Char.ofNat ('0'.toNat + d) else Char.ofNat ('A'.toNat + (d - 10))

/-- `%0wX`, for a width of at least one. -/
def printX (width n : Nat) : List Char :=
  ((Nat.digits 16 n).reverse.leftpad width 0).map hexUpper

/-! ## Reading lines -/

theorem takeLine_length : ∀ (k : Nat) (s : List Char),
    (takeLine k s).1.length + (takeLine k s).2.length = s.length
  | 0, _ => Nat.zero_add _
  | _ + 1, [] => rfl
  | k + 1, c :: s => by
    have ih := takeLine_length k s
    unfold takeLine
    split
    · simp only [List.length_cons, List.length_nil]
      omega
    · simp only [List.length_cons]
      omega

/-- A line that is short enough is read as it is. -/
theorem takeLine_line {l rest : List Char} (hl : '\n' ∉ l) {k : Nat} (hk : l.length < k) :
    takeLine k (l ++ '\n' :: rest) = (l ++ ['\n'], rest) := by
  induction l generalizing k with
  | nil =>
    obtain ⟨k, rfl⟩ := Nat.exists_eq_add_of_lt hk
    simp [takeLine]
  | cons c l ih =>
    obtain ⟨hc, hl⟩ := not_or.mp (mt List.mem_cons.mpr hl)
    cases k with
    | zero => exact absurd hk (Nat.not_lt_zero _)
    | succ k =>
      have hrest := ih hl (Nat.lt_of_succ_lt_succ hk)
      simp [takeLine, Ne.symm hc, hrest]

/-- A line that is too long is cut. -/
theorem takeLine_full {l rest : List Char} (hl : '\n' ∉ l) :
    takeLine l.length (l ++ rest) = (l, rest) := by
  induction l with
  | nil => rfl
  | cons c l ih =>
    obtain ⟨hc, hl⟩ := not_or.mp (mt List.mem_cons.mpr hl)
    simp [takeLine, Ne.symm hc, ih hl]

section Fgets

variable {n : Nat} (hn : 2 ≤ n)
include hn

theorem fgets_shorter {s l s' : List Char} (h : fgets n s = some (l, s')) :
    s'.length < s.length := by
  unfold fgets at h
  cases s with
  | nil => exact absurd h (by simp)
  | cons c s =>
    obtain ⟨m, rfl⟩ : ∃ m, n = m + 2 := ⟨n - 2, by omega⟩
    rw [if_neg (List.cons_ne_nil c s), Option.some_inj] at h
    have hlen := takeLine_length m s
    have hs' : s' = (takeLine (m + 1) (c :: s)).2 := by
      rw [show m + 1 = m + 2 - 1 by omega, h]
    rw [hs', takeLine]
    split
    · exact Nat.lt_succ_self _
    · simp only [List.length_cons]
      omega

theorem fgetsAll_some {s l s' : List Char} (h : fgets n s = some (l, s')) :
    fgetsAll n s = l :: fgetsAll n s' :=
  repeated_some (fun _ _ _ h => fgets_shorter hn h) h

theorem fgetsAll_line {l rest : List Char} (hl : '\n' ∉ l) (hlen : l.length + 1 < n) :
    fgetsAll n (l ++ '\n' :: rest) = (l ++ ['\n']) :: fgetsAll n rest := by
  have hget : fgets n (l ++ '\n' :: rest) = some (l ++ ['\n'], rest) := by
    unfold fgets
    rw [if_neg (by simp), takeLine_line hl (by omega)]
  exact fgetsAll_some hn hget

theorem fgetsAll_full {l rest : List Char} (hl : '\n' ∉ l) (hlen : l.length + 1 = n) :
    fgetsAll n (l ++ rest) = l :: fgetsAll n rest := by
  have hne : l ++ rest ≠ [] := by
    intro h
    rw [(List.append_eq_nil_iff.mp h).1] at hlen
    simp only [List.length_nil] at hlen
    omega
  have hget : fgets n (l ++ rest) = some (l, rest) := by
    unfold fgets
    rw [if_neg hne, ← hlen, Nat.add_sub_cancel, takeLine_full hl]
  exact fgetsAll_some hn hget

/-- Where the buffer is full before the line ends, the rest is read as a line of its own. -/
theorem fgetsAll_cut {l rest : List Char} (hl : '\n' ∉ l) (hlen : n ≤ l.length + 1) :
    fgetsAll n (l ++ '\n' :: rest) =
      l.take (n - 1) :: fgetsAll n (l.drop (n - 1) ++ '\n' :: rest) := by
  have htake : '\n' ∉ l.take (n - 1) := fun h => hl (List.mem_of_mem_take h)
  have hfull : (l.take (n - 1)).length + 1 = n := by
    rw [List.length_take]
    omega
  have hcut : fgetsAll n (l.take (n - 1) ++ (l.drop (n - 1) ++ '\n' :: rest)) =
      l.take (n - 1) :: fgetsAll n (l.drop (n - 1) ++ '\n' :: rest) :=
    fgetsAll_full hn htake hfull
  rwa [← List.append_assoc, List.take_append_drop] at hcut

/-- Whatever its length, a line is read in pieces, and what follows it begins a new one. -/
theorem fgetsAll_pieces {l : List Char} (hl : '\n' ∉ l) (rest : List Char) :
    ∃ pieces, fgetsAll n (l ++ '\n' :: rest) = pieces ++ fgetsAll n rest ∧
      ∀ piece ∈ pieces, piece ≠ [] ∧ ∀ c ∈ piece, c ∈ l ∨ c = '\n' := by
  induction hlen : l.length using Nat.strongRecOn generalizing l with
  | ind m ih =>
    by_cases hshort : l.length + 1 < n
    · refine ⟨[l ++ ['\n']], fgetsAll_line hn hl hshort, fun piece hp => ?_⟩
      rw [List.mem_singleton.mp hp]
      exact ⟨by simp, fun c hc => by simpa using hc⟩
    -- the buffer is full before the line ends; the rest of the line is shorter
    · have hdrop : '\n' ∉ l.drop (n - 1) := fun h => hl (List.mem_of_mem_drop h)
      obtain ⟨pieces, heq, hall⟩ :=
        ih (l.drop (n - 1)).length (by rw [List.length_drop]; omega) hdrop rfl
      refine ⟨l.take (n - 1) :: pieces, ?_, fun piece hp => ?_⟩
      · rw [fgetsAll_cut hn hl (by omega), heq, List.cons_append]
      · rcases List.mem_cons.mp hp with rfl | hp
        · refine ⟨fun h => ?_, fun c hc => .inl (List.mem_of_mem_take hc)⟩
          have hzero := congrArg List.length h
          rw [List.length_take, List.length_nil] at hzero
          omega
        · obtain ⟨hne, hc⟩ := hall piece hp
          exact ⟨hne, fun c h => (hc c h).imp_left List.mem_of_mem_drop⟩

/-- The first piece is what the buffer holds of the line; the others are of what is left. -/
theorem fgetsAll_first {l : List Char} (hl : '\n' ∉ l) (rest : List Char) :
    ∃ pieces, fgetsAll n (l ++ '\n' :: rest) =
        (l ++ ['\n']).take (n - 1) :: (pieces ++ fgetsAll n rest) ∧
      ∀ piece ∈ pieces, piece ≠ [] ∧ ∀ c ∈ piece, c ∈ l.drop (n - 1) ∨ c = '\n' := by
  by_cases hshort : l.length + 1 < n
  · refine ⟨[], ?_, fun piece hp => absurd hp List.not_mem_nil⟩
    have hwhole : (l ++ ['\n']).length ≤ n - 1 := by
      simp only [List.length_append, List.length_singleton]
      omega
    rw [fgetsAll_line hn hl hshort, List.take_of_length_le hwhole, List.nil_append]
  · have hdrop : '\n' ∉ l.drop (n - 1) := fun h => hl (List.mem_of_mem_drop h)
    obtain ⟨pieces, hpieces, hall⟩ := fgetsAll_pieces hn hdrop rest
    refine ⟨pieces, ?_, hall⟩
    rw [fgetsAll_cut hn hl (by omega), hpieces, List.take_append_of_le_length (by omega)]

end Fgets

/-! ## Reading tokens -/

section Strtok

variable {d : Char} {t s : List Char}

theorem cString_eq {s : List Char} (h : '\x00' ∉ s) : cString s = s := by
  have hall : ∀ c ∈ s, decide (c ≠ '\x00') = true :=
    fun c hc => decide_eq_true fun he : c = '\x00' => h (he ▸ hc)
  exact List.takeWhile_eq_self_iff.mpr hall

theorem strtok_delim (d : Char) (s : List Char) : strtok d (d :: s) = strtok d s := by
  simp [strtok]

/-- A token, up to a delimiter or the end. -/
theorem strtok_append (ht : t ≠ []) (hd : d ∉ t) (hs : ∀ c ∈ s.head?, c = d) :
    strtok d (t ++ s) = some (t, s.tail) := by
  obtain ⟨c, t, rfl⟩ := List.exists_cons_of_ne_nil ht
  obtain ⟨hc, htail⟩ := not_or.mp (mt List.mem_cons.mpr hd)
  have hall : ∀ x ∈ t, (!decide (x = d)) = true := by
    intro x hx
    rw [decide_eq_false fun he : x = d => htail (he ▸ hx)]
    rfl
  cases s with
  | nil =>
    have htake := List.takeWhile_eq_self_iff.mpr hall
    have hdrop := List.dropWhile_eq_nil_iff.mpr hall
    simp [strtok, Ne.symm hc, htake, hdrop]
  | cons x s =>
    obtain rfl : x = d := hs x rfl
    simp [strtok, Ne.symm hc, List.takeWhile_append_of_pos hall,
      List.dropWhile_append_of_pos hall]

theorem strtok_last (ht : t ≠ []) (hd : d ∉ t) : strtok d t = some (t, []) := by
  have hlast := strtok_append ht hd (s := []) (by simp)
  rwa [List.append_nil] at hlast

theorem strtok_shorter {u s' : List Char} (h : strtok d s = some (u, s')) :
    s'.length < s.length := by
  have hle := (List.dropWhile_suffix (fun c => decide (c = d)) (l := s)).length_le
  unfold strtok at h
  cases hs : s.dropWhile (fun c => decide (c = d)) with
  | nil =>
    rw [hs] at h
    exact absurd h (by simp)
  | cons c rest =>
    rw [hs] at h hle
    obtain ⟨-, rfl⟩ := Prod.mk.inj (Option.some.inj h)
    have hle' := (List.dropWhile_suffix (fun x => decide (x ≠ d)) (l := c :: rest)).length_le
    rw [List.length_tail]
    simp only [List.length_cons] at hle hle'
    omega

theorem strtokAll_some {u s' : List Char} (h : strtok d s = some (u, s')) :
    strtokAll d s = u :: strtokAll d s' :=
  repeated_some (fun _ _ _ h => strtok_shorter h) h

theorem strtokAll_delim (d : Char) (s : List Char) : strtokAll d (d :: s) = strtokAll d s := by
  have hskip := strtok_delim d s
  cases hs : strtok d s with
  | none =>
    rw [hs] at hskip
    exact (repeated_none hskip).trans (repeated_none hs).symm
  | some r =>
    rw [hs] at hskip
    rw [strtokAll_some hskip, strtokAll_some hs]

theorem strtokAll_token (ht : t ≠ []) (hd : d ∉ t) :
    strtokAll d (t ++ d :: s) = t :: strtokAll d s :=
  strtokAll_some (strtok_append ht hd (by simp))

theorem strtokAll_last (ht : t ≠ []) (hd : d ∉ t) : strtokAll d t = [t] :=
  strtokAll_some (strtok_last ht hd)

theorem strtokAll_append (ht : t ≠ []) (hd : d ∉ t) (hs : ∀ c ∈ s.head?, c = d) :
    strtokAll d (t ++ s) = t :: strtokAll d s := by
  cases s with
  | nil => rw [List.append_nil, strtokAll_last ht hd]; rfl
  | cons c s =>
    obtain rfl : c = d := hs c rfl
    rw [strtokAll_token ht hd, strtokAll_delim]

theorem strtokAll_replicate (d : Char) (n : Nat) (s : List Char) :
    strtokAll d (List.replicate n d ++ s) = strtokAll d s := by
  induction n with
  | zero => rfl
  | succ n ih => rw [List.replicate_succ, List.cons_append, strtokAll_delim, ih]

end Strtok

/-! ## Numbers -/

theorem hexUpper_spec : ∀ d < 16, hexDigit? (hexUpper d) = some d ∧ isSpace (hexUpper d) = false ∧
    hexUpper d ∉ ['-', '+', 'x', 'X', ':', '\x00'] := by
  decide

/-- The number written with the digits `ds`. -/
theorem hexValue_map {ds : List Nat} (h : ∀ d ∈ ds, d < 16) (n : Nat) :
    hexValue n (ds.map hexUpper) = 16 ^ ds.length * n + Nat.ofDigits 16 ds.reverse := by
  induction ds generalizing n with
  | nil => simp [hexValue]
  | cons d ds ih =>
    obtain ⟨hd, hds⟩ := List.forall_mem_cons.mp h
    simp only [List.map_cons, hexValue, (hexUpper_spec d hd).1, ih hds, List.reverse_cons,
      Nat.ofDigits_append, Nat.ofDigits_singleton, List.length_reverse, List.length_cons]
    ring

/-- What `printX` prints, where the width is enough. -/
theorem printX_spec {w n : Nat} (hn : n < 16 ^ w) :
    ∃ ds : List Nat, printX w n = ds.map hexUpper ∧ ds.length = w ∧ (∀ d ∈ ds, d < 16) ∧
      Nat.ofDigits 16 ds.reverse = n := by
  refine ⟨(Nat.digits 16 n).reverse.leftpad w 0, rfl, ?_, ?_, ?_⟩
  · have hlen := (Nat.digits_length_le_iff (by simp) n).mpr hn
    simp only [List.length_leftpad, List.length_reverse]
    omega
  · intro d hd
    rcases List.mem_append.mp hd with hd | hd
    · rw [(List.mem_replicate.mp hd).2]
      simp
    · exact Nat.digits_lt_base (by simp) (List.mem_reverse.mp hd)
  · unfold List.leftpad
    rw [List.reverse_append, List.reverse_reverse, List.reverse_replicate,
      Nat.ofDigits_append_replicate_zero, Nat.ofDigits_digits]

theorem mem_map_hexUpper {ds : List Nat} (h : ∀ d ∈ ds, d < 16) {c : Char}
    (hc : c ∈ ds.map hexUpper) :
    isSpace c = false ∧ c ∉ ['-', '+', 'x', 'X', ':', '\x00'] := by
  obtain ⟨d, hd, rfl⟩ := List.mem_map.mp hc
  exact (hexUpper_spec d (h d hd)).2

/-- Every character is a digit, of either case. -/
def IsHex (s : List Char) : Prop := ∀ c ∈ s, (hexDigit? c).isSome

instance (s : List Char) : Decidable (IsHex s) := List.decidableBAll _ s

theorem isHex_map {ds : List Nat} (h : ∀ d ∈ ds, d < 16) : IsHex (ds.map hexUpper) := by
  intro c hc
  obtain ⟨d, hd, rfl⟩ := List.mem_map.mp hc
  rw [(hexUpper_spec d (h d hd)).1]
  rfl

theorem not_hexDigit : ∀ c ∈ [' ', '\t', '\n', '\x0b', '\x0c', '\r', '-', '+', 'x', 'X', ':',
    '\x00'], hexDigit? c = none := by
  simp only [List.forall_mem_cons]
  exact ⟨rfl, rfl, rfl, rfl, rfl, rfl, rfl, rfl, rfl, rfl, rfl, rfl,
    fun _ hc => absurd hc List.not_mem_nil⟩

theorem IsHex.not_mem {s : List Char} (hs : IsHex s) {c : Char} (hc : hexDigit? c = none) :
    c ∉ s := by
  intro hmem
  have hsome := hs c hmem
  rw [hc] at hsome
  cases hsome

theorem isSpace_cases {c : Char} (h : isSpace c) :
    c = ' ' ∨ c = '\t' ∨ c = '\n' ∨ c = '\x0b' ∨ c = '\x0c' ∨ c = '\r' := by
  simpa [isSpace] using h

theorem hexDigit_space {c : Char} (h : isSpace c) : hexDigit? c = none := by
  refine not_hexDigit c ?_
  rcases isSpace_cases h with rfl | rfl | rfl | rfl | rfl | rfl <;> simp

theorem hexValue_append {s : List Char} (hs : IsHex s) (n : Nat) (t : List Char) :
    hexValue n (s ++ t) = hexValue (hexValue n s) t := by
  induction s generalizing n with
  | nil => rfl
  | cons c s ih =>
    obtain ⟨hc, hs⟩ := List.forall_mem_cons.mp hs
    obtain ⟨d, hd⟩ := Option.isSome_iff_exists.mp hc
    simp only [List.cons_append, hexValue, hd, ih hs]

theorem hexValue_nondigit {c : Char} (hc : hexDigit? c = none) (n : Nat) (s : List Char) :
    hexValue n (c :: s) = n := by
  simp only [hexValue, hc]

theorem hexValue_spaces {z : List Char} (hz : ∀ c ∈ z, isSpace c) (n : Nat) : hexValue n z = n := by
  cases z with
  | nil => rfl
  | cons c z => exact hexValue_nondigit (hexDigit_space (hz c List.mem_cons_self)) n z

theorem le_hexValue (n : Nat) (s : List Char) : n ≤ hexValue n s := by
  induction s generalizing n with
  | nil => exact Nat.le_refl n
  | cons c s ih =>
    cases hd : hexDigit? c with
    | none => simp only [hexValue, hd, Nat.le_refl]
    | some d =>
      have hle := ih (16 * n + d)
      simp only [hexValue, hd]
      omega

/-- Digits that come after a number other than zero change it. -/
theorem hexValue_eq_self {s : List Char} (hs : IsHex s) (hne : s ≠ []) {n : Nat}
    (h : hexValue n s = n) : n = 0 := by
  obtain ⟨c, s, rfl⟩ := List.exists_cons_of_ne_nil hne
  obtain ⟨d, hd⟩ := Option.isSome_iff_exists.mp (hs c List.mem_cons_self)
  have hle := le_hexValue (16 * n + d) s
  simp only [hexValue, hd] at h
  omega

theorem IsHex.take {s : List Char} (hs : IsHex s) (j : Nat) : IsHex (s.take j) :=
  fun c hc => hs c (List.mem_of_mem_take hc)

theorem IsHex.drop {s : List Char} (hs : IsHex s) (j : Nat) : IsHex (s.drop j) :=
  fun c hc => hs c (List.mem_of_mem_drop hc)

theorem hexValue_split {s : List Char} (hs : IsHex s) (j : Nat) :
    hexValue 0 s = hexValue (hexValue 0 (s.take j)) (s.drop j) := by
  rw [← hexValue_append (hs.take j), List.take_append_drop]

theorem hexValue_take_le {s : List Char} (hs : IsHex s) (j : Nat) :
    hexValue 0 (s.take j) ≤ hexValue 0 s := by
  rw [hexValue_split hs j]
  exact le_hexValue _ _

/-- Of a number that is cut, what is left has the same value only if it is zero. -/
theorem hexValue_take_eq_iff {s : List Char} (hs : IsHex s) {j : Nat} (hj : j < s.length) :
    hexValue 0 (s.take j) = hexValue 0 s ↔ hexValue 0 s = 0 := by
  constructor
  · intro h
    have hdrop : s.drop j ≠ [] := fun h => by
      have hzero := congrArg List.length h
      rw [List.length_drop, List.length_nil] at hzero
      omega
    have hsplit := hexValue_split hs j
    rw [h] at hsplit
    exact hexValue_eq_self (hs.drop j) hdrop hsplit.symm
  · intro h
    have hle := hexValue_take_le hs j
    omega

/-- The value before the digits only adds to theirs. -/
theorem hexValue_mono {m n : Nat} (h : m ≤ n) (s : List Char) : hexValue m s ≤ hexValue n s := by
  induction s generalizing m n with
  | nil => exact h
  | cons c s ih =>
    cases hd : hexDigit? c with
    | none => simpa only [hexValue, hd] using h
    | some d =>
      simp only [hexValue, hd]
      exact ih (by omega)

theorem hexValue_drop_le {s : List Char} (hs : IsHex s) (j : Nat) :
    hexValue 0 (s.drop j) ≤ hexValue 0 s := by
  rw [hexValue_split hs j]
  exact hexValue_mono (Nat.zero_le _) _

/-- A `long` that fits is not clamped. -/
theorem clamp_eq {n k : Int} (hn : 0 ≤ n) (hk : n < k) : max (-k) (min n (k - 1)) = n := by
  omega

theorem dropHexPrefix_eq {s : List Char} (hx : 'x' ∉ s) (hX : 'X' ∉ s) : dropHexPrefix s = s := by
  unfold dropHexPrefix
  split
  · exact absurd (by simp) hx
  · exact absurd (by simp) hX
  · rfl

/-- Where no space comes first, and there is no sign and no prefix, the digits are read. -/
theorem strtolHex_plain {bits : Nat} {s : List Char} (hspace : ∀ c ∈ s.head?, isSpace c = false)
    (hnot : ∀ c ∈ ['-', '+', 'x', 'X'], c ∉ s) (hfits : hexValue 0 s < 2 ^ (bits - 1)) :
    strtolHex bits s = hexValue 0 s := by
  have hdrop : s.dropWhile isSpace = s := by
    cases s with
    | nil => rfl
    | cons c s => simp [hspace c rfl]
  unfold strtolHex
  rw [hdrop]
  split
  · exact absurd (by simp) (hnot '-' (by simp))
  · exact absurd (by simp) (hnot '+' (by simp))
  · rw [dropHexPrefix_eq (hnot 'x' (by simp)) (hnot 'X' (by simp))]
    exact clamp_eq (Int.natCast_nonneg _) (by exact_mod_cast hfits)

section Strtol

variable {bits : Nat} {s z : List Char} (hs : IsHex s) (hz : ∀ c ∈ z, isSpace c)
  (hfits : hexValue 0 s < 2 ^ (bits - 1))
include hs hz hfits

/-- Digits are read up to the space after them. -/
theorem strtolHex_digits : strtolHex bits (s ++ z) = hexValue 0 s := by
  have hvalue : hexValue 0 (s ++ z) = hexValue 0 s := by
    rw [hexValue_append hs, hexValue_spaces hz]
  have hnot : ∀ c ∈ ['-', '+', 'x', 'X'], c ∉ s ++ z := by
    intro c hc hmem
    simp only [List.mem_cons, List.not_mem_nil, or_false] at hc
    rcases List.mem_append.mp hmem with hmem | hmem
    · rcases hc with rfl | rfl | rfl | rfl <;> exact hs.not_mem (by decide) hmem
    · have hspace := hz c hmem
      rcases hc with rfl | rfl | rfl | rfl <;> exact absurd hspace (by decide)
  cases s with
  | nil =>
    have hblank : z.dropWhile isSpace = [] := List.dropWhile_eq_nil_iff.mpr hz
    unfold strtolHex
    rw [List.nil_append, hblank]
    exact clamp_eq (Int.le_refl 0) (by positivity)
  | cons c s =>
    have hfirst : ∀ d ∈ (c :: s ++ z).head?, isSpace d = false := by
      intro d hd
      obtain rfl : c = d := Option.some.inj hd
      by_contra h
      exact hs.not_mem (hexDigit_space (by simpa using h)) List.mem_cons_self
    rw [strtolHex_plain hfirst hnot (by rwa [hvalue]), hvalue]

/-- After a prefix the same digits are read. -/
theorem strtolHex_prefixed {x : Char} (hx : x = 'x' ∨ x = 'X') :
    strtolHex bits ('0' :: x :: (s ++ z)) = hexValue 0 s := by
  have hspace : ('0' :: x :: (s ++ z)).dropWhile isSpace = '0' :: x :: (s ++ z) := by
    simp [isSpace]
  have hdigits : dropHexPrefix ('0' :: x :: (s ++ z)) = s ++ z := by
    rcases hx with rfl | rfl <;> rfl
  unfold strtolHex
  rw [hspace]
  show max _ (min ((hexValue 0 (dropHexPrefix ('0' :: x :: (s ++ z))) : Nat) : Int) _) = _
  rw [hdigits, hexValue_append hs, hexValue_spaces hz]
  exact clamp_eq (Int.natCast_nonneg _) (by exact_mod_cast hfits)

end Strtol

/-! ## What is printed is read back -/

section Printed

variable {bits w n : Nat} (hn : n < 16 ^ w)
include hn

theorem length_printX : (printX w n).length = w := by
  obtain ⟨ds, hprint, hlen, -, -⟩ := printX_spec hn
  rw [hprint, List.length_map, hlen]

theorem isHex_printX : IsHex (printX w n) := by
  obtain ⟨ds, hprint, -, hds, -⟩ := printX_spec hn
  rw [hprint]
  exact isHex_map hds

theorem hexValue_printX : hexValue 0 (printX w n) = n := by
  obtain ⟨ds, hprint, -, hds, hvalue⟩ := printX_spec hn
  rw [hprint, hexValue_map hds, Nat.mul_zero, Nat.zero_add, hvalue]

theorem mem_printX {c : Char} (hc : c ∈ printX w n) :
    isSpace c = false ∧ c ∉ ['-', '+', 'x', 'X', ':', '\x00'] := by
  obtain ⟨ds, hprint, -, hds, -⟩ := printX_spec hn
  rw [hprint] at hc
  exact mem_map_hexUpper hds hc

theorem strtolHex_printX (hfits : n < 2 ^ (bits - 1)) : strtolHex bits (printX w n) = n := by
  have hread : strtolHex bits (printX w n ++ []) = hexValue 0 (printX w n) :=
    strtolHex_digits (isHex_printX hn) (by simp) (by rwa [hexValue_printX hn])
  rwa [hexValue_printX hn, List.append_nil] at hread

theorem strtolHex_prefix_printX (hfits : n < 2 ^ (bits - 1)) :
    strtolHex bits ('0' :: 'x' :: printX w n) = n := by
  have hread : strtolHex bits ('0' :: 'x' :: (printX w n ++ [])) = hexValue 0 (printX w n) :=
    strtolHex_prefixed (isHex_printX hn) (by simp) (by rwa [hexValue_printX hn]) (.inl rfl)
  rwa [hexValue_printX hn, List.append_nil] at hread

end Printed

/-- Space alone is read as zero. -/
theorem strtolHex_newline (bits : Nat) : strtolHex bits ['\n'] = 0 := by
  have hnone : IsHex [] := fun _ h => absurd h List.not_mem_nil
  exact strtolHex_digits hnone (z := ['\n']) (by simp [isSpace]) (show 0 < _ by positivity)

/-! ## Numbers in a file -/

/-- A number below `bound` in hexadecimal: with or without `0x`, the digits of either case, as
    many as one likes. -/
structure HexText (bound : Nat) where
  lead : List Char
  digits : List Char
  lead_mem : lead ∈ [[], ['0', 'x'], ['0', 'X']]
  digits_ne : digits ≠ []
  isHex : IsHex digits
  value_lt : hexValue 0 digits < bound

namespace HexText

variable {bound bits : Nat} (t : HexText bound)

def text : List Char := t.lead ++ t.digits

def value : Nat := hexValue 0 t.digits

theorem lt_bound : t.value < bound := t.value_lt

/-- The value of the digits from character `k` of the text on. -/
def valueFrom (k : Nat) : Nat := hexValue 0 (t.digits.drop (k - t.lead.length))

theorem valueFrom_zero : t.valueFrom 0 = t.value := by
  rw [valueFrom, Nat.zero_sub, List.drop_zero, value]

theorem lead_cases : t.lead = [] ∨ ∃ x, (x = 'x' ∨ x = 'X') ∧ t.lead = ['0', x] := by
  have hmem := t.lead_mem
  simp only [List.mem_cons, List.not_mem_nil, or_false] at hmem
  rcases hmem with h | h | h
  · exact .inl h
  · exact .inr ⟨'x', .inl rfl, h⟩
  · exact .inr ⟨'X', .inr rfl, h⟩

theorem lead_length_le : t.lead.length ≤ 2 := by
  rcases t.lead_cases with h | ⟨x, -, h⟩ <;> simp [h]

theorem digits_length_pos : 0 < t.digits.length := List.length_pos_iff.mpr t.digits_ne

theorem text_ne : t.text ≠ [] := by
  unfold text
  simp [t.digits_ne]

/-- It is written with digits and, in its prefix, with an `x`. -/
theorem not_mem_text {c : Char} (hc : hexDigit? c = none) (hx : c ≠ 'x') (hX : c ≠ 'X') :
    c ∉ t.text := by
  have hzero : c ≠ '0' := by
    rintro rfl
    exact absurd hc (by decide)
  have hdigits := t.isHex.not_mem hc
  unfold text
  rcases t.lead_cases with h | ⟨x, rfl | rfl, h⟩ <;> simp [h, hdigits, hzero, hx, hX]

theorem space_not_mem : ' ' ∉ t.text := t.not_mem_text (by decide) (by decide) (by decide)

section

variable (hfits : bound ≤ 2 ^ (bits - 1))
include hfits

/-- Of a text that is cut, `strtol` reads the digits that are left. -/
theorem strtolHex_take (j : Nat) :
    strtolHex bits (t.text.take j) = hexValue 0 (t.digits.take (j - t.lead.length)) := by
  have hlt : ∀ i, hexValue 0 (t.digits.take i) < 2 ^ (bits - 1) := fun i =>
    Nat.lt_of_lt_of_le (Nat.lt_of_le_of_lt (hexValue_take_le t.isHex i) t.value_lt) hfits
  have hread := strtolHex_digits (t.isHex.take (j - t.lead.length)) (z := []) (by simp) (hlt _)
  rw [List.append_nil] at hread
  unfold text
  rcases t.lead_cases with h | ⟨x, hx, h⟩
  · rw [h] at hread ⊢
    exact hread
  · have hprefixed := strtolHex_prefixed (t.isHex.take (j - t.lead.length)) (z := []) (by simp)
      (hlt _) hx
    rw [List.append_nil] at hprefixed
    rw [h] at hread hprefixed ⊢
    -- the cut can be inside the prefix; `0` and `0x` alone stand for zero
    match j with
    | 0 => exact hread
    | 1 =>
      have hone : strtolHex bits (['0'] ++ []) = hexValue 0 ['0'] :=
        strtolHex_digits (List.forall_mem_singleton.mpr rfl) (by simp) (show 0 < _ by positivity)
      exact hone
    | j + 2 => exact hprefixed

/-- Space after it is not read. -/
theorem strtolHex_spaces {z : List Char} (hz : ∀ c ∈ z, isSpace c) :
    strtolHex bits (t.text ++ z) = t.value := by
  have hlt : hexValue 0 t.digits < 2 ^ (bits - 1) := Nat.lt_of_lt_of_le t.value_lt hfits
  unfold text value
  rcases t.lead_cases with h | ⟨x, hx, h⟩
  · rw [h]
    exact strtolHex_digits t.isHex hz hlt
  · rw [h]
    exact strtolHex_prefixed t.isHex hz hlt hx

/-- What is left after its first characters is read as digits, if the prefix is among those. -/
theorem strtolHex_drop {k : Nat} (hk : k = 0 ∨ t.lead.length ≤ k) :
    strtolHex bits (t.text.drop k) = t.valueFrom k := by
  rcases hk with rfl | hk
  · have hwhole := t.strtolHex_spaces hfits (z := []) (by simp)
    rw [List.append_nil] at hwhole
    rw [List.drop_zero, hwhole, valueFrom_zero]
  · have hlt := Nat.lt_of_lt_of_le
      (Nat.lt_of_le_of_lt (hexValue_drop_le t.isHex (k - t.lead.length)) t.value_lt) hfits
    have hread := strtolHex_digits (t.isHex.drop (k - t.lead.length)) (z := []) (by simp) hlt
    rw [List.append_nil] at hread
    rw [text, List.drop_append, List.drop_eq_nil_of_le hk, List.nil_append, hread, valueFrom]

end

theorem valueFrom_lt (k : Nat) : t.valueFrom k < bound :=
  Nat.lt_of_le_of_lt (hexValue_drop_le t.isHex _) t.value_lt

/-- A text that is cut has its value only if that is zero. -/
theorem value_take_iff {j : Nat} (hj : j < t.text.length) :
    hexValue 0 (t.digits.take (j - t.lead.length)) = t.value ↔ t.value = 0 := by
  have hpos := t.digits_length_pos
  rw [text, List.length_append] at hj
  exact hexValue_take_eq_iff t.isHex (by omega)

end HexText

end Lib
