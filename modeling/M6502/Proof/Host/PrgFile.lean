import M6502.Proof.Host.PrgPieces

/-!
# What the loader stores of a file that was written

A line of a program file fits the loader's buffer for up to 18 bytes. Then its last token is
the newline, which `strtol` reads as zero: a byte too many. A longer line is cut after the
first digit of its byte 18, and what is left of it has no colon, so nothing of it is stored.
Either way the loader stores the first 18 bytes and one more (`lineBytes`).
-/

set_option autoImplicit false

namespace M6502

open Lib

variable {longBits : Nat}

/-! ## The text of a segment -/

/-- What is printed for a byte. -/
def byteText (v : U8) : List Char := printX 2 v.toNat ++ [' ']

def addressText (a : U16) : List Char := '0' :: 'x' :: printX 4 a.toNat

/-- The line of a segment, without its newline. -/
def lineText (segment : PrgSegment) : List Char :=
  addressText segment.loadAddress ++ ':' :: ' ' :: segment.data.flatMap byteText

theorem segmentText_eq (segment : PrgSegment) :
    segmentText segment = lineText segment ++ ['\n'] := by
  simp only [segmentText, lineText, addressText, List.cons_append, List.nil_append,
    List.append_assoc]
  rfl

/-- No number is printed with a character that ends a line, an address or a string. -/
theorem plain_printX {w n : Nat} (hn : n < 16 ^ w) : PlainText (printX w n) := by
  intro c hc h
  obtain ⟨hspace, hnot⟩ := mem_printX hn h
  simp only [List.mem_cons, List.not_mem_nil, or_false] at hc
  rcases hc with rfl | rfl | rfl
  · exact absurd hspace (by decide)
  · exact hnot (by simp)
  · exact hnot (by simp)

theorem plain_blank : PlainText [' '] := by
  unfold PlainText
  simp

theorem plain_addressText (a : U16) : PlainText (addressText a) := by
  have hlead : PlainText ['0', 'x'] := by
    unfold PlainText
    simp
  exact hlead.append (plain_printX a.isLt)

/-- What comes after the colon: a blank and the bytes, each with a blank after it. -/
theorem plain_bytes (vs : List U8) : PlainText (' ' :: vs.flatMap byteText) :=
  plain_blank.append (.flatMap fun v _ => (plain_printX v.isLt).append plain_blank)

theorem length_byteText (v : U8) : (byteText v).length = 3 := by
  rw [byteText, List.length_append, length_printX v.isLt]
  rfl

theorem length_flatMap_byteText (vs : List U8) : (vs.flatMap byteText).length = 3 * vs.length := by
  induction vs with
  | nil => rfl
  | cons v vs ih =>
    rw [List.flatMap_cons, List.length_append, length_byteText, ih, List.length_cons]
    omega

theorem length_addressText (a : U16) : (addressText a).length = 6 := by
  rw [addressText, List.length_cons, List.length_cons, length_printX a.isLt]

/-! ## What is read back of it -/

/-- The bytes of a segment that fit the loader's buffer. -/
def bufferedBytes : Nat := 18

/-- The byte stored after them: of a segment that fits, the newline read as a number, of a longer
    one the first digit of its next byte. -/
def strayByte (segment : PrgSegment) : U8 :=
  match segment.data[bufferedBytes]? with
  | some v => v >>> 4
  | none => 0

/-- What the loader stores for a segment. -/
def lineBytes (segment : PrgSegment) : List U8 :=
  segment.data.take bufferedBytes ++ [strayByte segment]

def lineWrites (segment : PrgSegment) : List (U16 × U8) :=
  bytesAt segment.loadAddress (lineBytes segment)

section

variable (hlong : 32 ≤ longBits)
include hlong

theorem pow_long {n : Nat} (hn : n < 0x10000) : n < 2 ^ (longBits - 1) :=
  Nat.lt_of_lt_of_le hn (Nat.pow_le_pow_right Nat.two_pos (show 16 ≤ longBits - 1 by omega))

theorem strtolHex_addressText (a : U16) :
    (.ofInt 16 (strtolHex longBits (addressText a)) : U16) = a := by
  rw [addressText, strtolHex_prefix_printX a.isLt (pow_long hlong a.isLt), BitVec.ofInt_natCast,
    BitVec.ofNat_toNat, BitVec.setWidth_eq]

theorem tokenByte_printX (v : U8) : tokenByte longBits (printX 2 v.toNat) = v := by
  have hlt : v.toNat < 0x10000 := Nat.lt_trans v.isLt (by simp)
  rw [tokenByte, strtolHex_printX v.isLt (pow_long hlong hlt), BitVec.ofInt_natCast,
    BitVec.ofNat_toNat, BitVec.setWidth_eq]

/-- The tokens of the bytes `vs` and of one more. -/
theorem tokens_bytes (vs : List U8) {t : List Char} (ht : t ≠ []) (hspace : ' ' ∉ t) :
    (strtokAll ' ' (vs.flatMap byteText ++ t)).map (tokenByte longBits) =
      vs ++ [tokenByte longBits t] := by
  induction vs with
  | nil =>
    rw [List.flatMap_nil, List.nil_append, strtokAll_last ht hspace]
    rfl
  | cons v vs ih =>
    have hne : printX 2 v.toNat ≠ [] := by
      intro h
      have hlen := length_printX (w := 2) v.isLt
      rw [h] at hlen
      exact absurd hlen (by simp)
    have hdigits : ' ' ∉ printX 2 v.toNat := fun h => absurd (mem_printX v.isLt h).1 (by decide)
    rw [List.flatMap_cons, byteText, List.append_assoc, List.append_assoc, List.singleton_append,
      strtokAll_token hne hdigits, List.map_cons, ih, tokenByte_printX hlong]
    rfl

/-- A byte text is two digits and a space, the first digit its high half. -/
theorem byteText_digits (v : U8) :
    ∃ d₁ d₀, byteText v = [d₁, d₀, ' '] ∧ d₁ ≠ ' ' ∧ tokenByte longBits [d₁] = v >>> 4 := by
  obtain ⟨ds, hprint, hlen, hds, hvalue⟩ := printX_spec (w := 2) v.isLt
  obtain ⟨e₁, e₀, rfl⟩ := List.length_eq_two.mp hlen
  have he₁ : e₁ < 16 := hds e₁ (by simp)
  have he₀ : e₀ < 16 := hds e₀ (by simp)
  have hsum : e₀ + 16 * e₁ = v.toNat := by simpa [Nat.ofDigits] using hvalue
  have hdigit : strtolHex longBits [hexUpper e₁] = (e₁ : Nat) := by
    have hone : ∀ d ∈ [e₁], d < 16 := List.forall_mem_singleton.mpr he₁
    have hvalue₁ : hexValue 0 ([e₁].map hexUpper) = e₁ := by
      rw [hexValue_map hone, Nat.mul_zero, Nat.zero_add]
      exact Nat.ofDigits_singleton
    have hread := strtolHex_digits (isHex_map hone) (z := []) (by simp)
      (pow_long hlong (by omega))
    rwa [hvalue₁] at hread
  refine ⟨hexUpper e₁, hexUpper e₀, by rw [byteText, hprint]; rfl, ?_, ?_⟩
  · intro h
    have hspace := (hexUpper_spec e₁ he₁).2.1
    rw [h] at hspace
    exact absurd hspace (by decide)
  · rw [tokenByte, hdigit, BitVec.ofInt_natCast]
    apply BitVec.eq_of_toNat_eq
    rw [BitVec.toNat_ofNat, BitVec.toNat_ushiftRight, Nat.shiftRight_eq_div_pow]
    omega

/-- Of the line the buffer has room for 55 characters after the colon and the blank: with its
    newline if it fits, else up to the first digit of byte 18. -/
theorem tokens_segment (segment : PrgSegment) :
    (strtokAll ' ' ((segment.data.flatMap byteText ++ ['\n']).take 55)).map
      (tokenByte longBits) = lineBytes segment := by
  unfold lineBytes strayByte
  cases hnext : segment.data[bufferedBytes]? with
  | none =>
    have hle := List.getElem?_eq_none_iff.mp hnext
    have hwhole : (segment.data.flatMap byteText ++ ['\n']).length ≤ 55 := by
      rw [List.length_append, length_flatMap_byteText, List.length_singleton]
      unfold bufferedBytes at hle
      omega
    -- the newline is a token: it comes after the blank that follows the last byte
    have hzero : tokenByte longBits ['\n'] = 0 := by
      rw [tokenByte, strtolHex_newline]
      rfl
    rw [List.take_of_length_le hwhole, tokens_bytes hlong _ (by simp) (by simp), hzero,
      List.take_of_length_le hle]
  | some v =>
    obtain ⟨hlt, hv⟩ := List.getElem?_eq_some_iff.mp hnext
    obtain ⟨d₁, d₀, htext, hspace, hdigit⟩ := byteText_digits hlong v
    have hsplit : segment.data = segment.data.take bufferedBytes ++
        v :: segment.data.drop (bufferedBytes + 1) := by
      rw [← hv, ← List.drop_eq_getElem_cons hlt, List.take_append_drop]
    have hlen : ((segment.data.take bufferedBytes).flatMap byteText).length = 54 := by
      rw [length_flatMap_byteText, List.length_take, Nat.min_eq_left (Nat.le_of_lt hlt)]
      rfl
    have hcut : (segment.data.flatMap byteText ++ ['\n']).take 55 =
        (segment.data.take bufferedBytes).flatMap byteText ++ [d₁] := by
      rw [hsplit, List.flatMap_append, List.flatMap_cons, htext, ← hsplit, List.append_assoc,
        List.take_append, hlen, List.take_of_length_le (by omega)]
      rfl
    rw [hcut, tokens_bytes hlong _ (by simp) (by simpa using Ne.symm hspace), hdigit]

/-- **What the loader stores of one segment's line**, whatever its length. -/
theorem loadLines_segment (segment : PrgSegment) (rest : List Char) :
    loadLines longBits (fgetsAll bufSize (segmentText segment ++ rest)) =
      (writeEach (lineWrites segment)).bind
        fun _ => loadLines longBits (fgetsAll bufSize rest) := by
  have hne : addressText segment.loadAddress ≠ [] := by simp [addressText]
  have hlt : (addressText segment.loadAddress).length < bufSize - 1 := by
    rw [length_addressText]
    decide
  have hwrites : pieceWrites longBits bufSize (addressText segment.loadAddress)
      (' ' :: segment.data.flatMap byteText) = lineWrites segment := by
    have hroom : (' ' :: segment.data.flatMap byteText ++ ['\n']).take (bufSize - 1 - (6 + 1)) =
        ' ' :: (segment.data.flatMap byteText ++ ['\n']).take 55 := rfl
    rw [pieceWrites_of_lt hne hlt, strtolHex_addressText hlong, length_addressText, hroom,
      strtokAll_delim, tokens_segment hlong]
    rfl
  rw [segmentText_eq, List.append_assoc, ← hwrites]
  exact loadLines_line (by decide) (plain_addressText _) (plain_bytes _) rest

/-- **What the loader stores of a file that was written.** -/
theorem loadPrgFile_written (segments : List PrgSegment) :
    loadPrgFile longBits (some (segments.flatMap segmentText)) =
      (writeEach (segments.flatMap lineWrites)).bind fun _ => .ret (some 0) := by
  unfold loadPrgFile
  induction segments with
  | nil => rfl
  | cons segment segments ih =>
    dsimp only at ih ⊢
    rw [List.flatMap_cons, loadLines_segment hlong, ih, List.flatMap_cons, writeEach_append]

end

end M6502
