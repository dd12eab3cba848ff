import M6502.Proof.Host.PrgFile
import Mathlib.Data.List.Basic

/-!
# The loader's line buffer

A line of a program file is an address, a colon and any number of bytes with blanks between
them. A line longer than the buffer is cut wherever the buffer is full, inside a number too,
and what is stored of it is decided by the piece with the colon (`PrgPieces.lean`). A line
without bytes has a zero stored: the newline after the colon is read as a token.

So the loader stores what the lines say, as one with a longer buffer would, exactly if each
line has a byte and that piece shows all of it (`PrgLine.Fits`).
-/

set_option autoImplicit false

namespace M6502

open Lib

/-! ## The lines of a file -/

/-- An address and bytes, each with the number of blanks before it: there is one at least
    between two bytes, and none after the last. -/
structure PrgLine where
  address : HexText 0x10000
  bytes : List (Nat × HexText 0x100)
  separated : ∀ t ∈ bytes.tail, 0 < t.1

def bytesText (bytes : List (Nat × HexText 0x100)) : List Char :=
  bytes.flatMap fun t => List.replicate t.1 ' ' ++ t.2.text

def fileText (lines : List PrgLine) : List Char :=
  lines.flatMap fun line => line.address.text ++ ':' :: bytesText line.bytes ++ ['\n']

def byteValue (t : Nat × HexText 0x100) : U8 := .ofNat 8 t.2.value

/-- There is a byte, and the last one ends in the first `k` characters of the text or is a zero
    that begins in them. -/
def LastReadIn (k : Nat) (bytes : List (Nat × HexText 0x100)) : Prop :=
  ∃ t, bytes.getLast? = some t ∧
    ((bytesText bytes).length ≤ k ∨
      t.2.value = 0 ∧ (bytesText bytes).length - t.2.text.length < k)

instance (k : Nat) (bytes : List (Nat × HexText 0x100)) : Decidable (LastReadIn k bytes) :=
  match h : bytes.getLast? with
  | none => .isFalse fun ⟨_, ht, _⟩ => absurd (h.symm.trans ht) (by simp)
  | some t => decidable_of_iff ((bytesText bytes).length ≤ k ∨
      t.2.value = 0 ∧ (bytesText bytes).length - t.2.text.length < k)
    ⟨fun hread => ⟨t, h, hread⟩, fun ⟨u, hu, hread⟩ =>
      Option.some.inj (h.symm.trans hu) ▸ hread⟩

namespace PrgLine

variable (line : PrgLine)

/-- Byte `i` is stored at `address + i`, to 16 bits. -/
def writes : List (U16 × U8) :=
  line.bytes.mapIdx fun i t => (.ofNat 16 (line.address.value + i), byteValue t)

/-- How much of the address is in the piece its colon is in, for a buffer of `size`. -/
def addressLeft (size : Nat) : Nat := line.address.text.length % (size - 1)

/-- How many characters that piece has room for after the colon. -/
def room (size : Nat) : Nat := size - 1 - (line.addressLeft size + 1)

/-- The line is read whole: the piece with the colon begins with enough of the address, and the
    last byte ends in it, or is a zero that begins in it. -/
structure Fits (size : Nat) : Prop where
  colon : line.addressLeft size ≠ 0
  address : line.address.valueFrom (line.address.text.length - line.addressLeft size) =
    line.address.value
  bytes : LastReadIn (line.room size) line.bytes

instance (size : Nat) : Decidable (line.Fits size) :=
  decidable_of_iff (line.addressLeft size ≠ 0 ∧
      line.address.valueFrom (line.address.text.length - line.addressLeft size) =
        line.address.value ∧ LastReadIn (line.room size) line.bytes)
    ⟨fun ⟨hc, ha, hb⟩ => ⟨hc, ha, hb⟩, fun ⟨hc, ha, hb⟩ => ⟨hc, ha, hb⟩⟩

end PrgLine

/-! ## The tokens of a piece -/

section Tokens

variable {longBits : Nat}

theorem ofNat_eq_iff {w m n : Nat} (hm : m < 2 ^ w) (hn : n < 2 ^ w) :
    BitVec.ofNat w m = .ofNat w n ↔ m = n := by
  constructor
  · intro h
    have hnat := congrArg BitVec.toNat h
    rwa [BitVec.toNat_ofNat, BitVec.toNat_ofNat, Nat.mod_eq_of_lt hm, Nat.mod_eq_of_lt hn] at hnat
  · intro h
    rw [h]

/-- A byte fits a `long` of 32 bits and more. -/
theorem byte_fits (hlong : 32 ≤ longBits) : 0x100 ≤ 2 ^ (longBits - 1) :=
  Nat.le_of_lt (pow_long hlong (by simp))

theorem tokenByte_text (hlong : 32 ≤ longBits) (t : Nat × HexText 0x100) {z : List Char}
    (hz : ∀ c ∈ z, isSpace c) : tokenByte longBits (t.2.text ++ z) = byteValue t := by
  rw [tokenByte, t.2.strtolHex_spaces (byte_fits hlong) hz, BitVec.ofInt_natCast, byteValue]

/-- A token that is cut keeps its value only if that is zero. -/
theorem tokenByte_take (hlong : 32 ≤ longBits) (t : Nat × HexText 0x100) {j : Nat}
    (hj : j < t.2.text.length) :
    tokenByte longBits (t.2.text.take j) = byteValue t ↔ t.2.value = 0 := by
  have hlt : hexValue 0 (t.2.digits.take (j - t.2.lead.length)) < 2 ^ 8 :=
    Nat.lt_of_le_of_lt (hexValue_take_le t.2.isHex _) t.2.value_lt
  rw [tokenByte, t.2.strtolHex_take (byte_fits hlong), BitVec.ofInt_natCast, byteValue,
    ofNat_eq_iff hlt t.2.lt_bound]
  exact t.2.value_take_iff hj

theorem bytesText_cons (t : Nat × HexText 0x100) (ts : List (Nat × HexText 0x100)) :
    bytesText (t :: ts) = List.replicate t.1 ' ' ++ (t.2.text ++ bytesText ts) := by
  rw [bytesText, List.flatMap_cons, List.append_assoc, bytesText]

theorem length_bytesText_cons (t : Nat × HexText 0x100) (ts : List (Nat × HexText 0x100)) :
    (bytesText (t :: ts)).length = t.1 + t.2.text.length + (bytesText ts).length := by
  rw [bytesText_cons, List.length_append, List.length_append, List.length_replicate,
    Nat.add_assoc]

theorem length_last_le {ts : List (Nat × HexText 0x100)} {t : Nat × HexText 0x100}
    (h : ts.getLast? = some t) : t.2.text.length ≤ (bytesText ts).length := by
  induction ts with
  | nil => cases h
  | cons u ts ih =>
    rw [length_bytesText_cons]
    cases ts with
    | nil =>
      obtain rfl : u = t := Option.some.inj h
      omega
    | cons v ts =>
      rw [List.getLast?_cons_cons] at h
      have hle := ih h
      omega

/-- With a blank before its first byte, a window on the text begins with a blank, if not empty. -/
theorem head_take_bytesText {t : Nat × HexText 0x100} {ts : List (Nat × HexText 0x100)}
    (ht : 0 < t.1) (s : List Char) (j : Nat) :
    ∀ c ∈ ((bytesText (t :: ts) ++ s).take j).head?, c = ' ' := by
  intro c hc
  obtain ⟨g, hg⟩ := Nat.exists_eq_add_one.mpr ht
  rw [bytesText_cons, hg, List.replicate_succ] at hc
  cases j with
  | zero => cases hc
  | succ j => exact (Option.some.inj hc).symm

theorem lastReadIn_singleton {k : Nat} {t : Nat × HexText 0x100} :
    LastReadIn k [t] ↔ t.1 + t.2.text.length ≤ k ∨ t.2.value = 0 ∧ t.1 < k := by
  have hlen : (bytesText [t]).length = t.1 + t.2.text.length := length_bytesText_cons t []
  unfold LastReadIn
  rw [hlen]
  constructor
  · rintro ⟨u, hu, h⟩
    obtain rfl : t = u := Option.some.inj hu
    rwa [Nat.add_sub_cancel] at h
  · intro h
    refine ⟨t, rfl, ?_⟩
    rwa [Nat.add_sub_cancel]

theorem lastReadIn_cons {k : Nat} {t u : Nat × HexText 0x100}
    {ts : List (Nat × HexText 0x100)} :
    LastReadIn k (t :: u :: ts) ↔
      t.1 + t.2.text.length ≤ k ∧ LastReadIn (k - (t.1 + t.2.text.length)) (u :: ts) := by
  have hlen := length_bytesText_cons t (u :: ts)
  unfold LastReadIn
  rw [hlen, List.getLast?_cons_cons]
  constructor
  · rintro ⟨v, hv, h⟩
    have hle := length_last_le hv
    refine ⟨by omega, v, hv, ?_⟩
    rcases h with h | ⟨hzero, h⟩
    · exact .inl (by omega)
    · exact .inr ⟨hzero, by omega⟩
  · rintro ⟨hk, v, hv, h⟩
    have hle := length_last_le hv
    refine ⟨v, hv, ?_⟩
    rcases h with h | ⟨hzero, h⟩
    · exact .inl (by omega)
    · exact .inr ⟨hzero, by omega⟩

/-- A window that ends in the blanks before a token. -/
theorem strtokAll_take_blanks {k g : Nat} (h : k ≤ g) (s : List Char) :
    strtokAll ' ' ((List.replicate g ' ' ++ s).take k) = [] := by
  have htake : (List.replicate g ' ' ++ s).take k = List.replicate k ' ' ++ [] := by
    rw [List.take_append_of_le_length (by rwa [List.length_replicate]), List.take_replicate,
      Nat.min_eq_left h, List.append_nil]
  rw [htake, strtokAll_replicate]
  rfl

/-- Else it is one of what comes after the blanks. -/
theorem strtokAll_take_text {k g : Nat} (h : g < k) (s : List Char) :
    strtokAll ' ' ((List.replicate g ' ' ++ s).take k) = strtokAll ' ' (s.take (k - g)) := by
  rw [List.take_append, List.length_replicate,
    List.take_of_length_le (by rw [List.length_replicate]; omega), strtokAll_replicate]

/-- A window that ends in a token shows a part of it. -/
theorem strtokAll_take_token {j : Nat} (hj : 0 < j) {token : List Char} (hne : token ≠ [])
    (hspace : ' ' ∉ token) : strtokAll ' ' (token.take j) = [token.take j] := by
  refine strtokAll_last (fun h => ?_) fun h => hspace (List.mem_of_mem_take h)
  rcases List.take_eq_nil_iff.mp h with h | h
  · omega
  · exact hne h

/-- In a window that ends before its token, the first byte is not read, nor are the others. -/
theorem not_lastReadIn {k : Nat} {t : Nat × HexText 0x100} {ts : List (Nat × HexText 0x100)}
    (hk : k ≤ t.1) : ¬ LastReadIn k (t :: ts) := by
  have hpos : 0 < t.2.text.length := List.length_pos_iff.mpr t.2.text_ne
  cases ts with
  | nil =>
    rw [lastReadIn_singleton]
    omega
  | cons u ts =>
    rw [lastReadIn_cons]
    intro h
    omega

/-- The newline is read with the last byte, where the window has it. -/
theorem tokenByte_last (hlong : 32 ≤ longBits) (t : Nat × HexText 0x100) {k : Nat} (hk : t.1 < k) :
    tokenByte longBits ((t.2.text ++ ['\n']).take (k - t.1)) = byteValue t ↔
      LastReadIn k [t] := by
  rw [lastReadIn_singleton]
  by_cases hwhole : t.1 + t.2.text.length ≤ k
  · have hspaces : ∀ c ∈ (['\n'] : List Char).take (k - t.1 - t.2.text.length), isSpace c := by
      intro c hc
      rw [List.mem_singleton.mp (List.mem_of_mem_take hc)]
      rfl
    rw [List.take_append, List.take_of_length_le (by omega)]
    exact iff_of_true (tokenByte_text hlong t hspaces) (.inl hwhole)
  · rw [List.take_append_of_le_length (by omega), tokenByte_take hlong t (by omega)]
    constructor
    · intro h
      exact .inr ⟨h, hk⟩
    · rintro (h | ⟨h, -⟩)
      · exact absurd h hwhole
      · exact h

theorem bytesText_newline (t : Nat × HexText 0x100) (ts : List (Nat × HexText 0x100)) :
    bytesText (t :: ts) ++ ['\n'] =
      List.replicate t.1 ' ' ++ (t.2.text ++ (bytesText ts ++ ['\n'])) := by
  rw [bytesText_cons, List.append_assoc, List.append_assoc]

/-- **What is read of the bytes in the first `k` characters**: no more than there are, and all of
    them exactly if the last is read. -/
theorem strtokAll_window (hlong : 32 ≤ longBits) {t : Nat × HexText 0x100}
    {ts : List (Nat × HexText 0x100)} (hsep : ∀ u ∈ ts, 0 < u.1) (k : Nat) :
    (strtokAll ' ' ((bytesText (t :: ts) ++ ['\n']).take k)).length ≤ (t :: ts).length ∧
      ((strtokAll ' ' ((bytesText (t :: ts) ++ ['\n']).take k)).map (tokenByte longBits) =
          (t :: ts).map byteValue ↔
        LastReadIn k (t :: ts)) := by
  induction ts generalizing t k with
  | nil =>
    rw [bytesText_newline]
    by_cases hblank : k ≤ t.1
    · rw [strtokAll_take_blanks hblank]
      exact ⟨Nat.zero_le _, iff_of_false (by simp) (not_lastReadIn hblank)⟩
    · have hlt := Nat.lt_of_not_le hblank
      have hspace : ' ' ∉ t.2.text ++ ['\n'] := by
        simp [t.2.space_not_mem]
      have htoken : strtokAll ' ' ((t.2.text ++ (bytesText [] ++ ['\n'])).take (k - t.1)) =
          [(t.2.text ++ ['\n']).take (k - t.1)] :=
        strtokAll_take_token (by omega) (by simp) hspace
      rw [strtokAll_take_text hlt, htoken, ← tokenByte_last hlong t hlt]
      simp
  | cons u ts ih =>
    obtain ⟨hu, hts⟩ := List.forall_mem_cons.mp hsep
    rw [bytesText_newline]
    by_cases hblank : k ≤ t.1
    · rw [strtokAll_take_blanks hblank]
      exact ⟨Nat.zero_le _, iff_of_false (by simp) (not_lastReadIn hblank)⟩
    rw [strtokAll_take_text (Nat.lt_of_not_le hblank), lastReadIn_cons]
    by_cases hwhole : t.1 + t.2.text.length ≤ k
    · -- a blank comes after the token, or the window ends
      have hhead : ∀ c ∈ ((bytesText (u :: ts) ++ ['\n']).take
          (k - t.1 - t.2.text.length)).head?, c = ' ' := head_take_bytesText hu _ _
      have hbyte : tokenByte longBits t.2.text = byteValue t := by
        have hread := tokenByte_text hlong t (z := []) (by simp)
        rwa [List.append_nil] at hread
      obtain ⟨hle, hiff⟩ := ih (t := u) hts (k - t.1 - t.2.text.length)
      rw [List.take_append, List.take_of_length_le (by omega),
        strtokAll_append t.2.text_ne t.2.space_not_mem hhead]
      refine ⟨Nat.succ_le_succ hle, ?_⟩
      rw [List.map_cons, List.map_cons, hbyte, List.cons.injEq, hiff, Nat.sub_sub]
      exact and_congr_left' (iff_of_true rfl hwhole)
    · -- a part of the token is all that is read
      rw [List.take_append_of_le_length (by omega),
        strtokAll_take_token (by omega) t.2.text_ne t.2.space_not_mem]
      exact ⟨by simp, iff_of_false (by simp) fun h => hwhole h.1⟩

end Tokens

/-! ## What is stored, and what the line says -/

theorem plain_text {bound : Nat} (t : HexText bound) : PlainText t.text := by
  intro c hc
  simp only [List.mem_cons, List.not_mem_nil, or_false] at hc
  rcases hc with rfl | rfl | rfl <;> exact t.not_mem_text (by decide) (by decide) (by decide)

theorem plain_blanks (n : Nat) : PlainText (List.replicate n ' ') := by
  intro c hc hmem
  obtain rfl := List.eq_of_mem_replicate hmem
  exact absurd hc (by decide)

theorem plain_bytesText (ts : List (Nat × HexText 0x100)) : PlainText (bytesText ts) :=
  .flatMap fun t _ => (plain_blanks t.1).append (plain_text t.2)

theorem length_bytesAt (a : U16) (vs : List U8) : (bytesAt a vs).length = vs.length := by
  induction vs generalizing a with
  | nil => rfl
  | cons v vs ih => exact congrArg (· + 1) (ih (a + 1))

theorem bytesAt_snd (a : U16) (vs : List U8) : (bytesAt a vs).map Prod.snd = vs := by
  induction vs generalizing a with
  | nil => rfl
  | cons v vs ih => exact congrArg (v :: ·) (ih (a + 1))

theorem bytesAt_eq_iff {a a' : U16} {vs vs' : List U8} (hne : vs ≠ []) :
    bytesAt a' vs' = bytesAt a vs ↔ a' = a ∧ vs' = vs := by
  constructor
  · intro h
    have hbytes := congrArg (List.map Prod.snd) h
    rw [bytesAt_snd, bytesAt_snd] at hbytes
    subst hbytes
    obtain ⟨v, vs, rfl⟩ := List.exists_cons_of_ne_nil hne
    exact ⟨congrArg Prod.fst (List.cons.inj h).1, rfl⟩
  · rintro ⟨rfl, rfl⟩
    rfl

theorem bytesAt_ofNat {α : Type} (f : α → U8) (a : Nat) (ts : List α) :
    bytesAt (.ofNat 16 a) (ts.map f) = ts.mapIdx fun i t => (.ofNat 16 (a + i), f t) := by
  induction ts generalizing a with
  | nil => rfl
  | cons t ts ih =>
    have hnext : (.ofNat 16 a + 1 : U16) = .ofNat 16 (a + 1) := (BitVec.ofNat_add a 1).symm
    rw [List.map_cons, bytesAt, hnext, ih, List.mapIdx_cons]
    simp only [Nat.add_assoc, Nat.add_comm 1, Nat.add_zero]

namespace PrgLine

variable {longBits size : Nat} {line : PrgLine}

/-- What the loader stores of a line, with a buffer of `size`. -/
def stored (longBits size : Nat) (line : PrgLine) : List (U16 × U8) :=
  pieceWrites longBits size line.address.text (bytesText line.bytes)

theorem stored_eq (longBits size : Nat) (line : PrgLine) :
    line.stored longBits size =
      if line.addressLeft size = 0 then []
      else
        bytesAt (.ofInt 16 (strtolHex longBits (line.address.text.drop
            (line.address.text.length - line.addressLeft size))))
          ((strtokAll ' ' ((bytesText line.bytes ++ ['\n']).take (line.room size))).map
            (tokenByte longBits)) := rfl

theorem writes_eq (line : PrgLine) :
    line.writes = bytesAt (.ofNat 16 line.address.value) (line.bytes.map byteValue) :=
  (bytesAt_ofNat byteValue line.address.value line.bytes).symm

theorem length_writes (line : PrgLine) : line.writes.length = line.bytes.length :=
  List.length_mapIdx

theorem address_fits (hlong : 32 ≤ longBits) : 0x10000 ≤ 2 ^ (longBits - 1) :=
  pow_long hlong (by simp)

/-- The address that is read from what the piece with the colon has of it. -/
theorem address_read (hlong : 32 ≤ longBits) (hsize : 3 ≤ size) :
    (.ofInt 16 (strtolHex longBits (line.address.text.drop
      (line.address.text.length - line.addressLeft size))) : U16) =
      .ofNat 16 (line.address.valueFrom
        (line.address.text.length - line.addressLeft size)) := by
  have hlead : line.address.text.length - line.addressLeft size = 0 ∨
      line.address.lead.length ≤ line.address.text.length - line.addressLeft size := by
    unfold addressLeft
    by_cases hlt : line.address.text.length < size - 1
    · left
      rw [Nat.mod_eq_of_lt hlt, Nat.sub_self]
    · -- a full buffer is before it, and the prefix in that
      right
      have hlead := line.address.lead_length_le
      have hdiv := Nat.div_pos (Nat.le_of_not_lt hlt) (show 0 < size - 1 by omega)
      have hmod := Nat.mod_add_div line.address.text.length (size - 1)
      have hle := Nat.le_mul_of_pos_right (size - 1) hdiv
      omega
  rw [line.address.strtolHex_drop (address_fits hlong) hlead, BitVec.ofInt_natCast]

theorem bytes_read (hlong : 32 ≤ longBits) (hne : line.bytes ≠ []) (k : Nat) :
    (strtokAll ' ' ((bytesText line.bytes ++ ['\n']).take k)).length ≤ line.bytes.length ∧
      ((strtokAll ' ' ((bytesText line.bytes ++ ['\n']).take k)).map (tokenByte longBits) =
          line.bytes.map byteValue ↔
        LastReadIn k line.bytes) := by
  have hsep := line.separated
  cases hbytes : line.bytes with
  | nil => exact absurd hbytes hne
  | cons t ts =>
    rw [hbytes] at hsep
    exact strtokAll_window hlong hsep k

/-- Of a line with a byte no more is stored than it says, -/
theorem length_stored_le (hlong : 32 ≤ longBits) (hne : line.bytes ≠ []) :
    (line.stored longBits size).length ≤ line.writes.length := by
  rw [stored_eq]
  by_cases hcolon : line.addressLeft size = 0
  · rw [if_pos hcolon]
    exact Nat.zero_le _
  · rw [if_neg hcolon, length_bytesAt, List.length_map, length_writes]
    exact (bytes_read hlong hne _).1

/-- and just that exactly if it fits. -/
theorem stored_eq_iff (hlong : 32 ≤ longBits) (hsize : 3 ≤ size) (hne : line.bytes ≠ []) :
    line.stored longBits size = line.writes ↔ line.Fits size := by
  have hbytes : line.bytes.map byteValue ≠ [] := mt List.map_eq_nil_iff.mp hne
  rw [writes_eq, stored_eq]
  by_cases hcolon : line.addressLeft size = 0
  · rw [if_pos hcolon]
    refine iff_of_false (fun h => hbytes ?_) fun h => h.colon hcolon
    rw [← bytesAt_snd (.ofNat 16 line.address.value) (line.bytes.map byteValue), ← h]
    rfl
  · rw [if_neg hcolon, bytesAt_eq_iff hbytes, (bytes_read hlong hne _).2]
    rw [address_read hlong hsize, ofNat_eq_iff (line.address.valueFrom_lt _) line.address.lt_bound]
    constructor
    · rintro ⟨haddress, hread⟩
      exact ⟨hcolon, haddress, hread⟩
    · intro h
      exact ⟨h.address, h.bytes⟩

theorem Fits.bytes_ne (h : line.Fits size) : line.bytes ≠ [] := by
  intro hnil
  obtain ⟨t, ht, -⟩ := h.bytes
  rw [hnil] at ht
  cases ht

/-- A buffer that is longer than the line: a line with a byte fits, -/
theorem fits_of_lt (hne : line.bytes ≠ [])
    (hlt : line.address.text.length + 1 + (bytesText line.bytes).length < size) :
    line.Fits size := by
  have hleft : line.addressLeft size = line.address.text.length := Nat.mod_eq_of_lt (by omega)
  have hpos : 0 < line.address.text.length := List.length_pos_iff.mpr line.address.text_ne
  constructor
  · omega
  · rw [hleft, Nat.sub_self, HexText.valueFrom_zero]
  · obtain ⟨t, ht⟩ := Option.isSome_iff_exists.mp (List.getLast?_isSome.mpr hne)
    refine ⟨t, ht, .inl ?_⟩
    unfold room
    omega

/-- and of a line without one, a byte is stored all the same. -/
theorem length_stored_empty (hempty : line.bytes = [])
    (hlt : line.address.text.length + 2 < size) : (line.stored longBits size).length = 1 := by
  have hleft : line.addressLeft size = line.address.text.length := Nat.mod_eq_of_lt (by omega)
  have hpos : 0 < line.address.text.length := List.length_pos_iff.mpr line.address.text_ne
  have hroom : (['\n'] : List Char).take (line.room size) = ['\n'] := by
    apply List.take_of_length_le
    unfold room
    rw [List.length_singleton]
    omega
  -- the newline is a token
  have htoken : strtokAll ' ' ['\n'] = [['\n']] := strtokAll_last (by simp) (by simp)
  rw [stored_eq, if_neg (by omega), length_bytesAt, List.length_map, hempty]
  show (strtokAll ' ' ((['\n'] : List Char).take (line.room size))).length = 1
  rw [hroom, htoken]
  rfl

end PrgLine

/-! ## Files -/

section File

variable {longBits : Nat}

/-- The loader with a line buffer of `size` characters. -/
def loadPrgFileWith (longBits size : Nat) (content : List Char) : Prog BusSig (Option Int) :=
  loadLines longBits (fgetsAll size content)

theorem loadPrgFile_some (longBits : Nat) (content : List Char) :
    loadPrgFile longBits (some content) = loadPrgFileWith longBits bufSize content := rfl

theorem fileText_cons (line : PrgLine) (lines : List PrgLine) :
    fileText (line :: lines) =
      line.address.text ++ ':' :: bytesText line.bytes ++ '\n' :: fileText lines := by
  rw [fileText, List.flatMap_cons, List.append_assoc]
  rfl

theorem loadPrgFileWith_lines {size : Nat} (hsize : 3 ≤ size) (lines : List PrgLine) :
    loadPrgFileWith longBits size (fileText lines) =
      (writeEach (lines.flatMap (PrgLine.stored longBits size))).bind fun _ => .ret (some 0) := by
  induction lines with
  | nil => rfl
  | cons line lines ih =>
    unfold loadPrgFileWith at ih ⊢
    rw [fileText_cons, loadLines_line hsize (plain_text line.address) (plain_bytesText line.bytes),
      ih, List.flatMap_cons, writeEach_append]
    rfl

theorem length_line_lt {line : PrgLine} {lines : List PrgLine} (h : line ∈ lines) :
    line.address.text.length + 1 + (bytesText line.bytes).length < (fileText lines).length := by
  induction lines with
  | nil => cases h
  | cons l lines ih =>
    rw [fileText_cons]
    simp only [List.length_append, List.length_cons]
    rcases List.mem_cons.mp h with rfl | h
    · omega
    · have hlt := ih h
      omega

/-- Programs that only store do the same only if they store the same. -/
theorem writeEach_inj {α : Type} {a : α} {ws ws' : List (U16 × U8)}
    (h : (writeEach ws).bind (fun _ => .ret a) = (writeEach ws').bind fun _ => .ret a) :
    ws = ws' := by
  induction ws generalizing ws' with
  | nil =>
    cases ws' with
    | nil => rfl
    | cons w' ws' => cases h
  | cons w ws ih =>
    cases ws' with
    | nil => cases h
    | cons w' ws' =>
      obtain ⟨hop, hrest⟩ := Prog.call.inj h
      obtain ⟨haddr, hdata⟩ := BusOp.writeByte.inj hop
      obtain rfl : w = w' := Prod.ext haddr hdata
      rw [ih (congrFun (eq_of_heq hrest) ())]

/-- Blocks that are no longer, put together to the same list, are the same. -/
theorem flatMap_blocks {α β : Type} {f g : α → List β} {l : List α}
    (hle : ∀ x ∈ l, (f x).length ≤ (g x).length) (h : l.flatMap f = l.flatMap g) :
    ∀ x ∈ l, f x = g x := by
  have hlen : ∀ l : List α, (∀ x ∈ l, (f x).length ≤ (g x).length) →
      (l.flatMap f).length ≤ (l.flatMap g).length := by
    intro l hle
    induction l with
    | nil => exact Nat.le_refl _
    | cons x l ih =>
      obtain ⟨hx, hl⟩ := List.forall_mem_cons.mp hle
      rw [List.flatMap_cons, List.flatMap_cons, List.length_append, List.length_append]
      exact Nat.add_le_add hx (ih hl)
  induction l with
  | nil => exact fun x hx => absurd hx List.not_mem_nil
  | cons x l ih =>
    obtain ⟨hx, hl⟩ := List.forall_mem_cons.mp hle
    rw [List.flatMap_cons, List.flatMap_cons] at h
    have htotal := congrArg List.length h
    rw [List.length_append, List.length_append] at htotal
    have hrest := hlen l hl
    obtain ⟨hfirst, htail⟩ := List.append_inj h (by omega)
    exact List.forall_mem_cons.mpr ⟨hfirst, ih hl htail⟩

/-- The bytes of each line are stored from its address on, line after line, and nothing else is;
    no buffer that is longer makes a difference. -/
structure BufferIndependent (longBits : Nat) (lines : List PrgLine) : Prop where
  writes : loadPrgFile longBits (some (fileText lines)) =
    (writeEach (lines.flatMap PrgLine.writes)).bind fun _ => .ret (some 0)
  longer : ∀ size, (fileText lines).length < size →
    loadPrgFile longBits (some (fileText lines)) =
      loadPrgFileWith longBits size (fileText lines)

section Iff

variable (hlong : 32 ≤ longBits) {lines : List PrgLine}
include hlong

/-- With room for the whole file, a line without bytes has one stored and the others all of
    theirs. So where that is what the lines say, there is no line without bytes. -/
theorem bytes_ne_of_longer {size : Nat} (hsize : (fileText lines).length + 3 ≤ size)
    (h : lines.flatMap PrgLine.writes = lines.flatMap (PrgLine.stored longBits size)) :
    ∀ line ∈ lines, line.bytes ≠ [] := by
  have hempty : ∀ line ∈ lines, line.bytes = [] → (line.stored longBits size).length = 1 := by
    intro line hline hnil
    have hlt := length_line_lt hline
    exact line.length_stored_empty hnil (by omega)
  have hle : ∀ line ∈ lines, line.writes.length ≤ (line.stored longBits size).length := by
    intro line hline
    have hlt := length_line_lt hline
    by_cases hnil : line.bytes = []
    · rw [PrgLine.length_writes, hnil]
      exact Nat.zero_le _
    · rw [(line.stored_eq_iff hlong (by omega) hnil).mpr (line.fits_of_lt hnil (by omega))]
  intro line hline hnil
  have hone := hempty line hline hnil
  rw [← flatMap_blocks hle h line hline, PrgLine.length_writes, hnil] at hone
  cases hone

theorem stored_of_fits {size : Nat} (hsize : 3 ≤ size) (h : ∀ line ∈ lines, line.Fits size) :
    lines.flatMap (PrgLine.stored longBits size) = lines.flatMap PrgLine.writes := by
  refine List.flatMap_congr fun line hline => ?_
  have hfits := h line hline
  exact (line.stored_eq_iff hlong hsize hfits.bytes_ne).mpr hfits

/-- A buffer longer than the file is read as it should be, if each line has a byte. -/
theorem loadPrgFileWith_longer {size : Nat} (hsize : (fileText lines).length < size)
    (hbytes : ∀ line ∈ lines, line.bytes ≠ []) :
    loadPrgFileWith longBits size (fileText lines) =
      (writeEach (lines.flatMap PrgLine.writes)).bind fun _ => .ret (some 0) := by
  cases hlines : lines with
  | nil => rfl
  | cons line rest =>
    rw [← hlines]
    have hline : line ∈ lines := hlines ▸ List.mem_cons_self
    have hlt := length_line_lt hline
    have hpos : 0 < line.address.text.length := List.length_pos_iff.mpr line.address.text_ne
    have hfits : ∀ l ∈ lines, l.Fits size := fun l hl =>
      l.fits_of_lt (hbytes l hl) (Nat.lt_trans (length_line_lt hl) hsize)
    rw [loadPrgFileWith_lines (by omega), stored_of_fits hlong (by omega) hfits]

/-- **The loader stores what the lines say, as with a longer buffer, exactly if** each line has a
    byte and is read whole. -/
theorem bufferIndependent_iff :
    BufferIndependent longBits lines ↔ ∀ line ∈ lines, line.Fits bufSize := by
  have hbuf : 3 ≤ bufSize := by simp [bufSize]
  constructor
  · intro h
    have hwrites := h.writes
    have hlonger := h.longer ((fileText lines).length + 3) (by omega)
    rw [hwrites, loadPrgFileWith_lines (Nat.le_add_left 3 _)] at hlonger
    rw [loadPrgFile_some, loadPrgFileWith_lines hbuf] at hwrites
    have hbytes := bytes_ne_of_longer hlong (Nat.le_refl _) (writeEach_inj hlonger)
    have hstored := flatMap_blocks
      (fun line hline => line.length_stored_le hlong (hbytes line hline)) (writeEach_inj hwrites)
    intro line hline
    exact (line.stored_eq_iff hlong hbuf (hbytes line hline)).mp (hstored line hline)
  · intro h
    have hwrites : loadPrgFile longBits (some (fileText lines)) =
        (writeEach (lines.flatMap PrgLine.writes)).bind fun _ => .ret (some 0) := by
      rw [loadPrgFile_some, loadPrgFileWith_lines hbuf, stored_of_fits hlong hbuf h]
    refine ⟨hwrites, fun size hlt => ?_⟩
    rw [hwrites, loadPrgFileWith_longer hlong hlt fun line hline => (h line hline).bytes_ne]

end Iff

/-! ### A line that fits and one that does not -/

def addressTen : HexText 0x10000 := ⟨['0', 'x'], ['0', '0', '1', '0'], by decide, by decide,
  by decide, by decide⟩

/-- `n` times the byte `A9`, each after a blank. -/
def lineOf (n : Nat) : PrgLine where
  address := addressTen
  bytes := List.replicate n (1, ⟨[], ['A', '9'], by decide, by decide, by decide, by decide⟩)
  separated := by
    intro t ht
    obtain rfl := List.eq_of_mem_replicate (List.mem_of_mem_tail ht)
    exact Nat.one_pos

example : (lineOf 18).Fits bufSize ∧ ¬ (lineOf 19).Fits bufSize ∧ ¬ (lineOf 0).Fits bufSize := by
  decide

theorem bufferIndependent_iff_two :
    BufferIndependent 64 [lineOf 2] ↔ ∀ line ∈ [lineOf 2], line.Fits bufSize :=
  bufferIndependent_iff (by decide)

/-- Of nineteen bytes the last is cut: `0x0A` is stored for it. -/
theorem not_bufferIndependent :
    ¬ ∀ (longBits : Nat), 32 ≤ longBits → ∀ lines : List PrgLine,
      BufferIndependent longBits lines := by
  intro h
  have hwrites := (h 64 (by decide) [lineOf 19]).writes
  have hcut : (loadPrgFileOn 64 (fun _ => 0) (some (fileText [lineOf 19]))
      (⟨fun _ => 0⟩ : Memory ⟨false⟩)).map (fun r => r.2.data ⟨0x22, by decide⟩) = some 0x0A := by
    decide +kernel
  have hsaid : (((writeEach ([lineOf 19].flatMap PrgLine.writes)).run (bus fun _ => 0)
      (⟨fun _ => 0⟩ : Memory ⟨false⟩)).map fun r => r.2.data ⟨0x22, by decide⟩) = some 0xA9 := by
    decide +kernel
  unfold loadPrgFileOn at hcut
  rw [hwrites, Prog.run_bind] at hcut
  cases hrun : (writeEach ([lineOf 19].flatMap PrgLine.writes)).run (bus fun _ => 0)
      (⟨fun _ => 0⟩ : Memory ⟨false⟩) with
  | none =>
    rw [hrun] at hsaid
    cases hsaid
  | some r =>
    rw [hrun] at hcut hsaid
    have hsame : (some 0x0A : Option U8) = some 0xA9 := hcut.symm.trans hsaid
    exact absurd hsame (by decide)

end File

end M6502
