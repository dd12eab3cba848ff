import M6502.Proof.Host.PrgFile

/-!
# The round trip of a program file

A file that was written is loaded with one byte too many for each segment, or, of a segment
that does not fit the loader's buffer, with the bytes from the eighteenth on lost
(`loadPrgFile_written`). What is in each cell afterwards is said by the last line that stores
there. So the round trip succeeds exactly if the stray bytes and the lost ones do no harm
(`StrayHarmless`).
-/

set_option autoImplicit false

namespace M6502

open Lib

/-! ## Segments in CPU RAM -/

namespace PrgSegment

variable (s t : PrgSegment)

/-- It lies in CPU RAM. -/
def InRam : Prop := s.loadAddress.toNat + s.data.length ≤ m6502RamSize

/-- No byte of one has the address of a byte of the other. -/
def Apart : Prop :=
  ∀ j < s.data.length, ∀ k < t.data.length, s.loadAddress.toNat + j ≠ t.loadAddress.toNat + k

instance : Decidable s.InRam := inferInstanceAs (Decidable (_ ≤ _))

instance : Decidable (s.Apart t) :=
  inferInstanceAs (Decidable (∀ j < _, ∀ k < _, _ ≠ _))

/-- The byte a segment has for cell `i` of CPU RAM. -/
def byteAt (i : Nat) : Option U8 :=
  if s.loadAddress.toNat ≤ i then s.data[i - s.loadAddress.toNat]? else none

/-- How many of its bytes fit the loader's buffer. -/
def buffered : Nat := min bufferedBytes s.data.length

/-- The cell of the byte stored after them. -/
def strayCell : Nat := (s.loadAddress.toNat + s.buffered) % m6502RamSize

/-- The loader stores something in cell `i` for the segment. -/
def Stores (i : Nat) : Prop :=
  (s.loadAddress.toNat ≤ i ∧ i < s.loadAddress.toNat + s.buffered) ∨ i = s.strayCell

variable {s t}

theorem byteAt_eq_some_iff {i : Nat} {v : U8} :
    s.byteAt i = some v ↔ ∃ j, s.data[j]? = some v ∧ i = s.loadAddress.toNat + j := by
  unfold byteAt
  constructor
  · intro h
    by_cases hle : s.loadAddress.toNat ≤ i
    · rw [if_pos hle] at h
      exact ⟨i - s.loadAddress.toNat, h, (Nat.add_sub_of_le hle).symm⟩
    · rw [if_neg hle] at h
      cases h
  · rintro ⟨j, hj, rfl⟩
    rw [if_pos (Nat.le_add_right _ _), Nat.add_sub_cancel_left, hj]

theorem lt_of_getElem? {j : Nat} {v : U8} (h : s.data[j]? = some v) : j < s.data.length :=
  (List.getElem?_eq_some_iff.mp h).1

theorem Apart.byteAt_none {i : Nat} {v : U8} (h : s.Apart t) (ht : t.byteAt i = some v) :
    s.byteAt i = none := by
  cases hs : s.byteAt i with
  | none => rfl
  | some u =>
    obtain ⟨j, hj, hij⟩ := byteAt_eq_some_iff.mp hs
    obtain ⟨k, hk, hik⟩ := byteAt_eq_some_iff.mp ht
    exact absurd (hij.symm.trans hik) (h j (lt_of_getElem? hj) k (lt_of_getElem? hk))

theorem buffered_le : s.buffered ≤ s.data.length := Nat.min_le_right _ _

end PrgSegment

/-! ## What should be in a cell afterwards -/

section Wanted

variable {b : Build}

/-- A segment's byte if one has a byte for the cell, else what was there before. -/
def wanted (segments : List PrgSegment) (mem : Memory b) (i : Nat) : U8 :=
  (segments.findSome? fun s => s.byteAt i).getD (mem.view i)

variable {segments : List PrgSegment} {mem : Memory b} {i : Nat}

theorem wanted_of_none (h : ∀ s ∈ segments, s.byteAt i = none) :
    wanted segments mem i = mem.view i := by
  rw [wanted, List.findSome?_eq_none_iff.mpr h]
  rfl

theorem wanted_of_some (hapart : segments.Pairwise PrgSegment.Apart) {s : PrgSegment} {v : U8}
    (hs : s ∈ segments) (hv : s.byteAt i = some v) : wanted segments mem i = v := by
  have hfind : segments.findSome? (fun s => s.byteAt i) = some v := by
    induction segments with
    | nil => cases hs
    | cons t segments ih =>
      obtain ⟨ht, hrest⟩ := List.pairwise_cons.mp hapart
      -- a segment further down has no byte for the cell if the first has one
      rcases List.mem_cons.mp hs with rfl | hs
      · rw [List.findSome?_cons, hv]
      · rw [List.findSome?_cons, (ht s hs).byteAt_none hv]
        exact ih hrest hs
  rw [wanted, hfind]
  rfl

variable (PROGMEM : Progmem)

/-- Each byte of a segment is read back at its address, and all other cells are as they were. -/
structure RoundTrip (segments : List PrgSegment) (mem mem' : Memory b) : Prop where
  loaded : ∀ s ∈ segments, ∀ j v, s.data[j]? = some v →
    busReadByte PROGMEM mem' (s.loadAddress + .ofNat 16 j) = some v
  others : ∀ i : Fin (totalMemorySize b), (∀ s ∈ segments, s.byteAt i.val = none) →
    mem'.data i = mem.data i

/-- The stray byte of each segment's line is stored over again by a later line, or is the byte
    wanted there. And each byte from the nineteenth offset on has its cell stored to by some line,
    or was there before. -/
structure StrayHarmless (segments : List PrgSegment) (mem : Memory b) : Prop where
  stray : ∀ before s after, segments = before ++ s :: after →
    (∀ t ∈ after, ¬ t.Stores s.strayCell) → strayByte s = wanted segments mem s.strayCell
  cut : ∀ s ∈ segments, ∀ j v, bufferedBytes < j → s.data[j]? = some v →
    (∀ t ∈ segments, ¬ t.Stores (s.loadAddress.toNat + j)) →
    mem.view (s.loadAddress.toNat + j) = v

theorem cellIndex_mirror {a : U16} (h : a.toNat < 0x2000) :
    cellIndex b a = a.toNat % m6502RamSize := by
  unfold cellIndex
  rw [if_pos h]
  rfl

theorem PrgSegment.toNat_offset {s : PrgSegment} (hs : s.InRam) {k : Nat}
    (hk : k ≤ s.data.length) :
    (s.loadAddress + .ofNat 16 k).toNat = s.loadAddress.toNat + k := by
  unfold PrgSegment.InRam m6502RamSize at hs
  rw [BitVec.toNat_add, BitVec.toNat_ofNat]
  omega

theorem PrgSegment.cell_offset {s : PrgSegment} (hs : s.InRam) {k : Nat}
    (hk : k ≤ s.data.length) :
    cellIndex b (s.loadAddress + .ofNat 16 k) = (s.loadAddress.toNat + k) % m6502RamSize := by
  have hval := s.toNat_offset hs hk
  unfold PrgSegment.InRam m6502RamSize at hs
  rw [cellIndex_mirror (by omega), hval]

/-- Of a byte of the segment, the cell is its address. -/
theorem PrgSegment.cell_byte {s : PrgSegment} (hs : s.InRam) {k : Nat} (hk : k < s.data.length) :
    cellIndex b (s.loadAddress + .ofNat 16 k) = s.loadAddress.toNat + k := by
  rw [s.cell_offset hs (Nat.le_of_lt hk)]
  unfold PrgSegment.InRam at hs
  exact Nat.mod_eq_of_lt (by omega)

/-- The round trip is that each cell holds what is wanted. -/
theorem roundTrip_iff_wanted {mem' : Memory b} (hram : ∀ s ∈ segments, s.InRam)
    (hapart : segments.Pairwise PrgSegment.Apart) :
    RoundTrip PROGMEM segments mem mem' ↔ ∀ i, mem'.view i = wanted segments mem i := by
  have hread : ∀ s ∈ segments, ∀ j v, s.data[j]? = some v →
      busReadByte PROGMEM mem' (s.loadAddress + .ofNat 16 j) =
        some (mem'.view (s.loadAddress.toNat + j)) := by
    intro s hs j v hj
    have hlt := PrgSegment.lt_of_getElem? hj
    have hin := hram s hs
    have hval := s.toNat_offset hin (Nat.le_of_lt hlt)
    unfold PrgSegment.InRam m6502RamSize at hin
    rw [busReadByte_eq, peek_eq_view _ _ (by omega), s.cell_byte (hram s hs) hlt]
  constructor
  · intro h i
    by_cases hnone : ∀ s ∈ segments, s.byteAt i = none
    · rw [wanted_of_none hnone]
      unfold Memory.view
      by_cases hi : i < totalMemorySize b
      · rw [dif_pos hi, dif_pos hi]
        exact h.others ⟨i, hi⟩ hnone
      · rw [dif_neg hi, dif_neg hi]
    · push Not at hnone
      obtain ⟨s, hs, hsome⟩ := hnone
      obtain ⟨v, hv⟩ := Option.ne_none_iff_exists'.mp hsome
      obtain ⟨j, hj, rfl⟩ := PrgSegment.byteAt_eq_some_iff.mp hv
      have hloaded := h.loaded s hs j v hj
      rw [hread s hs j v hj] at hloaded
      rw [wanted_of_some hapart hs hv]
      exact Option.some.inj hloaded
  · intro h
    constructor
    · intro s hs j v hj
      rw [hread s hs j v hj, h,
        wanted_of_some hapart hs (PrgSegment.byteAt_eq_some_iff.mpr ⟨j, hj, rfl⟩)]
    · intro i hnone
      have hi := h i.val
      rw [wanted_of_none hnone] at hi
      unfold Memory.view at hi
      rwa [dif_pos i.isLt, dif_pos i.isLt] at hi

end Wanted

/-! ## What one line stores -/

section Line

variable {b : Build} {s : PrgSegment} {i : Nat} {w : U16 × U8}

theorem add_one_offset (a : U16) (k : Nat) : a + 1 + .ofNat 16 k = a + .ofNat 16 (k + 1) := by
  rw [BitVec.add_assoc, Nat.add_comm, BitVec.ofNat_add]
  rfl

theorem bytesAt_append (a : U16) (xs ys : List U8) :
    bytesAt a (xs ++ ys) = bytesAt a xs ++ bytesAt (a + .ofNat 16 xs.length) ys := by
  induction xs generalizing a with
  | nil =>
    have hzero : a + .ofNat 16 0 = a := BitVec.add_zero a
    rw [List.nil_append, List.length_nil, hzero]
    rfl
  | cons x xs ih =>
    rw [List.cons_append, bytesAt, bytesAt, ih, add_one_offset]
    rfl

theorem mem_bytesAt {a : U16} {vs : List U8} :
    w ∈ bytesAt a vs ↔ ∃ k, vs[k]? = some w.2 ∧ w.1 = a + .ofNat 16 k := by
  induction vs generalizing a with
  | nil => simp [bytesAt]
  | cons v vs ih =>
    have hzero : a + .ofNat 16 0 = a := BitVec.add_zero a
    rw [bytesAt, List.mem_cons, ih]
    constructor
    · rintro (rfl | ⟨k, hk, hw⟩)
      · exact ⟨0, rfl, hzero.symm⟩
      · exact ⟨k + 1, hk, hw.trans (add_one_offset a k)⟩
    · rintro ⟨k, hk, hw⟩
      cases k with
      | zero => exact .inl (Prod.ext (hw.trans hzero) (Option.some.inj hk).symm)
      | succ k => exact .inr ⟨k, hk, hw.trans (add_one_offset a k).symm⟩

theorem lineWrites_eq (s : PrgSegment) :
    lineWrites s = bytesAt s.loadAddress (s.data.take bufferedBytes) ++
      [(s.loadAddress + .ofNat 16 s.buffered, strayByte s)] := by
  rw [lineWrites, lineBytes, bytesAt_append, List.length_take]
  rfl

theorem mem_buffered :
    w ∈ bytesAt s.loadAddress (s.data.take bufferedBytes) ↔
      ∃ k < s.buffered, s.data[k]? = some w.2 ∧ w.1 = s.loadAddress + .ofNat 16 k := by
  rw [mem_bytesAt]
  constructor
  · rintro ⟨k, hk, hw⟩
    obtain ⟨hlt, hget⟩ := List.getElem?_eq_some_iff.mp hk
    rw [List.length_take] at hlt
    rw [List.getElem_take] at hget
    exact ⟨k, hlt, List.getElem?_eq_some_iff.mpr ⟨by omega, hget⟩, hw⟩
  · rintro ⟨k, hlt, hk, hw⟩
    have hbuffered : k < bufferedBytes := Nat.lt_of_lt_of_le hlt (Nat.min_le_left _ _)
    exact ⟨k, by rw [List.getElem?_take_of_lt hbuffered, hk], hw⟩

/-- The stray byte is the last one a line stores. -/
theorem lastWrite_line (hs : s.InRam) :
    lastWrite (fun a => cellIndex b a = i) (lineWrites s) =
      if i = s.strayCell then some (s.loadAddress + .ofNat 16 s.buffered, strayByte s)
      else lastWrite (fun a => cellIndex b a = i)
        (bytesAt s.loadAddress (s.data.take bufferedBytes)) := by
  have hcell : cellIndex b (s.loadAddress + .ofNat 16 s.buffered) = s.strayCell :=
    s.cell_offset hs PrgSegment.buffered_le
  rw [lineWrites_eq, lastWrite_append, lastWrite_singleton, hcell]
  by_cases hi : i = s.strayCell
  · rw [if_pos hi, if_pos hi.symm, Option.some_or]
  · rw [if_neg hi, if_neg (Ne.symm hi), Option.none_or]

theorem lastWrite_line_eq_none_iff (hs : s.InRam) :
    lastWrite (fun a => cellIndex b a = i) (lineWrites s) = none ↔ ¬ s.Stores i := by
  have hbytes : (∀ w ∈ bytesAt s.loadAddress (s.data.take bufferedBytes), cellIndex b w.1 ≠ i) ↔
      ¬ (s.loadAddress.toNat ≤ i ∧ i < s.loadAddress.toNat + s.buffered) := by
    constructor
    · rintro h ⟨hle, hlt⟩
      obtain ⟨k, rfl⟩ := Nat.exists_eq_add_of_le hle
      have hk : k < s.buffered := Nat.lt_of_add_lt_add_left hlt
      have hlen : k < s.data.length := Nat.lt_of_lt_of_le hk PrgSegment.buffered_le
      refine h (s.loadAddress + .ofNat 16 k, s.data[k]) ?_ (s.cell_byte hs hlen)
      exact mem_buffered.mpr ⟨k, hk, List.getElem?_eq_getElem hlen, rfl⟩
    · intro h w hw hcell
      obtain ⟨k, hk, -, hat⟩ := mem_buffered.mp hw
      rw [hat, s.cell_byte hs (Nat.lt_of_lt_of_le hk PrgSegment.buffered_le)] at hcell
      exact h ⟨by omega, by omega⟩
  rw [lastWrite_line hs]
  unfold PrgSegment.Stores
  by_cases hi : i = s.strayCell
  · rw [if_pos hi]
    exact iff_of_false (by simp) (not_not_intro (.inr hi))
  · rw [if_neg hi, lastWrite_eq_none_iff, not_or, hbytes]
    exact (and_iff_left hi).symm

/-- A line stores its stray byte last; in other cells it stores the segment's bytes. -/
theorem lastWrite_line_eq_some (hs : s.InRam)
    (h : lastWrite (fun a => cellIndex b a = i) (lineWrites s) = some w) :
    (i = s.strayCell ∧ w.2 = strayByte s) ∨ s.byteAt i = some w.2 := by
  rw [lastWrite_line hs] at h
  by_cases hi : i = s.strayCell
  · rw [if_pos hi] at h
    exact .inl ⟨hi, by rw [← Option.some.inj h]⟩
  · rw [if_neg hi] at h
    obtain ⟨k, hk, hget, hat⟩ := mem_buffered.mp (lastWrite_mem h)
    have hcell := lastWrite_spec h
    rw [hat, s.cell_byte hs (Nat.lt_of_lt_of_le hk PrgSegment.buffered_le)] at hcell
    exact .inr (PrgSegment.byteAt_eq_some_iff.mpr ⟨k, hget, hcell.symm⟩)

/-- Only a byte of an offset past the buffer has its cell left alone by its own line. -/
theorem PrgSegment.stores_of_getElem? (hs : s.InRam) {j : Nat} {v : U8}
    (hj : s.data[j]? = some v) (hle : j ≤ bufferedBytes) :
    s.Stores (s.loadAddress.toNat + j) := by
  have hlt := lt_of_getElem? hj
  unfold InRam at hs
  unfold Stores strayCell buffered
  rcases Nat.lt_or_eq_of_le hle with hbuffered | rfl
  · left
    omega
  · right
    rw [Nat.min_eq_left (Nat.le_of_lt hlt), Nat.mod_eq_of_lt (by omega)]

end Line

/-! ## What the whole file stores -/

section File

variable {b : Build} {segments : List PrgSegment} {mem : Memory b}

/-- The byte a cell holds after the file is loaded. -/
def loadedByte (segments : List PrgSegment) (mem : Memory b) (i : Nat) : U8 :=
  writeAll (cellIndex b) mem.view (segments.flatMap lineWrites) i

/-- Each cell holds what is wanted exactly if the stray bytes and the lost ones do no harm. -/
theorem loadedByte_eq_wanted_iff (hram : ∀ s ∈ segments, s.InRam)
    (hapart : segments.Pairwise PrgSegment.Apart) :
    (∀ i, loadedByte segments mem i = wanted segments mem i) ↔ StrayHarmless segments mem := by
  unfold loadedByte
  constructor
  · intro h
    constructor
    · intro before s after hsplit hafter
      -- of the writes to the stray cell the last is that of its own line
      have hmem : ∀ t ∈ s :: after, t.InRam := fun t ht =>
        hram t (hsplit ▸ List.mem_append_right before ht)
      have hline := lastWrite_line (b := b) (i := s.strayCell) (hmem s List.mem_cons_self)
      rw [if_pos rfl] at hline
      have hlast := lastWrite_flatMap_eq_some_iff.mpr ⟨before, s, after, hsplit, hline,
        fun t ht => (lastWrite_line_eq_none_iff (hmem t (List.mem_cons_of_mem s ht))).mpr
          (hafter t ht)⟩
      rw [← h, writeAll_apply, hlast]
      rfl
    · intro s hs j v hlt hj hnone
      -- nothing is stored there, so the byte must have been there before
      have hlast := lastWrite_flatMap_eq_none_iff.mpr fun t ht =>
        (lastWrite_line_eq_none_iff (b := b) (hram t ht)).mpr (hnone t ht)
      have hwanted := h (s.loadAddress.toNat + j)
      rw [writeAll_apply, hlast,
        wanted_of_some hapart hs (PrgSegment.byteAt_eq_some_iff.mpr ⟨j, hj, rfl⟩)] at hwanted
      exact hwanted
  · intro h i
    rw [writeAll_apply]
    cases hlast : lastWrite (fun a => cellIndex b a = i) (segments.flatMap lineWrites) with
    | none =>
      -- no line stores in the cell: a byte for it can only be one past the buffer
      have hnone : ∀ t ∈ segments, ¬ t.Stores i := fun t ht =>
        (lastWrite_line_eq_none_iff (hram t ht)).mp (lastWrite_flatMap_eq_none_iff.mp hlast t ht)
      by_cases hbyte : ∀ s ∈ segments, s.byteAt i = none
      · exact (wanted_of_none hbyte).symm
      · push Not at hbyte
        obtain ⟨s, hs, hsome⟩ := hbyte
        obtain ⟨v, hv⟩ := Option.ne_none_iff_exists'.mp hsome
        rw [wanted_of_some hapart hs hv]
        obtain ⟨j, hj, rfl⟩ := PrgSegment.byteAt_eq_some_iff.mp hv
        refine h.cut s hs j v (Nat.lt_of_not_le fun hle => ?_) hj hnone
        exact hnone s hs (s.stores_of_getElem? (hram s hs) hj hle)
    | some w =>
      -- the last line that stores in the cell, with a stray byte or one of its segment's
      obtain ⟨before, s, after, hsplit, hline, hafter⟩ := lastWrite_flatMap_eq_some_iff.mp hlast
      have hmem : ∀ t ∈ s :: after, t ∈ segments := fun t ht =>
        hsplit ▸ List.mem_append_right before ht
      have hs := hmem s List.mem_cons_self
      rcases lastWrite_line_eq_some (hram s hs) hline with ⟨rfl, hw⟩ | hbyte
      · have hstray := h.stray before s after hsplit fun t ht =>
          (lastWrite_line_eq_none_iff (hram t (hmem t (List.mem_cons_of_mem s ht)))).mp
            (hafter t ht)
        rw [← hstray, ← hw]
        rfl
      · rw [wanted_of_some hapart hs hbyte]
        rfl

theorem lineWrites_inRam (hram : ∀ s ∈ segments, s.InRam) :
    ∀ w ∈ segments.flatMap lineWrites, w.1.toNat < 0x8000 := by
  intro w hw
  obtain ⟨s, hs, hw⟩ := List.mem_flatMap.mp hw
  have hin := hram s hs
  obtain ⟨k, hk, hat⟩ := mem_bytesAt.mp hw
  have hlt := (List.getElem?_eq_some_iff.mp hk).1
  have hle : k ≤ s.data.length := by
    rw [lineBytes, List.length_append, List.length_take, List.length_singleton] at hlt
    omega
  rw [hat, s.toNat_offset hin hle]
  unfold PrgSegment.InRam m6502RamSize at hin
  omega

/-- **What the loader leaves of a file that was written.** -/
theorem loadPrgFileOn_written (PROGMEM : Progmem) {longBits : Nat} (hlong : 32 ≤ longBits)
    (hram : ∀ s ∈ segments, s.InRam) (mem : Memory b) :
    ∃ mem', loadPrgFileOn longBits PROGMEM (some (segments.flatMap segmentText)) mem =
        some (0, mem') ∧ mem'.view = loadedByte segments mem := by
  obtain ⟨mem', hmem', hview⟩ := busWriteBytes_view _ mem (lineWrites_inRam hram)
  refine ⟨mem', ?_, hview⟩
  unfold loadPrgFileOn
  rw [loadPrgFile_written hlong, Prog.run_bind, writeEach_run, hmem']
  rfl

/-- **A file that was written is loaded with its return value 0, and the round trip succeeds
    exactly if** the stray bytes and the lost ones do no harm. -/
theorem prgFile_roundTrip_iff (b : Build) (PROGMEM : Progmem) {longBits : Nat}
    (hlong : 32 ≤ longBits) {opens : Bool} {segments : List PrgSegment}
    {file : Option (List Char)} (hwrite : writePrgFile opens segments = (0, file))
    (hram : ∀ s ∈ segments, s.InRam) (hapart : segments.Pairwise PrgSegment.Apart)
    (mem : Memory b) :
    ∃ mem', loadPrgFileOn longBits PROGMEM file mem = some (0, mem') ∧
      (RoundTrip PROGMEM segments mem mem' ↔ StrayHarmless segments mem) := by
  have hfile : file = some (segments.flatMap segmentText) := by
    unfold writePrgFile at hwrite
    cases opens with
    | false => exact absurd (congrArg Prod.fst hwrite) (by simp)
    | true => exact (congrArg Prod.snd hwrite).symm
  obtain ⟨mem', hload, hview⟩ := loadPrgFileOn_written PROGMEM hlong hram mem
  refine ⟨mem', hfile ▸ hload, ?_⟩
  rw [roundTrip_iff_wanted PROGMEM hram hapart, ← loadedByte_eq_wanted_iff hram hapart, hview]

/-- Two segments: the stray byte of the first is stored over by the second. -/
def abutting : List PrgSegment := [⟨0x0010, [0xDE, 0xAD], by decide⟩, ⟨0x0012, [0xBE], by decide⟩]

/-- In a memory of zeros the stray byte of the second does no harm either. -/
theorem prgFile_roundTrip_iff_abutting :
    ∃ mem', loadPrgFileOn 64 (fun _ => 0) (some (abutting.flatMap segmentText))
        (⟨fun _ => 0⟩ : Memory ⟨false⟩) = some (0, mem') ∧
      (RoundTrip (fun _ => 0) abutting ⟨fun _ => 0⟩ mem' ↔
        StrayHarmless abutting (⟨fun _ => 0⟩ : Memory ⟨false⟩)) :=
  prgFile_roundTrip_iff ⟨false⟩ (fun _ => 0) (by decide)
    (show writePrgFile true abutting = _ from rfl) (by decide) (by decide) ⟨fun _ => 0⟩

/-- One byte, loaded at `0x0010` over a memory of `0xFF`: the byte after it is zeroed. -/
theorem not_prgFile_roundTrip :
    ¬ ∀ (b : Build) (PROGMEM : Progmem) (longBits : Nat), 32 ≤ longBits →
      ∀ (opens : Bool) (segments : List PrgSegment) (file : Option (List Char)),
        writePrgFile opens segments = (0, file) → (∀ s ∈ segments, s.InRam) →
        segments.Pairwise PrgSegment.Apart → ∀ mem : Memory b,
        ∃ mem', loadPrgFileOn longBits PROGMEM file mem = some (0, mem') ∧
          RoundTrip PROGMEM segments mem mem' := by
  intro h
  obtain ⟨mem', hload, htrip⟩ := h ⟨false⟩ (fun _ => 0) 64 (by decide) true
    [⟨0x0010, [0xAA], by decide⟩] _ rfl (by decide) (by decide) ⟨fun _ => 0xFF⟩
  have hzero : (loadPrgFileOn 64 (fun _ => 0)
      (some ([(⟨0x0010, [0xAA], by decide⟩ : PrgSegment)].flatMap segmentText))
      (⟨fun _ => 0xFF⟩ : Memory ⟨false⟩)).map (fun r => r.2.data ⟨0x11, by decide⟩) = some 0 := by
    decide +kernel
  have hsame : mem'.data ⟨0x11, by decide⟩ = 0xFF := htrip.others ⟨0x11, by decide⟩ (by decide)
  rw [hload, Option.map_some, hsame] at hzero
  exact absurd hzero (by decide)

end File

end M6502
