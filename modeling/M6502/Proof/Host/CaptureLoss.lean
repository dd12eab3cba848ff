import M6502.Proof.Cpu.Inert
import M6502.Proof.Cpu.Stack
import M6502.Proof.Host.Capture

/-!
# What `wozmon read` loses

The program sends a line by storing its characters in `ACIA_DATA` one after the other, and the
loop of `wozmon read` tells them apart by their values. A character that is the same as the one
before it is not seen, nor one that is there when the command begins. Where every store is a
change, and nothing else changes the cell (`StoresSeen`), the line is what was stored; and
where nothing else changes the cell, only there (`capture_complete_iff`).
-/

set_option autoImplicit false

namespace M6502

open Lib Cpu
open Shell (ReadLocals)

variable {b : Build} (PROGMEM : Progmem)

/-! ## What an instruction stores in a cell above the stack -/

/-- The bytes the next instruction stores at `ACIA_DATA`. -/
def dataStores (x : Host b) : List U8 :=
  (stepWrites PROGMEM x.machine).filterMap fun w => if w.1 = aciaData then some w.2 else none

/-- An instruction makes one store at most, and what it pushes. -/
theorem stepWrites_split (x : Machine b) :
    ∃ ws stack, stepWrites PROGMEM x = ws ++ stack ∧ ws.length ≤ 1 ∧
      ∀ w ∈ stack, w.1.toNat < 0x200 := by
  cases hop : Ins.ofOpcode? (opcodeAt PROGMEM x) with
  | some i =>
    rw [stepWrites_at PROGMEM (Ins.opcode_of_ofOpcode? hop)]
    refine ⟨_, stackWrites x.1.cpu.SP (i.pushed x.1.cpu), rfl, ?_, fun w => stackWrites_lt⟩
    cases i.store? <;> simp
  | none =>
    by_cases hh : opcodeAt PROGMEM x ∈ holes
    · refine ⟨[(x.1.addr, holeByte (opcodeAt PROGMEM x) x.1)], [], ?_, by simp, ?_⟩
      · unfold stepWrites
        rw [execute_hole hop hh]
        rfl
      · intro w hw
        cases hw
    · refine ⟨[], [], ?_, by simp, ?_⟩
      · unfold stepWrites
        rw [execute_inert hop hh]
        rfl
      · intro w hw
        cases hw

theorem dataStores_cases (x : Host b) :
    dataStores PROGMEM x = [] ∨
      ∃ c, dataStores PROGMEM x = [c] ∧ (x.stepped PROGMEM).acia PROGMEM = c := by
  obtain ⟨ws, stack, hsplit, hlen, hstack⟩ := stepWrites_split PROGMEM x.machine
  have hhigh : ∀ w ∈ stack, (if w.1 = aciaData then some w.2 else none) = none := by
    intro w hw
    refine if_neg fun he => ?_
    have hlow := hstack w hw
    rw [he] at hlow
    exact absurd hlow (by decide)
  have hfilter : dataStores PROGMEM x =
      ws.filterMap fun w => if w.1 = aciaData then some w.2 else none := by
    unfold dataStores
    rw [hsplit, List.filterMap_append, List.filterMap_eq_nil_iff.mpr hhigh, List.append_nil]
  rw [hfilter]
  cases ws with
  | nil => exact .inl rfl
  | cons w ws =>
    obtain rfl : ws = [] := by simpa using hlen
    by_cases hw : w.1 = aciaData
    · refine .inr ⟨w.2, by simp [hw], ?_⟩
      have hcell : ∀ u ∈ stack, cellIndex b u.1 ≠ cellIndex b aciaData := by
        intro u hu
        have hlow := hstack u hu
        have hdata : cellIndex b aciaData = 0x908 := rfl
        rw [hdata]
        unfold cellIndex
        rw [if_pos (by omega)]
        omega
      have hmem : (x.stepped PROGMEM).mem = pokes (poke x.mem w.1 w.2) stack := by
        show (stepOf PROGMEM x.machine).2 = _
        rw [stepOf_mem_stepWrites, hsplit]
        rfl
      unfold Host.acia Host.byteAt
      rw [hmem, peek_pokes_of_ne PROGMEM hcell, hw]
      exact peek_poke_same PROGMEM _ _ (by decide) rfl
    · exact .inl (by simp [hw])

/-! ## What is stored in a run -/

/-- The bytes the first `k` instructions store at `ACIA_DATA`. -/
def stored (k : Nat) (x : Host b) : List U8 :=
  (visited (pollStep PROGMEM) k x).flatMap (dataStores PROGMEM)

/-- If the instruction stores nothing at `ACIA_DATA`, the byte there stays. -/
def Direct (x : Host b) : Prop :=
  dataStores PROGMEM x = [] → (x.stepped PROGMEM).acia PROGMEM = x.acia PROGMEM

/-- What is stored at `ACIA_DATA` differs from what is there. -/
def Fresh (x : Host b) : Prop := ∀ c ∈ dataStores PROGMEM x, c ≠ x.acia PROGMEM

/-- The instruction changes the byte in `ACIA_DATA` exactly if it stores there. -/
def StoresSeen (x : Host b) : Prop := Fresh PROGMEM x ∧ Direct PROGMEM x

instance (x : Host b) : Decidable (StoresSeen PROGMEM x) :=
  inferInstanceAs (Decidable ((∀ c ∈ dataStores PROGMEM x, c ≠ x.acia PROGMEM) ∧
    (dataStores PROGMEM x = [] → (x.stepped PROGMEM).acia PROGMEM = x.acia PROGMEM)))

section Run

variable {PROGMEM} {k : Nat} {x y : Host b}

theorem stored_succ (h : iter (pollStep PROGMEM) k x = some y) :
    stored PROGMEM (k + 1) x = stored PROGMEM k x ++ dataStores PROGMEM y := by
  unfold stored
  rw [visited_succ_last h, List.flatMap_append, List.flatMap_singleton]

/-- The states of a run that is one instruction longer. -/
theorem forall_visited_succ {P : Host b → Prop} (h : iter (pollStep PROGMEM) k x = some y) :
    (∀ z ∈ visited (pollStep PROGMEM) (k + 1) x, P z) ↔
      (∀ z ∈ visited (pollStep PROGMEM) k x, P z) ∧ P y := by
  rw [visited_succ_last h, List.forall_mem_append, List.forall_mem_singleton]

/-- Where nothing else changes the cell, it shows the last byte stored. -/
theorem acia_eq_last (h : iter (pollStep PROGMEM) k x = some y)
    (hdirect : ∀ z ∈ visited (pollStep PROGMEM) k x, Direct PROGMEM z) :
    y.acia PROGMEM = (stored PROGMEM k x).getLastD (x.acia PROGMEM) := by
  induction k generalizing y with
  | zero =>
    obtain rfl := Option.some.inj h
    rfl
  | succ k ih =>
    obtain ⟨z, hz, -, -, rfl⟩ := (iter_pollStep_succ_iff PROGMEM).mp h
    obtain ⟨hdirect, hlast⟩ := (forall_visited_succ hz).mp hdirect
    rw [stored_succ hz]
    rcases dataStores_cases PROGMEM z with hnone | ⟨c, hone, hc⟩
    · rw [hlast hnone, hnone, List.append_nil]
      exact ih hz hdirect
    · rw [hone, List.getLastD_concat, hc]

/-- Where nothing else changes the cell, its changes are those of the bytes stored. -/
theorem caught_eq_changes (h : iter (pollStep PROGMEM) k x = some y)
    (hdirect : ∀ z ∈ visited (pollStep PROGMEM) k x, Direct PROGMEM z) :
    caught PROGMEM (k + 1) x = changes (x.acia PROGMEM) (stored PROGMEM k x) := by
  induction k generalizing y with
  | zero =>
    obtain rfl := Option.some.inj h
    rw [caught_succ (k := 0) rfl]
    exact if_pos rfl
  | succ k ih =>
    obtain ⟨z, hz, -, -, rfl⟩ := (iter_pollStep_succ_iff PROGMEM).mp h
    obtain ⟨hdirect, hlast⟩ := (forall_visited_succ hz).mp hdirect
    have hacia := acia_eq_last hz hdirect
    rw [caught_succ h, lastPoll_succ hz, ih hz hdirect, stored_succ hz]
    rcases dataStores_cases PROGMEM z with hnone | ⟨c, hone, hc⟩
    · rw [if_pos (hlast hnone), hnone, List.append_nil, List.append_nil]
    · rw [hc, hone, changes_append_singleton, hacia]

/-- None of the bytes stored is missing among the changes exactly if each was one. -/
theorem changes_stored_iff (h : iter (pollStep PROGMEM) k x = some y)
    (hdirect : ∀ z ∈ visited (pollStep PROGMEM) k x, Direct PROGMEM z) :
    changes (x.acia PROGMEM) (stored PROGMEM k x) = stored PROGMEM k x ↔
      ∀ z ∈ visited (pollStep PROGMEM) k x, Fresh PROGMEM z := by
  induction k generalizing y with
  | zero =>
    refine iff_of_true rfl ?_
    intro z hz
    cases hz
  | succ k ih =>
    obtain ⟨z, hz, -⟩ := iter_succ_last_iff.mp h
    obtain ⟨hdirect, -⟩ := (forall_visited_succ hz).mp hdirect
    rw [stored_succ hz, forall_visited_succ hz, ← ih hz hdirect]
    rcases dataStores_cases PROGMEM z with hnone | ⟨c, hone, -⟩
    · have hfresh : Fresh PROGMEM z := by
        intro c hc
        rw [hnone] at hc
        cases hc
      rw [hnone, List.append_nil, and_iff_left hfresh]
    · have hfresh : Fresh PROGMEM z ↔ c ≠ z.acia PROGMEM := by
        unfold Fresh
        rw [hone, List.forall_mem_singleton]
      rw [hone, changes_append_singleton_eq_iff, hfresh, acia_eq_last hz hdirect]

end Run

/-! ## A line that is printed -/

/-- In round `k` of the command the carriage return is found; `u` are the loop's variables when
    it has been kept, and the line is printed. -/
structure PrintsLine (x : Host b) (k : Nat) (v : ReadLocals) (y : Host b) (u : ReadLocals) :
    Prop where
  head : ReadHead PROGMEM x k (v, y)
  goesOn : ReadGoesOn PROGMEM (v, y)
  found : y.acia PROGMEM = carriageReturn
  new : y.acia PROGMEM ≠ v.monData
  kept : v.store carriageReturn = some u

/-- The bytes collected in the buffer. -/
def collected (u : ReadLocals) : List U8 := (List.ofFn u.buf).take u.inputIndex

theorem collected_localsOf {cs : List U8} (h : cs.length ≤ 0x0100) (mon_data : U8) :
    collected (localsOf mon_data cs) = cs := by
  unfold collected localsOf
  refine List.ext_getElem ?_ fun i _ hi => ?_
  · rw [List.length_take, List.length_ofFn]
    exact Nat.min_eq_left h
  · rw [List.getElem_take, List.getElem_ofFn]
    exact List.getD_eq_getElem _ _ hi

section Prints

variable {PROGMEM} {k : Nat} {x y : Host b} {v u : ReadLocals}

/-- What is collected are the changes, the carriage return last. -/
theorem PrintsLine.collected_eq (h : PrintsLine PROGMEM x k v y u) :
    iter (pollStep PROGMEM) k x = some y ∧ carriageReturn ∉ caught PROGMEM k x ∧
      lastPoll PROGMEM k x ≠ carriageReturn ∧
      collected u = caught PROGMEM k x ++ [carriageReturn] := by
  obtain ⟨hy, hcr, hlen, rfl⟩ := (readHead_iff PROGMEM).mp ⟨h.head, h.goesOn.2⟩
  have hne : y.acia PROGMEM ≠ lastPoll PROGMEM k x := h.new
  have hkept := h.kept
  rw [localsOf_store] at hkept
  by_cases hroom : (caught PROGMEM k x).length < 0x0100
  · rw [if_pos hroom] at hkept
    obtain rfl := Option.some.inj hkept
    refine ⟨hy, hcr, fun he => hne (h.found.trans he.symm), collected_localsOf ?_ _⟩
    rw [List.length_append]
    exact hroom
  · rw [if_neg hroom] at hkept
    cases hkept

/-- The other way round: a run that sees a carriage return, in a line there is room for. -/
theorem printsLine_of_caught (hy : iter (pollStep PROGMEM) k x = some y)
    (hpc : y.cpu.PC ≠ irqAddress PROGMEM) (hfound : y.acia PROGMEM = carriageReturn)
    (hnew : lastPoll PROGMEM k x ≠ carriageReturn) (hcr : carriageReturn ∉ caught PROGMEM k x)
    (hroom : (caught PROGMEM k x).length < 0x0100) :
    PrintsLine PROGMEM x k (localsOf (lastPoll PROGMEM k x) (caught PROGMEM k x)) y
      (localsOf carriageReturn (caught PROGMEM k x ++ [carriageReturn])) := by
  obtain ⟨hhead, hdone⟩ := (readHead_iff PROGMEM).mpr ⟨hy, hcr, Nat.le_of_lt hroom, rfl⟩
  refine ⟨hhead, ⟨hpc, hdone⟩, hfound, fun he => ?_, ?_⟩
  · exact hnew (he.symm.trans hfound)
  · rw [localsOf_store, if_pos hroom]

theorem PrintsLine.collected_eq_iff (h : PrintsLine PROGMEM x k v y u)
    (hdirect : ∀ z ∈ visited (pollStep PROGMEM) k x, Direct PROGMEM z) :
    collected u = upTo carriageReturn (stored PROGMEM k x) ↔
      ∀ z ∈ visited (pollStep PROGMEM) k x, Fresh PROGMEM z := by
  obtain ⟨hy, hcr, hlast, hcollected⟩ := h.collected_eq
  cases k with
  | zero =>
    -- what is there when the command begins is not seen
    obtain rfl := Option.some.inj hy
    exact absurd h.found hlast
  | succ k =>
    obtain ⟨z, hz, -, -, rfl⟩ := (iter_pollStep_succ_iff PROGMEM).mp hy
    obtain ⟨hdirect, hlaststep⟩ := (forall_visited_succ hz).mp hdirect
    rw [lastPoll_succ hz] at hlast
    -- the last instruction stored the carriage return
    have hstore : dataStores PROGMEM z = [carriageReturn] := by
      rcases dataStores_cases PROGMEM z with hnone | ⟨c, hone, hc⟩
      · exact absurd ((hlaststep hnone).symm.trans h.found) hlast
      · rw [hone, ← hc, h.found]
    have hstored : stored PROGMEM (k + 1) x = stored PROGMEM k x ++ [carriageReturn] := by
      rw [stored_succ hz, hstore]
    have hcaught := caught_eq_changes hz hdirect
    have hacia := acia_eq_last hz hdirect
    rw [hcaught] at hcr hcollected
    rw [hcollected, hstored, changes_append_eq_upTo_iff hcr (hacia ▸ hlast),
      changes_stored_iff hz hdirect, forall_visited_succ hz]
    have hfresh : Fresh PROGMEM z := by
      unfold Fresh
      rw [hstore, List.forall_mem_singleton]
      exact Ne.symm hlast
    exact (and_iff_left hfresh).symm

end Prints

/-- **Nothing is lost and nothing added if** up to the print an instruction changes `ACIA_DATA`
    exactly if it stores there. **And only if**, in a run that changes it in no other way. -/
theorem capture_complete_iff (b : Build) (PROGMEM : Progmem) (x y : Host b) (k : Nat)
    (v u : ReadLocals) (h : PrintsLine PROGMEM x k v y u) :
    ((∀ z ∈ visited (pollStep PROGMEM) k x, StoresSeen PROGMEM z) →
      collected u = upTo carriageReturn (stored PROGMEM k x)) ∧
    ((∀ z ∈ visited (pollStep PROGMEM) k x, Direct PROGMEM z) →
      collected u = upTo carriageReturn (stored PROGMEM k x) →
        ∀ z ∈ visited (pollStep PROGMEM) k x, StoresSeen PROGMEM z) := by
  constructor
  · intro hseen
    exact (h.collected_eq_iff fun z hz => (hseen z hz).2).mpr fun z hz => (hseen z hz).1
  · intro hdirect heq z hz
    exact ⟨(h.collected_eq_iff hdirect).mp heq z hz, hdirect z hz⟩

/-- `LDA #c`, `STA ACIA_DATA` for each character, at `0x8000`. -/
def echoProgmem (line : List U8) : Progmem := fun i =>
  (line.flatMap fun c => [0xA9, c, 0x8D, 0x00, 0x41]).getD i.val 0

def echoHost : Host ⟨false⟩ where
  cpu := { olc6502Init with PC := 0x8000 }
  oopsCycle := false
  mem := ⟨fun _ => 0⟩
  output := []

/-- After as many instructions as it takes the line has been sent. -/
theorem echo_prints (line : List U8) {k : Nat}
    (hrun : (iter (pollStep (echoProgmem line)) k echoHost).map (fun y =>
      (y.cpu.PC, y.acia (echoProgmem line))) = some (0x8000 + .ofNat 16 (5 * line.length), 0x0D))
    (hpc : (0x8000 + .ofNat 16 (5 * line.length) : U16) ≠ irqAddress (echoProgmem line))
    (hlast : lastPoll (echoProgmem line) k echoHost ≠ carriageReturn)
    (hcr : carriageReturn ∉ caught (echoProgmem line) k echoHost)
    (hroom : (caught (echoProgmem line) k echoHost).length < 0x0100) :
    ∃ v y, PrintsLine (echoProgmem line) echoHost k v y
      (localsOf carriageReturn (caught (echoProgmem line) k echoHost ++ [carriageReturn])) := by
  obtain ⟨y, hy, he⟩ := Option.map_eq_some_iff.mp hrun
  obtain ⟨hat, hfound⟩ := Prod.mk.inj he
  exact ⟨_, y, printsLine_of_caught hy (by rw [hat]; exact hpc) hfound hlast hcr hroom⟩

/-- The line `A`. -/
theorem capture_complete_iff_echo :
    collected (localsOf carriageReturn
        (caught (echoProgmem [0x41, 0x0D]) 4 echoHost ++ [carriageReturn])) =
      upTo carriageReturn (stored (echoProgmem [0x41, 0x0D]) 4 echoHost) := by
  obtain ⟨v, y, h⟩ := echo_prints [0x41, 0x0D] (k := 4) (by decide +kernel)
    (by decide +kernel) (by decide +kernel) (by decide +kernel) (by decide +kernel)
  exact (capture_complete_iff ⟨false⟩ _ echoHost y 4 v _ h).1 (by decide +kernel)

/-- Of the line `AA` one character is lost. -/
theorem not_capture_complete :
    ¬ ∀ (b : Build) (PROGMEM : Progmem) (x y : Host b) (k : Nat) (v u : ReadLocals),
      PrintsLine PROGMEM x k v y u → u.inputIndex < 0x0100 →
        collected u = upTo carriageReturn (stored PROGMEM k x) := by
  intro h
  obtain ⟨v, y, hprints⟩ := echo_prints [0x41, 0x41, 0x0D] (k := 6) (by decide +kernel)
    (by decide +kernel) (by decide +kernel) (by decide +kernel) (by decide +kernel)
  have heq := h ⟨false⟩ _ echoHost y 6 v _ hprints (by decide +kernel)
  have hcaught : caught (echoProgmem [0x41, 0x41, 0x0D]) 6 echoHost = [0x41] := by decide +kernel
  have hstored : stored (echoProgmem [0x41, 0x41, 0x0D]) 6 echoHost = [0x41, 0x41, 0x0D] := by
    decide +kernel
  rw [hcaught, hstored, collected_localsOf (by decide)] at heq
  exact absurd heq (by decide)

end M6502
