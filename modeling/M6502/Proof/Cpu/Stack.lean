import M6502.Proof.Cpu.Operand

/-!
# The stack page

Pushes go to the 256 cells from `0x0100` on, from `SP` downwards and around. So long as a
sequence of them does not come around onto itself, each byte is found in its own cell
afterwards (`peek_stackWrites`).
-/

set_option autoImplicit false

namespace M6502

open Lib Cpu

variable {b : Build} (PROGMEM : Progmem)

/-- `SP` as each instruction leaves it. -/
def codeSp (i : Ins) (SP : U8) : U8 :=
  match i with
  | .pha | .php => SP - 1
  | .jsr => SP - 1 - 1
  | .brk => SP - 1 - 1 - 1
  | .pla | .plp => SP + 1
  | .rts => SP + 1 + 1
  | .rti => SP + 1 + 1 + 1
  | _ => SP

theorem branchResult_sp (aaa : U8) (s : Clock) (offset : U8) :
    (branchResult aaa s offset).cpu.SP = s.cpu.SP := by
  unfold branchResult
  dsimp only
  split <;> rfl

theorem stepOf_sp {i : Ins} {x : Machine b} (h : At PROGMEM i x) :
    (stepOf PROGMEM x).1.cpu.SP = codeSp i x.1.cpu.SP := by
  by_cases hb : i.group = .branch
  · rw [stepOf_branch PROGMEM h hb]
    refine (branchResult_sp _ x.1.afterFetch _).trans ?_
    cases i <;> first | rfl | cases hb
  · rw [stepOf_arms PROGMEM h]
    cases i <;> first | exact absurd rfl hb | rfl

theorem cellIndex_stackAddress (SP : U8) : cellIndex b (stackAddress SP) = 0x100 + SP.toNat := by
  have hval : (stackAddress SP).toNat = 0x100 + SP.toNat := by
    unfold stackAddress stackBase
    bv_omega
  have hlt := SP.isLt
  unfold cellIndex
  rw [hval, if_pos (by omega)]
  omega

theorem peek_pokes_of_ne {ws : List (U16 × U8)} {mem : Memory b} {a : U16}
    (h : ∀ w ∈ ws, cellIndex b w.1 ≠ cellIndex b a) :
    peek PROGMEM (pokes mem ws) a = peek PROGMEM mem a := by
  induction ws generalizing mem with
  | nil => rfl
  | cons w ws ih =>
    obtain ⟨hw, hws⟩ := List.forall_mem_cons.mp h
    show peek PROGMEM (pokes (poke mem w.1 w.2) ws) a = _
    rw [ih hws, peek_poke_of_ne _ _ _ fun _ => hw]

/-- The `k`-th push goes to the `k`-th cell below `SP`. -/
theorem stackWrites_mem {SP : U8} {vs : List U8} {w : U16 × U8} (h : w ∈ stackWrites SP vs) :
    ∃ k < vs.length, w.1 = stackAddress (SP - .ofNat 8 k) ∧ vs[k]? = some w.2 := by
  induction vs generalizing SP with
  | nil => cases h
  | cons v vs ih =>
    rcases List.mem_cons.mp h with rfl | h
    · exact ⟨0, Nat.succ_pos _, congrArg stackAddress (BitVec.sub_zero SP).symm, rfl⟩
    · obtain ⟨k, hk, hw, hv⟩ := ih h
      refine ⟨k + 1, Nat.succ_lt_succ hk, ?_, hv⟩
      rw [hw]
      congr 1
      bv_omega

/-- As long as they do not wrap around onto themselves, pushes leave each byte in its cell. -/
theorem peek_stackWrites {SP : U8} {vs : List U8} {mem : Memory b} (hlen : vs.length ≤ 256)
    {k : Nat} {v : U8} (hk : vs[k]? = some v) :
    peek PROGMEM (pokes mem (stackWrites SP vs)) (stackAddress (SP - .ofNat 8 k)) = v := by
  induction vs generalizing SP mem k with
  | nil => cases hk
  | cons u vs ih =>
    have hlen' : vs.length + 1 ≤ 256 := hlen
    show peek PROGMEM (pokes (poke mem (stackAddress SP) u) (stackWrites (SP - 1) vs)) _ = v
    cases k with
    | zero =>
      obtain rfl := Option.some.inj hk
      rw [show SP - BitVec.ofNat 8 0 = SP from BitVec.sub_zero SP, peek_pokes_of_ne]
      · exact peek_poke_same _ _ _ (Nat.lt_trans (stackAddress_lt SP) (by decide)) rfl
      · intro w hw
        obtain ⟨j, hj, hwj, -⟩ := stackWrites_mem hw
        rw [hwj, cellIndex_stackAddress, cellIndex_stackAddress]
        bv_omega
    | succ k =>
      have hcell : SP - BitVec.ofNat 8 (k + 1) = SP - 1 - BitVec.ofNat 8 k := by bv_omega
      rw [hcell]
      exact ih (by omega) hk

theorem pokes_eq_self {ws : List (U16 × U8)} {mem : Memory b}
    (h : ∀ w ∈ ws, w.1.toNat < 0x8000 ∧ peek PROGMEM mem w.1 = w.2) : pokes mem ws = mem := by
  induction ws with
  | nil => rfl
  | cons w ws ih =>
    obtain ⟨⟨hlt, hw⟩, hws⟩ := List.forall_mem_cons.mp h
    rw [peek_eq_view _ _ hlt] at hw
    show pokes (poke mem w.1 w.2) ws = mem
    unfold poke
    rw [(pokeCell_eq_self_iff mem w.2 (cellIndex_lt hlt)).mpr hw]
    exact ih hws

/-- Pushes leave the memory as it was exactly if each cell holds its byte already. -/
theorem pokes_stackWrites_eq_self_iff {SP : U8} {vs : List U8} {mem : Memory b}
    (hlen : vs.length ≤ 256) :
    pokes mem (stackWrites SP vs) = mem ↔
      ∀ w ∈ stackWrites SP vs, peek PROGMEM mem w.1 = w.2 := by
  constructor
  · intro heq w hw
    obtain ⟨k, -, hcell, hv⟩ := stackWrites_mem hw
    have hpeek : peek PROGMEM (pokes mem (stackWrites SP vs)) _ = w.2 :=
      peek_stackWrites PROGMEM hlen hv
    rw [heq, ← hcell] at hpeek
    exact hpeek
  · intro h
    refine pokes_eq_self PROGMEM fun w hw => ⟨?_, h w hw⟩
    exact Nat.lt_trans (stackWrites_lt hw) (by decide)

end M6502
