import Mathlib.Data.List.GetD
import M6502.Lib.Sampling
import M6502.Proof.Host.Stepping

/-!
# The loop of `wozmon read`

The loop looks at `ACIA_DATA`, keeps what it finds if that differs from what it found before, and
runs an instruction. Nothing it does reaches the machine. So the machine runs as it would
alone (`pollStep`), and the loop's variables are a function of the values its polls find
(`readHead_iff`): the buffer holds their changes (`caught`), one after the other.
-/

set_option autoImplicit false

namespace M6502

open Lib
open Shell (ReadLocals)

variable {b : Build} (PROGMEM : Progmem)

/-- The carriage return that ends a line. -/
def carriageReturn : U8 := 0x0D

/-! ## The machine alone -/

/-- What is in `ACIA_DATA`. -/
def Host.acia (x : Host b) : U8 := x.byteAt PROGMEM aciaData

/-- An instruction, unless the program is at its end. -/
def pollStep (x : Host b) : Option (Host b) :=
  guarded (fun x : Host b => x.cpu.PC ≠ irqAddress PROGMEM)
    (fun x => ((Shell.clock 1).run (host PROGMEM) x).map Prod.snd) x

theorem pollStep_iff {x y : Host b} :
    pollStep PROGMEM x = some y ↔
      x.cpu.PC ≠ irqAddress PROGMEM ∧ StepSafe PROGMEM x.machine ∧ y = x.stepped PROGMEM := by
  unfold pollStep
  rw [guarded_eq_some_iff, Option.map_eq_some_iff]
  constructor
  · rintro ⟨hpc, r, hr, rfl⟩
    obtain ⟨hsafe, rfl⟩ := (clock_run_iff PROGMEM).mp hr
    exact ⟨hpc, hsafe, rfl⟩
  · rintro ⟨hpc, hsafe, rfl⟩
    exact ⟨hpc, _, clock_run PROGMEM hsafe, rfl⟩

theorem iter_pollStep_succ_iff {k : Nat} {x y : Host b} :
    iter (pollStep PROGMEM) (k + 1) x = some y ↔
      ∃ z, iter (pollStep PROGMEM) k x = some z ∧ z.cpu.PC ≠ irqAddress PROGMEM ∧
        StepSafe PROGMEM z.machine ∧ y = z.stepped PROGMEM := by
  rw [iter_succ_last_iff]
  exact exists_congr fun z => and_congr Iff.rfl (pollStep_iff PROGMEM)

/-- What is in `ACIA_DATA` before each of the first `k` instructions. -/
def polls (k : Nat) (x : Host b) : List U8 :=
  (visited (pollStep PROGMEM) k x).map (Host.acia PROGMEM)

/-- The changes seen by then. -/
def caught (k : Nat) (x : Host b) : List U8 := changes (x.acia PROGMEM) (polls PROGMEM k x)

/-- What was found last. -/
def lastPoll (k : Nat) (x : Host b) : U8 := (polls PROGMEM k x).getLastD (x.acia PROGMEM)

section Poll

variable {PROGMEM} {k : Nat} {x y : Host b} (h : iter (pollStep PROGMEM) k x = some y)
include h

theorem polls_succ : polls PROGMEM (k + 1) x = polls PROGMEM k x ++ [y.acia PROGMEM] := by
  unfold polls
  rw [visited_succ_last h, List.map_append]
  rfl

theorem caught_succ :
    caught PROGMEM (k + 1) x = caught PROGMEM k x ++
      if y.acia PROGMEM = lastPoll PROGMEM k x then [] else [y.acia PROGMEM] := by
  unfold caught
  rw [polls_succ h, changes_append_singleton]
  rfl

theorem lastPoll_succ : lastPoll PROGMEM (k + 1) x = y.acia PROGMEM := by
  unfold lastPoll
  rw [polls_succ h, List.getLastD_concat]

end Poll

/-! ## A round -/

/-- The variables after `cs` has been kept. -/
def localsOf (mon_data : U8) (cs : List U8) : ReadLocals where
  monData := mon_data
  buf i := cs.getD i 0
  inputIndex := cs.length
  rxDone := false

theorem localsOf_store (mon_data c : U8) (cs : List U8) :
    (localsOf mon_data cs).store c =
      if cs.length < 0x0100 then some (localsOf c (cs ++ [c])) else none := by
  unfold ReadLocals.store
  by_cases h : cs.length < 0x0100
  · have hbuf : Function.update (localsOf mon_data cs).buf ⟨cs.length, h⟩ c =
        fun i : Fin 0x0100 => (cs ++ [c]).getD i 0 := by
      funext i
      by_cases hi : i = ⟨cs.length, h⟩
      · subst hi
        rw [Function.update_self]
        simp
      · rw [Function.update_of_ne hi]
        have hne : i.val ≠ cs.length := fun he => hi (Fin.ext he)
        show cs.getD i 0 = (cs ++ [c]).getD i 0
        rcases Nat.lt_or_gt_of_ne hne with hlt | hgt
        · rw [List.getD_append _ _ _ _ hlt]
        · rw [List.getD_eq_default _ _ (Nat.le_of_lt hgt),
            List.getD_eq_default _ _ (by rw [List.length_append]; exact hgt)]
    have hindex : (cs ++ [c]).length = cs.length + 1 := List.length_append
    rw [if_pos h, dif_pos (show (localsOf mon_data cs).inputIndex < 0x0100 from h)]
    unfold localsOf at hbuf ⊢
    rw [hindex]
    exact congrArg (fun buf => some (⟨c, buf, cs.length + 1, false⟩ : ReadLocals)) hbuf
  · rw [if_neg h, dif_neg (show ¬ (localsOf mon_data cs).inputIndex < 0x0100 from h)]

theorem store_rxDone {v u : ReadLocals} {c : U8} (h : v.store c = some u) :
    u.rxDone = v.rxDone := by
  unfold ReadLocals.store at h
  split at h
  · rw [← Option.some.inj h]
  · cases h

theorem receive_run (v : ReadLocals) (c : U8) (x : Host b) :
    (Shell.receive v c).run (host PROGMEM) x =
      (v.store c).bind fun u =>
        if c = carriageReturn then (Shell.textOf u.buf).map fun line =>
          ({ u with inputIndex := 0, buf := fun _ => 0, rxDone := true },
            { x with output := x.output ++ [.wozmon line] })
        else some (u, x) := by
  unfold Shell.receive carriageReturn
  cases v.store c with
  | none => rfl
  | some u =>
    dsimp only [Option.bind_some]
    by_cases hc : c = 0x0D
    · rw [if_pos hc, if_pos hc]
      cases Shell.textOf u.buf <;> rfl
    · rw [if_neg hc, if_neg hc]
      rfl

theorem readRound_run (v : ReadLocals) (x : Host b) :
    (Shell.readRound v).run (host PROGMEM) x =
      ((if x.acia PROGMEM ≠ v.monData then Shell.receive v (x.acia PROGMEM)
        else .ret v).run (host PROGMEM) x).bind fun r =>
          ((Shell.clock 1).run (host PROGMEM) r.2).bind fun c => some (r.1, c.2) := by
  have hround : Shell.readRound v = (Shell.busReadByte aciaData).bind fun c =>
      (if c ≠ v.monData then Shell.receive v c else .ret v).bind fun u =>
        (Shell.clock 1).bind fun _ => .ret u := rfl
  rw [hround, Prog.run_bind, busReadByte_run, Option.bind_some, Prog.run_bind]
  refine congrArg _ (funext fun r => ?_)
  rw [Prog.run_bind]
  rfl

/-- A round after which the loop still waits for the end of the line. -/
theorem readRound_quiet_iff {v v' : ReadLocals} {x x' : Host b} (hv : v.rxDone = false) :
    (Prog.bodyStep (host PROGMEM) Shell.readRound (v, x) = some (v', x') ∧ v'.rxDone = false) ↔
      (if x.acia PROGMEM = v.monData then v' = v
        else x.acia PROGMEM ≠ carriageReturn ∧ v.store (x.acia PROGMEM) = some v') ∧
      StepSafe PROGMEM x.machine ∧ x' = x.stepped PROGMEM := by
  have hrun : Prog.bodyStep (host PROGMEM) Shell.readRound (v, x) = _ := readRound_run PROGMEM v x
  have hclock : ∀ u, ((Shell.clock 1).run (host PROGMEM) x).bind (fun c => some (u, c.2)) =
      some (v', x') ↔ u = v' ∧ StepSafe PROGMEM x.machine ∧ x' = x.stepped PROGMEM := by
    intro u
    rw [Option.bind_eq_some_iff]
    constructor
    · rintro ⟨c, hc, he⟩
      obtain ⟨hsafe, rfl⟩ := (clock_run_iff PROGMEM).mp hc
      obtain ⟨rfl, rfl⟩ := Prod.mk.inj (Option.some.inj he)
      exact ⟨rfl, hsafe, rfl⟩
    · rintro ⟨rfl, hsafe, rfl⟩
      exact ⟨_, clock_run PROGMEM hsafe, rfl⟩
  rw [hrun]
  by_cases hnew : x.acia PROGMEM = v.monData
  · rw [if_neg (not_not.mpr hnew), if_pos hnew]
    show ((Shell.clock 1).run (host PROGMEM) x).bind (fun c => some (v, c.2)) = _ ∧ _ ↔ _
    rw [hclock]
    constructor
    · rintro ⟨⟨rfl, hstep⟩, -⟩
      exact ⟨rfl, hstep⟩
    · rintro ⟨rfl, hstep⟩
      exact ⟨⟨rfl, hstep⟩, hv⟩
  · rw [if_pos hnew, if_neg hnew, receive_run]
    cases hs : v.store (x.acia PROGMEM) with
    | none =>
      constructor
      · rintro ⟨he, -⟩
        cases he
      · rintro ⟨⟨-, he⟩, -⟩
        cases he
    | some u =>
      rw [Option.bind_some]
      by_cases hcr : x.acia PROGMEM = carriageReturn
      · rw [if_pos hcr]
        refine iff_of_false ?_ fun h => h.1.1 hcr
        rintro ⟨he, hdone⟩
        obtain ⟨r, hr, he⟩ := Option.bind_eq_some_iff.mp he
        obtain ⟨line, -, rfl⟩ := Option.map_eq_some_iff.mp hr
        obtain ⟨c, -, he⟩ := Option.bind_eq_some_iff.mp he
        obtain ⟨rfl, -⟩ := Prod.mk.inj (Option.some.inj he)
        cases hdone
      · rw [if_neg hcr, Option.bind_some, hclock]
        constructor
        · rintro ⟨⟨rfl, hstep⟩, -⟩
          exact ⟨⟨hcr, rfl⟩, hstep⟩
        · rintro ⟨⟨-, he⟩, hstep⟩
          obtain rfl := Option.some.inj he
          exact ⟨⟨rfl, hstep⟩, (store_rxDone hs).trans hv⟩

/-! ## The loop -/

/-- The condition of the loop. -/
def ReadGoesOn (p : ReadLocals × Host b) : Prop :=
  p.2.cpu.PC ≠ irqAddress PROGMEM ∧ p.1.rxDone = false

instance : DecidablePred (ReadGoesOn (b := b) PROGMEM) :=
  fun _ => inferInstanceAs (Decidable (_ ∧ _))

/-- The loop of `wozmon read`, started on `x`, is at `p` after `k` rounds. -/
def ReadHead (x : Host b) (k : Nat) (p : ReadLocals × Host b) : Prop :=
  iter (guarded (ReadGoesOn PROGMEM) (Prog.bodyStep (host PROGMEM) Shell.readRound)) k
    (⟨x.acia PROGMEM, fun _ => 0, 0, false⟩, x) = some p

theorem readTest_run (v : ReadLocals) (x : Host b) :
    (Shell.readTest (irqAddress PROGMEM) v).run (host PROGMEM) x =
      some (decide (ReadGoesOn PROGMEM (v, x)), x) := by
  have htest : (decide (x.cpu.PC ≠ irqAddress PROGMEM) && !v.rxDone) =
      decide (ReadGoesOn PROGMEM (v, x)) := by
    cases hd : v.rxDone <;> simp [ReadGoesOn, hd]
  rw [← htest]
  rfl

/-- The command returns where its loop has stopped. -/
theorem wozmonRead_run_iff {sizeofPointer fuel : Nat} {name : Shell.CStr}
    {rest : List Shell.CStr} {x y : Host b} :
    (Shell.wozmonCommand sizeofPointer fuel (name :: Shell.readArg :: rest)).run
        (host PROGMEM) x = some (some 0, y) ↔
      ∃ k < fuel, ∃ v, ReadHead PROGMEM x k (v, y) ∧ ¬ ReadGoesOn PROGMEM (v, y) := by
  have hcommand : Shell.wozmonCommand sizeofPointer fuel (name :: Shell.readArg :: rest) =
      (Shell.busReadWord irqVector).bind fun irq_address =>
        (Shell.busReadByte aciaData).bind fun mon_data =>
          (Prog.whileDo (Shell.readTest irq_address) Shell.readRound fuel
            ⟨mon_data, fun _ => 0, 0, false⟩).bind fun done => .ret (done.map fun _ => 0) := rfl
  rw [hcommand, Prog.run_bind, busReadWord_run, Option.bind_some, Prog.run_bind, busReadByte_run,
    Option.bind_some, Prog.run_bind, Option.bind_eq_some_iff]
  constructor
  · rintro ⟨⟨done, z⟩, hloop, he⟩
    obtain ⟨hdone, rfl⟩ := Prod.mk.inj (Option.some.inj he)
    obtain ⟨v, rfl, -⟩ := Option.map_eq_some_iff.mp hdone
    obtain ⟨k, hk, hhead, hstop⟩ := (Prog.whileDo_run_iff (readTest_run PROGMEM)).mp hloop
    exact ⟨k, hk, v, hhead, hstop⟩
  · rintro ⟨k, hk, v, hhead, hstop⟩
    exact ⟨(some v, y),
      (Prog.whileDo_run_iff (readTest_run PROGMEM)).mpr ⟨k, hk, hhead, hstop⟩, rfl⟩

theorem caught_sublist_succ {k : Nat} {x y : Host b}
    (h : iter (pollStep PROGMEM) (k + 1) x = some y) :
    (caught PROGMEM k x).Sublist (caught PROGMEM (k + 1) x) := by
  obtain ⟨z, hz, -⟩ := (iter_pollStep_succ_iff PROGMEM).mp h
  rw [caught_succ hz]
  exact List.sublist_append_left _ _

/-- What a round keeps of the value it finds, as long as that does not end the line. -/
theorem localsOf_keep_iff {mon_data c : U8} {cs : List U8} {v : ReadLocals}
    (hcr : carriageReturn ∉ cs) (hlen : cs.length ≤ 0x0100) :
    (if c = mon_data then v = localsOf mon_data cs
        else c ≠ carriageReturn ∧ (localsOf mon_data cs).store c = some v) ↔
      carriageReturn ∉ cs ++ (if c = mon_data then [] else [c]) ∧
        (cs ++ if c = mon_data then [] else [c]).length ≤ 0x0100 ∧
        v = localsOf c (cs ++ if c = mon_data then [] else [c]) := by
  by_cases hnew : c = mon_data
  · rw [if_pos hnew, if_pos hnew, List.append_nil, hnew]
    exact ⟨fun h => ⟨hcr, hlen, h⟩, fun h => h.2.2⟩
  · have hmem : carriageReturn ∉ cs ++ [c] ↔ c ≠ carriageReturn := by
      rw [List.mem_append, List.mem_singleton, not_or, and_iff_right hcr]
      exact ne_comm
    have hindex : (cs ++ [c]).length = cs.length + 1 := List.length_append
    rw [if_neg hnew, if_neg hnew, localsOf_store, hmem, hindex]
    by_cases hroom : cs.length < 0x0100
    · rw [if_pos hroom, Option.some_inj, and_iff_right (show cs.length + 1 ≤ 0x0100 from hroom)]
      exact and_congr Iff.rfl eq_comm
    · rw [if_neg hroom]
      exact iff_of_false (by simp) fun h => hroom h.2.1

/-- **Where the loop is, as long as the line is not at its end**: the machine has run alone, and
    the buffer holds the changes seen, which it has had room for. -/
theorem readHead_iff {x y : Host b} {k : Nat} {v : ReadLocals} :
    (ReadHead PROGMEM x k (v, y) ∧ v.rxDone = false) ↔
      iter (pollStep PROGMEM) k x = some y ∧ carriageReturn ∉ caught PROGMEM k x ∧
        (caught PROGMEM k x).length ≤ 0x0100 ∧
        v = localsOf (lastPoll PROGMEM k x) (caught PROGMEM k x) := by
  induction k generalizing v y with
  | zero =>
    have hstart : (⟨x.acia PROGMEM, fun _ => 0, 0, false⟩ : ReadLocals) =
        localsOf (lastPoll PROGMEM 0 x) (caught PROGMEM 0 x) := rfl
    constructor
    · rintro ⟨h, -⟩
      obtain ⟨rfl, rfl⟩ := Prod.mk.inj (Option.some.inj h)
      exact ⟨rfl, List.not_mem_nil, Nat.zero_le _, hstart⟩
    · rintro ⟨h, -, -, rfl⟩
      obtain rfl := Option.some.inj h
      exact ⟨congrArg (fun v => some (v, x)) hstart, rfl⟩
  | succ k ih =>
    constructor
    · rintro ⟨h, hdone⟩
      obtain ⟨⟨u, z⟩, hz, hround⟩ := iter_succ_last_iff.mp h
      obtain ⟨⟨hpc, hu⟩, hround⟩ := guarded_eq_some_iff.mp hround
      obtain ⟨hit, hcr, hlen, rfl⟩ := ih.mp ⟨hz, hu⟩
      obtain ⟨hkeep, hsafe, rfl⟩ := (readRound_quiet_iff PROGMEM hu).mp ⟨hround, hdone⟩
      rw [caught_succ hit, lastPoll_succ hit]
      exact ⟨(iter_pollStep_succ_iff PROGMEM).mpr ⟨z, hit, hpc, hsafe, rfl⟩,
        (localsOf_keep_iff hcr hlen).mp hkeep⟩
    · rintro ⟨h, hkept⟩
      -- what has been caught before is part of what has been caught now
      have hsub := caught_sublist_succ PROGMEM h
      have hcr : carriageReturn ∉ caught PROGMEM k x := fun hmem => hkept.1 (hsub.subset hmem)
      have hlen := Nat.le_trans hsub.length_le hkept.2.1
      obtain ⟨z, hit, hpc, hsafe, rfl⟩ := (iter_pollStep_succ_iff PROGMEM).mp h
      obtain ⟨hhead, hu⟩ := ih.mpr ⟨hit, hcr, hlen, rfl⟩
      rw [caught_succ hit, lastPoll_succ hit] at hkept
      obtain ⟨hround, hdone⟩ := (readRound_quiet_iff PROGMEM hu).mpr
        ⟨(localsOf_keep_iff hcr hlen).mpr hkept, hsafe, rfl⟩
      exact ⟨iter_succ_last_iff.mpr
        ⟨_, hhead, guarded_eq_some_iff.mpr ⟨⟨hpc, hu⟩, hround⟩⟩, hdone⟩

end M6502
