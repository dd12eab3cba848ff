import Mathlib.Data.List.TakeDrop
import M6502.Proof.Host.Stepping

/-!
# How much of a string `wozmon write` delivers

The loop over the string stops at `sizeof(input)`, and `input` is a pointer: it is the size of
an address that bounds the loop, not that of the string. So what is performed are the
operations for as many characters as a pointer has bytes (`writeFrom_eq`), and for all of them
exactly if there are no more (`wozmonWrite_delivers_iff`). On the machine each of them is a
character posted, and one instruction (`wozmonWrite_run`).
-/

set_option autoImplicit false

namespace M6502

open Lib
open Shell (CStr emptyArg writeArg)

/-- For each character in order: it is stored in `ACIA_DATA`, `0x10` in `ACIA_STATUS`, and the
    CPU is run for a cycle. -/
def deliver : List U8 → Command Unit
  | [] => .ret ()
  | c :: cs => .call (.busWriteByte aciaData c) fun _ =>
    .call (.busWriteByte aciaStatus 0x10) fun _ =>
      .call (.clock 1) fun _ => deliver cs

/-- The command reads the vector, delivers the bytes and returns `0`; nothing else. -/
def deliverAll (bytes : List U8) : Command (Option Int) :=
  .call (.busReadWord irqVector) fun _ => (deliver bytes).bind fun _ => .ret (some 0)

theorem Shell.CStr.get_of_lt {s : CStr} {i : Nat} (hi : i < s.bytes.length) :
    s.get i = s.bytes[i] ∧ s.get i ≠ 0 := by
  have hget : s.get i = s.bytes[i] := by
    unfold CStr.get
    rw [List.getD_eq_getElem?_getD, List.getElem?_eq_getElem hi, Option.getD_some]
  refine ⟨hget, fun h0 => s.nul_notMem ?_⟩
  rw [← h0, hget]
  exact List.getElem_mem hi

theorem Shell.CStr.get_of_le {s : CStr} {i : Nat} (hi : s.bytes.length ≤ i) : s.get i = 0 := by
  unfold CStr.get
  rw [List.getD_eq_getElem?_getD, List.getElem?_eq_none hi, Option.getD_none]

/-- The loop, from index `i` on. -/
theorem writeFrom_eq (input : CStr) (left i : Nat) :
    Shell.writeFrom input left i = deliver ((input.bytes.drop i).take left) := by
  induction left generalizing i with
  | zero => rw [List.take_zero]; rfl
  | succ left ih =>
    unfold Shell.writeFrom
    by_cases hi : i < input.bytes.length
    · obtain ⟨hget, hne⟩ := CStr.get_of_lt hi
      rw [if_neg hne, List.drop_eq_getElem_cons hi, List.take_succ_cons, ← hget]
      show Prog.call _ (fun _ => .call _ fun _ => .call _ fun _ => _) = _
      simp only [deliver]
      rw [← ih (i + 1)]
      rfl
    · rw [if_pos (CStr.get_of_le (Nat.le_of_not_lt hi)),
        List.drop_eq_nil_of_le (Nat.le_of_not_lt hi)]
      rfl

theorem wozmonCommand_write (sizeofPointer fuel : Nat) (name input : CStr) (rest : List CStr) :
    Shell.wozmonCommand sizeofPointer fuel (name :: writeArg :: input :: rest) =
      deliverAll (input.bytes.take sizeofPointer) := by
  have hloop : Shell.wozmonWrite sizeofPointer input = deliver (input.bytes.take sizeofPointer) :=
    writeFrom_eq input sizeofPointer 0
  refine congrArg (Prog.call _) (funext fun irq_address => ?_)
  rw [← hloop]
  rfl

/-- Different strings are delivered by different operations. -/
theorem deliver_inj {xs ys : List U8}
    (h : (deliver xs).bind (fun _ => .ret (some (0 : Int))) =
      (deliver ys).bind fun _ => .ret (some 0)) : xs = ys := by
  induction xs generalizing ys with
  | nil =>
    cases ys with
    | nil => rfl
    | cons d ds => cases h
  | cons c cs ih =>
    cases ys with
    | nil => cases h
    | cons d ds =>
      obtain ⟨hop, hrest⟩ := Prog.call.inj h
      obtain rfl := (HostOp.busWriteByte.inj hop).2
      obtain ⟨-, hrest⟩ := Prog.call.inj (congrFun (eq_of_heq hrest) ())
      obtain ⟨-, hrest⟩ := Prog.call.inj (congrFun (eq_of_heq hrest) ())
      rw [ih (congrFun (eq_of_heq hrest) 0)]

theorem deliverAll_inj {xs ys : List U8} (h : deliverAll xs = deliverAll ys) : xs = ys := by
  obtain ⟨-, hrest⟩ := Prog.call.inj h
  exact deliver_inj (congrFun (eq_of_heq hrest) 0)

/-- **The whole string is delivered exactly if** it is no longer than a pointer is wide. -/
theorem wozmonWrite_delivers_iff (sizeofPointer fuel : Nat) (name input : CStr)
    (rest : List CStr) :
    Shell.wozmonCommand sizeofPointer fuel (name :: writeArg :: input :: rest) =
        deliverAll input.bytes ↔
      input.bytes.length ≤ sizeofPointer := by
  rw [wozmonCommand_write]
  constructor
  · intro h
    exact (List.take_eq_self_iff input.bytes).mp (deliverAll_inj h)
  · intro h
    rw [List.take_of_length_le h]

/-- Nine characters, with pointers of eight bytes. -/
theorem not_wozmonWrite_delivers :
    ¬ ∀ (fuel : Nat) (name input : CStr) (rest : List CStr),
      Shell.wozmonCommand 8 fuel (name :: writeArg :: input :: rest) =
        deliverAll input.bytes := by
  intro h
  have hall := h 0 emptyArg ⟨List.replicate 9 0x41, by decide⟩ []
  rw [wozmonCommand_write] at hall
  exact absurd (congrArg List.length (deliverAll_inj hall)) (by decide)

/-! ## On the machine -/

variable {b : Build} (PROGMEM : Progmem)

/-- A character is posted, and one call made. -/
def postAndClock (x : Host b) (c : U8) : Option (Host b) :=
  (postCharacter x.mem c).bind fun mem =>
    ((Shell.clock 1).run (host PROGMEM) { x with mem }).map Prod.snd

theorem busWriteByte_run (x : Host b) (a : U16) (v : U8) :
    (Shell.busWriteByte a v).run (host PROGMEM) x =
      (busWriteByte x.mem a v).map fun mem => ((), { x with mem }) := by
  have hop : host PROGMEM (.busWriteByte a v) x =
      (busWriteByte x.mem a v).map fun mem => ((), { x with mem }) := rfl
  unfold Shell.busWriteByte
  rw [Prog.run_call, hop]
  cases busWriteByte x.mem a v <;> rfl

theorem deliver_run (s : List U8) (x : Host b) :
    (deliver s).run (host PROGMEM) x =
      (s.foldlM (postAndClock PROGMEM) x).map fun y => ((), y) := by
  induction s generalizing x with
  | nil => rfl
  | cons c s ih =>
    have hdeliver : deliver (c :: s) = (Shell.busWriteByte aciaData c).bind fun _ =>
        (Shell.busWriteByte aciaStatus 0x10).bind fun _ =>
          (Shell.clock 1).bind fun _ => deliver s := rfl
    have hcons : (c :: s).foldlM (postAndClock PROGMEM) x =
        (postAndClock PROGMEM x c).bind fun y => s.foldlM (postAndClock PROGMEM) y :=
      List.foldlM_cons
    rw [hdeliver, hcons, Prog.run_bind, busWriteByte_run]
    unfold postAndClock postCharacter
    cases busWriteByte x.mem aciaData c with
    | none => rfl
    | some mem =>
      rw [Option.map_some, Option.bind_some, Prog.run_bind, busWriteByte_run]
      simp only [Option.bind_eq_bind, Option.bind_some]
      cases busWriteByte mem aciaStatus 0x10 with
      | none => rfl
      | some mem =>
        simp only [Option.map_some, Option.bind_some, Prog.run_bind]
        cases (Shell.clock 1).run (host PROGMEM) { x with mem } with
        | none => rfl
        | some r => exact ih r.2

/-- What the command does to the machine. -/
theorem wozmonWrite_run (sizeofPointer fuel : Nat) (name input : CStr) (rest : List CStr)
    (x : Host b) :
    (Shell.wozmonCommand sizeofPointer fuel (name :: writeArg :: input :: rest)).run
        (host PROGMEM) x =
      ((input.bytes.take sizeofPointer).foldlM (postAndClock PROGMEM) x).map
        fun y => (some 0, y) := by
  rw [wozmonCommand_write]
  show ((Shell.busReadWord irqVector).bind fun _ => (deliver _).bind fun _ => .ret (some 0)).run
    (host PROGMEM) x = _
  rw [Prog.run_bind, busReadWord_run, Option.bind_some, Prog.run_bind, deliver_run]
  cases (input.bytes.take sizeofPointer).foldlM (postAndClock PROGMEM) x <;> rfl

end M6502
