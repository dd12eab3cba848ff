import M6502.Shell
import M6502.Proof.Cpu.BreakBits
import M6502.Proof.Host.Stepping
import M6502.Proof.Isa.Simulate

/-!
# Sessions

Whatever is typed, four things happen to the machine and its output (`Happens`): an instruction is
executed, a byte stored in an ACIA cell, the CPU reset, something printed. A command is a program
over operations that are some of these each (`executes_course`), so an invariant of the four is
one of every session (`Course.keeps`).

`session_isa` is what that comes to where nobody resets or writes: a session only watches the one
run of the 6502 without its decimal mode that begins where it does.
-/

set_option autoImplicit false

namespace M6502

open Lib Lib.Prog
open Shell (CStr ShellCommand Executes Session emptyArg writeArg)

variable {b : Build} (PROGMEM : Progmem)

/-! ## What happens -/

/-- The CPU whose status is printed. -/
def Output.status? : Output → Option Olc6502
  | .cpuStatus cpu => some cpu
  | _ => none

inductive Event
  | instruction
  | write
  | reset
  | print
deriving DecidableEq

/-- An event. An instruction is executed in some activation of `olc6502_clock`, of which nothing
    but the CPU and the memory is the machine's. -/
inductive Happens : Event → Host b → Host b → Prop
  | instruction {x : Host b} {p q : Machine b} (h : instructionOn PROGMEM p = some q) :
    Happens .instruction { x with cpu := p.1.cpu, oopsCycle := p.1.oopsCycle, mem := p.2 }
      { x with cpu := q.1.cpu, oopsCycle := q.1.oopsCycle, mem := q.2 }
  | write {x : Host b} {a : U16} {v : U8} {mem : Memory b} (ha : a = aciaData ∨ a = aciaStatus)
    (h : busWriteByte x.mem a v = some mem) : Happens .write x { x with mem }
  | reset {x : Host b} {cycles : Cycles} {r : Olc6502 × Cycles}
    (h : resetOn PROGMEM x.cpu cycles x.mem = some r) : Happens .reset x { x with cpu := r.1 }
  | print {x : Host b} {out : Output} (h : ∀ cpu, out.status? = some cpu → cpu = x.cpu) :
    Happens .print x (x.prints [out])

/-- Any number of events of the kinds `E`. -/
abbrev Course (E : Event → Prop) : Host b → Host b → Prop :=
  Relation.ReflTransGen fun x y => ∃ e, E e ∧ Happens PROGMEM e x y

theorem Course.mono {E E' : Event → Prop} (hE : ∀ e, E e → E' e) {x y : Host b}
    (h : Course PROGMEM E x y) : Course PROGMEM E' x y :=
  Relation.ReflTransGen.mono (fun _ _ ⟨e, he, hxy⟩ => ⟨e, hE e he, hxy⟩) x y h

/-- **The invariant rule.** -/
theorem Course.keeps {E : Event → Prop} {I : Host b → Prop}
    (hI : ∀ e x y, E e → Happens PROGMEM e x y → I x → I y) {x y : Host b}
    (h : Course PROGMEM E x y) (hx : I x) : I y := by
  induction h with
  | refl => exact hx
  | tail _ hlast ih =>
    obtain ⟨e, he, hyz⟩ := hlast
    exact hI e _ _ he hyz ih

/-! ## The operations -/

section Operations

/-- The program is made of events of the kinds `E`. -/
abbrev Only {α : Type} (b : Build) (E : Event → Prop) (p : Command α) : Prop :=
  MadeOf (host (b := b) PROGMEM) (fun x y => ∃ e, E e ∧ Happens PROGMEM e x y) p

variable {E : Event → Prop}

theorem only_busReadByte (a : U16) : Only PROGMEM b E (Shell.busReadByte a) := by
  intro x v y h
  rw [busReadByte_run] at h
  obtain ⟨-, rfl⟩ := Prod.mk.inj (Option.some.inj h)
  exact .refl

theorem only_irqVector : Only PROGMEM b E (Shell.busReadWord irqVector) := by
  intro x v y h
  rw [busReadWord_run] at h
  obtain ⟨-, rfl⟩ := Prod.mk.inj (Option.some.inj h)
  exact .refl

theorem only_cpu : Only PROGMEM b E Shell.cpu := by
  intro x v y h
  obtain ⟨-, rfl⟩ := Prod.mk.inj (Option.some.inj h)
  exact .refl

theorem only_undefined {α : Type} : Only PROGMEM b E (Shell.undefined : Command α) :=
  fun _ _ _ h => nomatch h

/-- The rounds of a call, as instructions. -/
theorem course_of_iter (hE : E .instruction) (x : Host b) {k : Nat} {p q : Machine b}
    (h : iter (round PROGMEM) k p = some q) :
    Course PROGMEM E { x with cpu := p.1.cpu, oopsCycle := p.1.oopsCycle, mem := p.2 }
      { x with cpu := q.1.cpu, oopsCycle := q.1.oopsCycle, mem := q.2 } := by
  induction k generalizing p with
  | zero =>
    obtain rfl := Option.some.inj h
    exact .refl
  | succ k ih =>
    obtain ⟨r, hr, hrest⟩ := Option.bind_eq_some_iff.mp h
    exact .head ⟨_, hE, .instruction ((round_eq_some_iff PROGMEM).mp hr).2⟩ (ih hrest)

theorem only_clock (hE : E .instruction) (cycles : Int) :
    Only PROGMEM b E (Shell.clock cycles) := by
  intro x v y h
  obtain ⟨r, hr, hret⟩ := Option.bind_eq_some_iff.mp h
  obtain ⟨-, rfl⟩ := Prod.mk.inj (Option.some.inj hret)
  obtain ⟨c, hc, rfl⟩ := Option.map_eq_some_iff.mp hr
  obtain ⟨q, ⟨k, hk⟩, -, rfl⟩ := (clockOn_eq_some_iff PROGMEM).mp hc
  exact course_of_iter PROGMEM hE x hk

theorem only_busWriteByte (hE : E .write) {a : U16} (ha : a = aciaData ∨ a = aciaStatus) (v : U8) :
    Only PROGMEM b E (Shell.busWriteByte a v) := by
  intro x u y h
  obtain ⟨r, hr, hret⟩ := Option.bind_eq_some_iff.mp h
  obtain ⟨-, rfl⟩ := Prod.mk.inj (Option.some.inj hret)
  obtain ⟨mem, hmem, rfl⟩ := Option.map_eq_some_iff.mp hr
  exact .single ⟨_, hE, .write ha hmem⟩

theorem only_wozmonWrite (hE : E .instruction) (hwrite : E .write) (input : CStr) (left i : Nat) :
    Only PROGMEM b E (Shell.writeFrom input left i) := by
  induction left generalizing i with
  | zero => exact .ret ()
  | succ left ih =>
    unfold Shell.writeFrom
    split
    next => exact .ret ()
    next =>
      refine (only_busWriteByte PROGMEM hwrite (.inl rfl) _).bind fun _ => ?_
      refine (only_busWriteByte PROGMEM hwrite (.inr rfl) _).bind fun _ => ?_
      exact (only_clock PROGMEM hE 1).bind fun _ => ih (i + 1)

section Print

variable (hE : E .print)
include hE

theorem only_printf {out : Output} (h : out.status? = none) :
    Only PROGMEM b E (Shell.printf out) := by
  intro x u y hr
  obtain ⟨-, rfl⟩ := Prod.mk.inj (Option.some.inj hr)
  exact .single ⟨_, hE, .print fun cpu hcpu => nomatch h.symm.trans hcpu⟩

theorem only_printCpuStatus : Only PROGMEM b E Shell.printCpuStatus := by
  intro x u y hr
  obtain ⟨-, rfl⟩ := Prod.mk.inj (Option.some.inj hr)
  exact .single ⟨_, hE, .print fun cpu hcpu => (Option.some.inj hcpu).symm⟩

end Print

/-! ## The commands -/

section Commands

variable (hprint : E .print)
include hprint

theorem only_clockCommand (hE : E .instruction) (argv : List CStr) :
    Only PROGMEM b E (Shell.clockCommand argv) := by
  unfold Shell.clockCommand
  split
  next arg =>
    split
    next => exact only_undefined PROGMEM
    next cycles _ =>
      refine (only_clock PROGMEM hE cycles).bind fun _ => ?_
      refine (only_printf PROGMEM hprint rfl).bind fun _ => ?_
      exact (only_printCpuStatus PROGMEM hprint).bind fun _ => .ret 0
  next => exact (only_printf PROGMEM hprint rfl).bind fun _ => .ret (-1)

theorem only_printCommand (argc : Nat) : Only PROGMEM b E (Shell.printCommand argc) := by
  unfold Shell.printCommand
  split
  next => exact (only_printf PROGMEM hprint rfl).bind fun _ => .ret (-1)
  next => exact (only_printCpuStatus PROGMEM hprint).bind fun _ => .ret 0

theorem only_inspectMemoryCommand (longBits fuel : Nat) (argv : List CStr) :
    Only PROGMEM b E (Shell.inspectMemoryCommand longBits fuel argv) := by
  have hround : ∀ addr, Only PROGMEM b E (Shell.inspectRound addr) := fun addr =>
    (only_busReadByte PROGMEM _).bind fun _ =>
      (only_printf PROGMEM hprint rfl).bind fun _ => .ret _
  unfold Shell.inspectMemoryCommand
  split
  next first last =>
    dsimp only
    split
    next => exact (only_printf PROGMEM hprint rfl).bind fun _ => .ret _
    next =>
      refine (only_printf PROGMEM hprint rfl).bind fun _ => ?_
      refine (MadeOf.whileDo (fun _ => .ret _) hround fuel _).bind fun done => ?_
      cases done with
      | none => exact .ret none
      | some _ => exact (only_printf PROGMEM hprint rfl).bind fun _ => .ret _
  next => exact (only_printf PROGMEM hprint rfl).bind fun _ => .ret _

theorem only_runCommand (hE : E .instruction) (fuel argc : Nat) :
    Only PROGMEM b E (Shell.runCommand fuel argc) := by
  have htest : ∀ irq_address v, Only PROGMEM b E (Shell.runTest irq_address v) := fun _ _ =>
    (only_cpu PROGMEM).bind fun _ => .ret _
  have hround : ∀ v, Only PROGMEM b E (Shell.runRound v) := fun _ =>
    (only_clock PROGMEM hE 1).bind fun _ => .ret _
  have hflag : Only PROGMEM b E Shell.isBreak := by
    refine (only_cpu PROGMEM).bind fun cpu => ?_
    split
    next => exact .ret _
    next => exact (only_busReadByte PROGMEM _).bind fun _ => .ret _
  unfold Shell.runCommand
  split
  next => exact (only_printf PROGMEM hprint rfl).bind fun _ => .ret _
  next =>
    refine (only_irqVector PROGMEM).bind fun irq_address => ?_
    refine (MadeOf.whileDo (htest irq_address) hround fuel _).bind fun done => ?_
    cases done with
    | none => exact .ret none
    | some v =>
      refine hflag.bind fun _ => ?_
      refine (only_printf PROGMEM hprint rfl).bind fun _ => ?_
      exact (only_printCpuStatus PROGMEM hprint).bind fun _ => .ret _

theorem only_wozmonRead (hE : E .instruction) (irq_address : U16) (fuel : Nat) :
    Only PROGMEM b E (Shell.wozmonRead irq_address fuel) := by
  have htest : ∀ v, Only PROGMEM b E (Shell.readTest irq_address v) := fun _ =>
    (only_cpu PROGMEM).bind fun _ => .ret _
  have hreceive : ∀ v c, Only PROGMEM b E (Shell.receive v c) := by
    intro v c
    unfold Shell.receive
    split
    next => exact only_undefined PROGMEM
    next =>
      split
      next =>
        split
        next => exact only_undefined PROGMEM
        next => exact (only_printf PROGMEM hprint rfl).bind fun _ => .ret _
      next => exact .ret _
  have hround : ∀ v, Only PROGMEM b E (Shell.readRound v) := by
    intro v
    refine (only_busReadByte PROGMEM _).bind fun c => ?_
    refine MadeOf.bind ?_ fun _ => (only_clock PROGMEM hE 1).bind fun _ => .ret _
    split
    next => exact hreceive v c
    next => exact .ret v
  refine (only_busReadByte PROGMEM _).bind fun _ => ?_
  exact (MadeOf.whileDo htest hround fuel _).bind fun _ => .ret _

theorem only_wozmonCommand (hE : E .instruction) (sizeofPointer fuel : Nat) (argv : List CStr)
    (hwrite : argv[1]? = some writeArg → E .write) :
    Only PROGMEM b E (Shell.wozmonCommand sizeofPointer fuel argv) := by
  match argv with
  | _ :: sub :: args =>
    refine (only_irqVector PROGMEM).bind fun irq_address => ?_
    split
    next => exact only_wozmonRead PROGMEM hprint hE irq_address fuel
    next =>
      split
      next hsub =>
        have hE' := hwrite (congrArg some hsub)
        exact (only_wozmonWrite PROGMEM hE hE' _ _ _).bind fun _ => .ret _
      next => exact .ret _
  | [] | [_] => exact (only_printf PROGMEM hprint rfl).bind fun _ => .ret _

end Commands

end Operations

/-! ## Sessions -/

/-- What a command may cause. -/
def Shell.ShellCommand.Causes (argv : List CStr) : ShellCommand → Event → Prop
  | .print, e | .inspect, e => e = .print
  | .clock, e | .run, e => e = .print ∨ e = .instruction
  | .reset, e => e = .print ∨ e = .reset
  | .wozmon, e => e = .print ∨ e = .instruction ∨ e = .write ∧ argv[1]? = some writeArg

theorem resetCommand_course {argc : Nat} {x y : Host b} {ret : Int}
    (h : Shell.resetCommand PROGMEM argc x = some (ret, y)) :
    Course PROGMEM (fun e => e = .print ∨ e = .reset) x y := by
  unfold Shell.resetCommand at h
  split at h
  next =>
    exact (only_printf PROGMEM (.inl rfl) rfl).bind (fun _ => .ret _) x ret y h
  next =>
    obtain ⟨z, hz, hstatus⟩ := Option.bind_eq_some_iff.mp h
    obtain ⟨r, hr, rfl⟩ := Option.map_eq_some_iff.mp hz
    refine .head ⟨_, .inr rfl, .reset hr⟩ ?_
    exact (only_printCpuStatus PROGMEM (.inl rfl)).bind (fun _ => .ret _) _ ret y hstatus

variable {longBits sizeofPointer : Nat}

/-- **A command is a course of what it may cause.** -/
theorem executes_course {c : ShellCommand} {argv : List CStr} {x y : Host b} {ret : Int}
    (h : Executes PROGMEM longBits sizeofPointer c argv x ret y) :
    Course PROGMEM (c.Causes argv) x y := by
  have hprint : c.Causes argv .print := by cases c <;> first | rfl | exact .inl rfl
  cases c with
  | clock => exact only_clockCommand PROGMEM hprint (.inr rfl) argv x ret y h
  | print => exact only_printCommand PROGMEM hprint argv.length x ret y h
  | reset => exact resetCommand_course PROGMEM h
  | inspect =>
    obtain ⟨fuel, h⟩ := h
    exact only_inspectMemoryCommand PROGMEM hprint longBits fuel argv x (some ret) y h
  | run =>
    obtain ⟨fuel, h⟩ := h
    exact only_runCommand PROGMEM hprint (.inr rfl) fuel argv.length x (some ret) y h
  | wozmon =>
    obtain ⟨fuel, h⟩ := h
    exact only_wozmonCommand PROGMEM hprint (.inr (.inl rfl)) sizeofPointer fuel argv
      (fun hwrite => .inr (.inr ⟨rfl, hwrite⟩)) x (some ret) y h

/-- And a session one of what its commands may. -/
theorem session_course {E : Event → Prop} {l : List (ShellCommand × List CStr)} {x y : Host b}
    (h : Session PROGMEM longBits sizeofPointer l x y)
    (hE : ∀ q ∈ l, ∀ e, q.1.Causes q.2 e → E e) : Course PROGMEM E x y := by
  induction h with
  | nil => exact .refl
  | cons h _ ih =>
    obtain ⟨hhead, htail⟩ := List.forall_mem_cons.mp hE
    exact (Course.mono PROGMEM hhead (executes_course PROGMEM h)).trans (ih htail)

/-! ## Break and unused -/

/-- Bits 4 and 5 are clear, in the machine and in every status printed. -/
def ShowsClean (x : Host b) : Prop :=
  Clean x.cpu.PS ∧ ∀ cpu, .cpuStatus cpu ∈ x.output → Clean cpu.PS

theorem Happens.showsClean {e : Event} {x y : Host b} (h : Happens PROGMEM e x y)
    (hx : ShowsClean x) : ShowsClean y := by
  obtain ⟨hclean, hshown⟩ := hx
  cases h with
  | instruction h => exact ⟨(instructionOn_breakBits PROGMEM h).clean hclean, hshown⟩
  | write => exact ⟨hclean, hshown⟩
  | reset h =>
    rw [resetOn_eq] at h
    obtain rfl := Option.some.inj h
    exact ⟨hclean, hshown⟩
  | print h =>
    refine ⟨hclean, fun cpu hcpu => ?_⟩
    rcases List.mem_append.mp hcpu with hold | hnew
    · exact hshown cpu hold
    · obtain rfl := h cpu (congrArg Output.status? (List.mem_singleton.mp hnew).symm)
      exact hclean

/-- What `main` brings up: a cleared memory, and a CPU at the reset vector. -/
theorem boot_eq (b : Build) (PROGMEM : Progmem) :
    Shell.boot PROGMEM b = some
      { cpu :=
          { olc6502Init with
            PC := peekWord PROGMEM (⟨fun _ => 0⟩ : Memory b) resetVector
            iNxt := true }
        oopsCycle := false
        mem := ⟨fun _ => 0⟩
        output :=
          [.text s!"{totalMemorySize b} bytes of memory initialized with zeros\n",
            .text "74LS138 decoder initialized and connected to memory bus\n",
            .text "CPU initialized to power-up state\n"] } := by
  unfold Shell.boot Shell.resetCpu
  rw [memoryInit_eq]
  simp only [resetOn_eq]
  rfl

/-- **From `main` on no command shows break or unused set**: whatever is typed. -/
theorem session_breakBits (b : Build) (PROGMEM : Progmem) :
    ∃ x : Host b, Shell.boot PROGMEM b = some x ∧
      ∀ longBits sizeofPointer l y, Session PROGMEM longBits sizeofPointer l x y →
        ShowsClean y := by
  refine ⟨_, boot_eq b PROGMEM, fun longBits sizeofPointer l y h => ?_⟩
  have hcourse := session_course PROGMEM (E := fun _ => True) h fun _ _ _ _ => trivial
  refine hcourse.keeps PROGMEM (fun _ _ _ _ hstep hz => hstep.showsClean PROGMEM hz)
    ⟨⟨rfl, rfl⟩, fun cpu hcpu => ?_⟩
  simp at hcpu

/-- A program image of `JMP $8000` and zeros. -/
def idleProgmem : Progmem := progmemOf [0x4C, 0x00, 0x80]

/-- `clock 7`, and `print`. -/
def idleCalls : List (ShellCommand × List CStr) :=
  [(.clock, [emptyArg, ⟨[0x37], by decide⟩]), (.print, [emptyArg])]

theorem session_idleCalls {x y : Host ⟨false⟩} {ret : Int}
    (h : (Shell.clockCommand [emptyArg, ⟨[0x37], by decide⟩]).run (host idleProgmem) x =
      some (ret, y)) :
    Session idleProgmem 64 8 idleCalls x (y.prints [.cpuStatus y.cpu]) := by
  have hprint : Executes idleProgmem 64 8 .print [emptyArg] y 0 (y.prints [.cpuStatus y.cpu]) := rfl
  exact .cons h (.cons hprint (.nil _))

/-- The reset vector is zero, so it is `BRK` that is executed. -/
theorem session_breakBits_zero :
    ∃ x y : Host ⟨false⟩, Shell.boot idleProgmem ⟨false⟩ = some x ∧
      Session idleProgmem 64 8 idleCalls x y ∧ ShowsClean y := by
  obtain ⟨x, hboot, hall⟩ := session_breakBits ⟨false⟩ idleProgmem
  have hclock : ((Shell.boot idleProgmem ⟨false⟩).bind fun x =>
      (Shell.clockCommand [emptyArg, ⟨[0x37], by decide⟩]).run (host idleProgmem) x).isSome := by
    decide
  rw [hboot, Option.bind_some] at hclock
  obtain ⟨⟨ret, z⟩, hz⟩ := Option.isSome_iff_exists.mp hclock
  have hsession := session_idleCalls hz
  exact ⟨x, _, hboot, hsession, hall 64 8 idleCalls _ hsession⟩

/-! ## Watching a run -/

/-- The command neither resets the CPU nor writes to it. -/
def Shell.ShellCommand.Watches (c : ShellCommand) (argv : List CStr) : Prop :=
  c ≠ .reset ∧ (c = .wozmon → argv[1]? ≠ some writeArg)

instance (c : ShellCommand) (argv : List CStr) : Decidable (c.Watches argv) :=
  inferInstanceAs (Decidable (_ ∧ _))

theorem Shell.ShellCommand.Watches.causes {c : ShellCommand} {argv : List CStr}
    (h : c.Watches argv) {e : Event} (he : c.Causes argv e) : e = .print ∨ e = .instruction := by
  obtain ⟨hreset, hwrite⟩ := h
  cases c with
  | print | inspect => exact .inl he
  | clock | run => exact he
  | reset => exact absurd rfl hreset
  | wozmon =>
    rcases he with he | he | ⟨-, hsub⟩
    · exact .inl he
    · exact .inr he
    · exact absurd hsub (hwrite rfl)

/-- The state of the 6502 without its decimal mode, `k` instructions from `s`. -/
def isaRun (k : Nat) (s : Isa.State (Memory b)) : Option (Isa.State (Memory b)) :=
  iter (busSpace PROGMEM b).step k s

/-- All its lines are regular. -/
def StaysRegular (s : Isa.State (Memory b)) : Prop :=
  ∀ k s', isaRun PROGMEM k s = some s' →
    ∃ l, (busSpace PROGMEM b).line? s' = some l ∧ Regular PROGMEM l s'

/-- `y` is `k` instructions into the run from `s`, and the statuses printed after `out` are, in
    their order, those of states `ks` instructions into it. -/
structure Watched (s : Isa.State (Memory b)) (out : List Output) (k : Nat) (y : Host b) :
    Prop where
  state : isaRun PROGMEM k s = some ⟨y.cpu.isa, y.mem⟩
  shown : ∃ (shown : List Output) (ks : List Nat), y.output = out ++ shown ∧
    (ks ++ [k]).Pairwise (· ≤ ·) ∧ (shown.filterMap Output.status?).map (fun cpu => some cpu.isa) =
      ks.map fun j => (isaRun PROGMEM j s).map (·.cpu)

section Watch

variable {s : Isa.State (Memory b)} (hs : StaysRegular PROGMEM s) {out : List Output} {k : Nat}
include hs

/-- **An instruction is the next line of the run.** -/
theorem isaRun_instruction {p q : Machine b} (hp : isaRun PROGMEM k s = some (ref p))
    (h : instructionOn PROGMEM p = some q) : isaRun PROGMEM (k + 1) s = some (ref q) := by
  obtain ⟨l, hl, hr⟩ := hs k _ hp
  obtain ⟨-, href, -⟩ := step_refines PROGMEM hl hr
  obtain ⟨-, rfl⟩ := (instructionOn_eq_some_iff PROGMEM).mp h
  refine iter_succ_last_iff.mpr ⟨_, hp, ?_⟩
  rw [href]
  exact congrArg (Option.map _) hl

/-- So no call gets stuck. -/
theorem clockOn_regular {y : Host b} (hy : isaRun PROGMEM k s = some ⟨y.cpu.isa, y.mem⟩)
    (cycles : Int) : (clockOn PROGMEM y.cpu y.oopsCycle y.mem cycles).isSome := by
  refine (clockOn_isSome_iff PROGMEM _ _ _ _).mpr fun z ⟨n, hn⟩ _ => ?_
  have hstart : isaRun PROGMEM k s =
      some (ref (callStart y.cpu y.oopsCycle y.mem cycles)) := hy
  obtain ⟨j, hj⟩ : ∃ j, isaRun PROGMEM j s = some (ref z) := by
    refine iter_invariant (I := fun z : Machine b => ∃ j, isaRun PROGMEM j s = some (ref z))
      (fun p q hp hq => ?_) ⟨k, hstart⟩ hn
    obtain ⟨j, hj⟩ := hp
    exact ⟨j + 1, isaRun_instruction PROGMEM hs hj ((round_eq_some_iff PROGMEM).mp hq).2⟩
  obtain ⟨l, hl, hr⟩ := hs j _ hj
  exact (step_refines PROGMEM hl hr).1

theorem Happens.watched {e : Event} (he : e = .print ∨ e = .instruction) {x y : Host b}
    (h : Happens PROGMEM e x y) (hx : Watched PROGMEM s out k x) :
    ∃ k', Watched PROGMEM s out k' y := by
  obtain ⟨hstate, shown, ks, hout, hks, hshown⟩ := hx
  have hle : ∀ j ∈ ks, j ≤ k := fun j hj =>
    (List.pairwise_append.mp hks).2.2 j hj k (List.mem_singleton_self k)
  cases h with
  | instruction h =>
    refine ⟨k + 1, isaRun_instruction PROGMEM hs hstate h, shown, ks, hout, ?_, hshown⟩
    refine List.pairwise_append.mpr ⟨(List.pairwise_append.mp hks).1, List.pairwise_singleton _ _,
      fun j hj i hi => ?_⟩
    obtain rfl := List.mem_singleton.mp hi
    exact Nat.le_succ_of_le (hle j hj)
  | write | reset => exact absurd he (by decide)
  | @print x new h =>
    have hout' : x.output ++ [new] = out ++ (shown ++ [new]) := by rw [hout, List.append_assoc]
    cases hnew : new.status? with
    | none =>
      refine ⟨k, hstate, shown ++ [new], ks, hout', hks, ?_⟩
      rw [List.filterMap_append, List.filterMap_cons_none hnew, List.filterMap_nil,
        List.append_nil, hshown]
    | some cpu =>
      obtain rfl := h cpu hnew
      refine ⟨k, hstate, shown ++ [new], ks ++ [k], hout', ?_, ?_⟩
      · refine List.pairwise_append.mpr ⟨hks, List.pairwise_singleton _ _, fun j hj i hi => ?_⟩
        obtain rfl := List.mem_singleton.mp hi
        rcases List.mem_append.mp hj with hj | hj
        · exact hle j hj
        · exact Nat.le_of_eq (List.mem_singleton.mp hj)
      · rw [List.filterMap_append, List.filterMap_cons_some hnew, List.filterMap_nil,
          List.map_append, List.map_append, hshown, List.map_singleton, List.map_singleton, hstate]
        rfl

end Watch

/-- **A session that neither resets nor writes watches one run**: where the 6502 without its
    decimal mode keeps to regular lines, the machine is left somewhere on its run, the statuses
    printed are, in order, of states on the way, and the clock can always be called again. -/
theorem session_isa (b : Build) (PROGMEM : Progmem) (longBits sizeofPointer : Nat)
    (l : List (ShellCommand × List CStr)) (x y : Host b)
    (h : Session PROGMEM longBits sizeofPointer l x y) (hl : ∀ q ∈ l, q.1.Watches q.2)
    (hx : StaysRegular PROGMEM ⟨x.cpu.isa, x.mem⟩) :
    (∃ k, Watched PROGMEM ⟨x.cpu.isa, x.mem⟩ x.output k y) ∧
      ∀ cycles, (clockOn PROGMEM y.cpu y.oopsCycle y.mem cycles).isSome := by
  have hcourse := session_course PROGMEM (E := fun e => e = .print ∨ e = .instruction) h
    fun q hq e he => (hl q hq).causes he
  obtain ⟨k, hk⟩ := hcourse.keeps PROGMEM
    (I := fun z => ∃ k, Watched PROGMEM ⟨x.cpu.isa, x.mem⟩ x.output k z)
    (fun _ _ _ he hstep ⟨_, hk⟩ => hstep.watched PROGMEM hx he hk)
    ⟨0, rfl, [], [], (List.append_nil _).symm, List.pairwise_singleton _ _, rfl⟩
  exact ⟨⟨k, hk⟩, clockOn_regular PROGMEM hx hk.state⟩

/-- About to execute the jump. -/
def idleHost : Host ⟨false⟩ where
  cpu := { olc6502Init with PC := 0x8000 }
  oopsCycle := false
  mem := ⟨fun _ => 0⟩
  output := []

/-- It stays where it is. -/
theorem idle_staysRegular : StaysRegular idleProgmem ⟨idleHost.cpu.isa, idleHost.mem⟩ := by
  have hline : (busSpace idleProgmem ⟨false⟩).line? ⟨idleHost.cpu.isa, idleHost.mem⟩ =
      some ⟨.jmp, .absolute, 0x8000⟩ := by decide
  have hstay : ∀ k, isaRun idleProgmem k ⟨idleHost.cpu.isa, idleHost.mem⟩ =
      some ⟨idleHost.cpu.isa, idleHost.mem⟩ := by
    intro k
    induction k with
    | zero => rfl
    | succ k ih =>
      refine iter_succ_last_iff.mpr ⟨_, ih, ?_⟩
      exact congrArg (Option.map _) hline
  intro k s' hs
  obtain rfl := Option.some.inj ((hstay k).symm.trans hs)
  have hword : WordReadMeets idleProgmem idleHost.mem 0x8001 := by
    unfold WordReadMeets
    decide
  exact ⟨_, hline, fun _ => hword, nofun, nofun, nofun, trivial⟩

theorem session_isa_idle :
    ∃ y, Session idleProgmem 64 8 idleCalls idleHost y ∧
      ∃ k, Watched idleProgmem ⟨idleHost.cpu.isa, idleHost.mem⟩ [] k y := by
  have hclock : ((Shell.clockCommand [emptyArg, ⟨[0x37], by decide⟩]).run (host idleProgmem)
      idleHost).isSome := by decide
  obtain ⟨⟨ret, x⟩, hx⟩ := Option.isSome_iff_exists.mp hclock
  have hsession := session_idleCalls hx
  exact ⟨_, hsession, (session_isa ⟨false⟩ idleProgmem 64 8 idleCalls idleHost _ hsession
    (by decide) idle_staysRegular).1⟩

end M6502
