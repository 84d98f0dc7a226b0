import LinuxSystemProgramming.JoinedThreads.Handshakes
import Mathlib.Tactic.FinCases

/-!
The program 10_8: `main` makes a block on the heap with a mutex and two condition variables, shares
it with the joinable thread `t1` and destroys and frees it after the join. `malloc`, the
initialisations and the destructions may fail and end the process; `init .fields` stands for the
assignments to the flags.
-/

namespace LinuxSystemProgramming.JoinedThreads.SharedBlock

open Threads Transition

inductive Object
  | mutex
  | condFromMain
  | condFromT1
  | fields
  deriving DecidableEq

inductive Act
  | started
  | malloc
  | init (o : Object)
  | setArg (n : ℤ)
  | waitingForReady
  | sentStart
  | startingDestroyers
  | destroy (o : Object)
  | free
  | exiting
  | startedExecuting
  | readyToWork
  | goReceived
  | passedArgument
  | workDone
  | t1Exiting
  deriving DecidableEq

inductive Flag
  | t1Ready
  | t1ToProceed
  deriving DecidableEq

inductive Cond
  | fromT1
  | fromMain
  deriving DecidableEq

def arg : ℤ := 42

def main : List (Instr Tid Flag Cond Act) :=
  [.act .started, .act .malloc, .act (.init .mutex), .act (.init .condFromMain),
    .act (.init .condFromT1), .act (.init .fields), .act (.setArg arg), .create .t1,
    .act .waitingForReady, .lock, .await .t1Ready .fromT1, .set .t1ToProceed, .signal .fromMain,
    .unlock, .act .sentStart, .join .t1, .act .startingDestroyers, .act (.destroy .mutex),
    .act (.destroy .condFromMain), .act (.destroy .condFromT1), .act .free, .act .exiting]

def threadFunction : List (Instr Tid Flag Cond Act) :=
  [.act .startedExecuting, .act .readyToWork, .lock, .set .t1Ready, .signal .fromT1,
    .await .t1ToProceed .fromMain, .unlock, .act .goReceived, .act .passedArgument,
    .act .workDone, .act .t1Exiting]

def mayFail : Act → Bool
  | .malloc | .destroy _ => true
  | .init o => decide (o ≠ .fields)
  | _ => false

def program : Program Tid Flag Cond Act where
  main := .main
  code
    | .main => main
    | .t1 => threadFunction
  mayFail := mayFail

def plan : Plan Tid Flag Cond where
  setter
    | .t1Ready => (.t1, 3)
    | .t1ToProceed => (.main, 11)
  creator _ := (.main, 7)
  waiter
    | .fromT1 => .main
    | .fromMain => .t1
  rank
    | .main, i => if i < 10 then i else if i < 15 then i + 3 else i + 7
    | .t1, i => if i < 5 then i + 8 else i + 10

def discipline : Discipline program where
  toPlan := plan
  fits := by decide
  sets := by
    intro f
    cases f <;> rfl
  births := by decide
  grows := by decide
  releases := by decide
  nonempty := by decide

def Cond.object : Cond → Object
  | .fromT1 => .condFromT1
  | .fromMain => .condFromMain

def objects : Instr Tid Flag Cond Act → List Object
  | .lock | .unlock => [.mutex]
  | .set _ => [.fields]
  | .signal c => [c.object]
  | .await _ c => [.fields, c.object, .mutex]
  | .act (.destroy o) => [o]
  | .act (.setArg _) | .act .passedArgument => [.fields]
  | _ => []

def accesses (x : Instr Tid Flag Cond Act) : Bool :=
  match x with
  | .act (.init _) | .act .free => true
  | _ => !(objects x).isEmpty

def Live (s : State Tid Flag) (o : Object) : Prop :=
  (.main, .init o) ∈ program.output s ∧ (.main, .destroy o) ∉ program.output s

def Allocated (s : State Tid Flag) : Prop :=
  (.main, .malloc) ∈ program.output s ∧ (.main, .free) ∉ program.output s

def initPlace : Object → ℕ
  | .mutex => 2
  | .condFromMain => 3
  | .condFromT1 => 4
  | .fields => 5

def destroyPlace : Object → ℕ
  | .mutex => 17
  | .condFromMain => 18
  | .condFromT1 => 19
  | .fields => 22

variable {s : State Tid Flag}

theorem live_of_place (h : program.system.Reachable s) {o : Object}
    (hi : initPlace o < s.pc .main) (hd : s.pc .main ≤ destroyPlace o) : Live s o := by
  constructor
  · apply (mem_output_iff h (k := initPlace o) ?_ ?_).mpr hi
    · cases o <;> rfl
    · cases o <;> decide
  · cases o with
    | fields =>
      intro hmem
      exact absurd (mem_acts h hmem) (by decide)
    | mutex =>
      rw [mem_output_iff h (k := 17) rfl (by decide)]
      exact Nat.not_lt.mpr hd
    | condFromMain =>
      rw [mem_output_iff h (k := 18) rfl (by decide)]
      exact Nat.not_lt.mpr hd
    | condFromT1 =>
      rw [mem_output_iff h (k := 19) rfl (by decide)]
      exact Nat.not_lt.mpr hd

theorem allocated_of_place (h : program.system.Reachable s) (hi : 1 < s.pc .main)
    (hd : s.pc .main ≤ 20) : Allocated s := by
  constructor
  · exact (mem_output_iff h (k := 1) rfl (by decide)).mpr hi
  · rw [mem_output_iff h (k := 20) rfl (by decide)]
    exact Nat.not_lt.mpr hd

theorem main_bracketed : ∀ i : Fin main.length,
    (∀ o ∈ objects (main.get i), initPlace o < i ∧ i ≤ destroyPlace o) ∧
      (accesses (main.get i) = true → 1 < i.val ∧ i.val ≤ 20) := by
  decide

theorem t1_between (h : program.system.Reachable s) (hm : s.mode .t1 ≠ .unborn)
    (hpc : s.pc .t1 < threadFunction.length) : 7 < s.pc .main ∧ s.pc .main ≤ 15 := by
  constructor
  · rw [← mem_trace h]
    exact ((discipline.born_iff h .t1).mp hm).resolve_left (by decide)
  · by_contra hlt
    have hjoin : (Tid.main, 15) ∈ s.trace := (mem_trace h).mpr (by omega)
    have hlast : (Tid.t1, 10) ∈ s.trace := discipline.closed h (.single (.join rfl rfl)) hjoin
    rw [mem_trace h] at hlast
    change s.pc .t1 < 11 at hpc
    omega

theorem t1_within_places (o : Object) : initPlace o ≤ 5 ∧ 17 ≤ destroyPlace o := by
  cases o <;> decide

theorem t1_idle (h : program.system.Reachable s) (hpc : 15 < s.pc .main) :
    program.ended s .t1 := by
  have hborn : s.mode .t1 ≠ .unborn := by
    apply (discipline.born_iff h .t1).mpr
    exact .inr ((mem_trace h).mpr (Nat.lt_of_lt_of_le (by decide) hpc))
  by_contra hn
  have := t1_between h hborn (discipline.pc_lt_of_not_ended h hn)
  omega

theorem destroy_place : ∀ i : Fin main.length, ∀ o, main.get i = .act (.destroy o) →
    15 < i.val ∧ program.held .main i = false := by
  intro i o
  revert i
  cases o <;> decide

/-- Whatever a thread of 10_8 is about to use is live, also while it waits, and `main` destroys
only what no one holds or waits on. -/
theorem uses_live (h : program.system.Reachable s) (t : Tid) (hm : s.mode t ≠ .unborn)
    {x : Instr Tid Flag Cond Act} (hx : program.instr s t = some x) :
    (∀ o ∈ objects x, Live s o) ∧ (accesses x = true → Allocated s) ∧
      ∀ o, x = .act (.destroy o) → s.owner = none ∧ ∀ u, s.mode u ≠ .waiting := by
  obtain ⟨hlt, rfl⟩ := List.getElem?_eq_some_iff.mp hx
  cases t with
  | main =>
    obtain ⟨hobj, hmem⟩ := main_bracketed ⟨s.pc .main, hlt⟩
    refine ⟨fun o ho => ?_, fun ha => ?_, fun o ho => ?_⟩
    · exact live_of_place h (hobj o ho).1 (hobj o ho).2
    · exact allocated_of_place h (hmem ha).1 (hmem ha).2
    · obtain ⟨hpc, hheld⟩ := destroy_place ⟨s.pc .main, hlt⟩ o ho
      obtain ⟨hready, hend⟩ := t1_idle h hpc
      constructor
      · rcases (discipline.guards h).free_or_inside with hfree | ⟨u, _, hin⟩
        · exact hfree
        · cases u with
          | main => exact absurd hin (by simp [hheld])
          | t1 => exact absurd hin (by rw [hend, discipline.releases]; simp)
      · intro u hwait
        cases u with
        | main =>
          obtain ⟨f, c, hx'⟩ := (wellPlaced_reachable h .main).awaits (.inr (.inl hwait))
          rw [hx] at hx'
          cases hx'.symm.trans (congrArg some ho)
        | t1 =>
          rw [hready] at hwait
          cases hwait
  | t1 =>
    obtain ⟨hlow, hhigh⟩ := t1_between h hm hlt
    refine ⟨fun o _ => ?_, fun _ => ?_, fun o ho => ?_⟩
    · have := t1_within_places o
      exact live_of_place h (by omega) (by omega)
    · exact allocated_of_place h (by omega) (by omega)
    · have hnone : ∀ i : Fin threadFunction.length,
          threadFunction.get i ≠ .act (.destroy o) := by
        cases o <;> decide
      exact absurd ho (hnone ⟨s.pc .t1, hlt⟩)

def sample : List (Action Tid) :=
  List.replicate 9 (.run .main) ++ List.replicate 7 (.run .t1) ++ List.replicate 6 (.run .main) ++
    List.replicate 7 (.run .t1) ++ List.replicate 2 (.run .main)

theorem sample_runs : ((program.system.run program.initial sample).map
    (fun s => (s.failed, s.mode .main, program.instr s .main))) =
      some (false, .ready, some (.act (.destroy .mutex))) := by
  decide

theorem uses_live_sample : ∃ s, program.system.run program.initial sample = some s ∧
    Live s .mutex ∧ s.owner = none := by
  obtain ⟨s, hs, hx⟩ := Option.map_eq_some_iff.mp sample_runs
  simp only [Prod.mk.injEq] at hx
  obtain ⟨hlive, _, hidle⟩ := uses_live (.run sample (.init rfl) hs) .main (by simp [hx.2.1]) hx.2.2
  exact ⟨s, hs, hlive .mutex (by decide), (hidle .mutex rfl).1⟩

/-- `data->arg`, which has no value outside the life of the block, and what `t1` has printed of it. -/
structure Arg where
  member : Option ℤ
  printed : List (Option ℤ)
  deriving DecidableEq

def Arg.act (m : Arg) : Act → Arg
  | .malloc | .free => { m with member := none }
  | .setArg n => { m with member := some n }
  | .passedArgument => { m with printed := m.printed ++ [m.member] }
  | _ => m

def argOf (s : State Tid Flag) : Arg := (program.output s).foldl (fun m y => m.act y.2) ⟨none, []⟩

def memberAt (i : ℕ) : Option ℤ := if 6 < i ∧ i ≤ 20 then some arg else none

def printedAt (j : ℕ) : List (Option ℤ) := if 8 < j then [some arg] else []

def Arg.pass (m : Arg) (x : Instr Tid Flag Cond Act) : Arg :=
  match x.act? with
  | some w => m.act w
  | none => m

theorem main_passes (l : List (Option ℤ)) : ∀ i : Fin main.length,
    Arg.pass ⟨memberAt i, l⟩ (main.get i) = ⟨memberAt (i + 1), l⟩ := by
  intro i
  fin_cases i <;> rfl

theorem t1_passes : ∀ j : Fin threadFunction.length,
    Arg.pass ⟨some arg, printedAt j⟩ (threadFunction.get j) = ⟨some arg, printedAt (j + 1)⟩ := by
  decide

theorem argOf_pass {s s' : State Tid Flag} {t : Tid} {x : Instr Tid Flag Cond Act}
    (hx : program.instr s t = some x) (ht : s'.trace = s.trace ++ [(t, s.pc t)]) :
    argOf s' = (argOf s).pass x := by
  have hact : program.actAt (t, s.pc t) = x.act?.map (fun w => (t, w)) := by
    rw [Program.instr] at hx
    simp [Program.actAt, hx]
  rw [argOf, Program.output, ht, List.filterMap_append, List.foldl_append]
  cases hw : x.act? with
  | none => simp [Arg.pass, hact, hw, argOf, Program.output]
  | some w => simp [Arg.pass, hact, hw, argOf, Program.output]

theorem argOf_eq (h : program.system.Reachable s) :
    argOf s = ⟨memberAt (s.pc .main), printedAt (s.pc .t1)⟩ := by
  apply System.Reachable.induct
    (I := fun s => argOf s = ⟨memberAt (s.pc .main), printedAt (s.pc .t1)⟩) ?_ ?_ h
  · rintro s rfl
    rfl
  · intro s a s' hr ih hs
    cases (next_iff.mp hs).2.effect with
    | none ht hp hf hb =>
      rw [hp, ← ih]
      simp only [argOf, Program.output, ht]
    | @pass t x ha hm hx ht hp hf hb _ _ _ =>
      obtain ⟨hlt, hget⟩ := List.getElem?_eq_some_iff.mp hx
      rw [argOf_pass hx ht, ih, hp]
      cases t with
      | main =>
        rw [State.advance_pc_self, State.advance_pc_of_ne (by decide), ← hget]
        exact main_passes _ ⟨s.pc .main, hlt⟩
      | t1 =>
        obtain ⟨hlow, hhigh⟩ := t1_between hr (by simp [hm]) hlt
        have hmember : memberAt (s.pc .main) = some arg := if_pos (by omega)
        rw [State.advance_pc_self, State.advance_pc_of_ne (by decide), ← hget, hmember]
        exact t1_passes ⟨s.pc .t1, hlt⟩

/-- Every run of 10_8 without a failing call ends with each object destroyed once and the block
freed once, and `t1` has printed, once, what `main` has stored for it in the block. -/
theorem destroys_once (h : program.system.Reachable s) (hf : s.failed = false) :
    program.system.Inevitable (fun _ a => a.isRun) (fun s => program.Done s ∧
      (∀ o, o ≠ .fields → (program.outputOf s .main).count (.destroy o) = 1) ∧
      (program.outputOf s .main).count .free = 1 ∧ argOf s = ⟨none, [some arg]⟩) s := by
  have hkeep := (discipline.inevitably_done h hf).keeps (I := program.system.Reachable)
    (fun s t hr ⟨a, _, hs⟩ => hr.step a hs) h
  apply hkeep.mono
  rintro s ⟨⟨hend, hfree, hout⟩, hr⟩
  refine ⟨⟨hend, hfree, hout⟩, fun o ho => ?_, ?_, ?_⟩
  · rw [hout]
    cases o with
    | fields => exact absurd rfl ho
    | mutex | condFromMain | condFromT1 => decide
  · rw [hout]
    decide
  · rw [argOf_eq hr, (hend .main).2, (hend .t1).2]
    rfl

theorem destroys_once_sample : ∃ s, program.system.run program.initial sample = some s ∧
    program.system.Inevitable (fun _ a => a.isRun) (fun s => program.Done s ∧
      (∀ o, o ≠ .fields → (program.outputOf s .main).count (.destroy o) = 1) ∧
      (program.outputOf s .main).count .free = 1 ∧ argOf s = ⟨none, [some 42]⟩) s := by
  obtain ⟨s, hs, hx⟩ := Option.map_eq_some_iff.mp sample_runs
  exact ⟨s, hs, destroys_once (.run sample (.init rfl) hs) (congrArg Prod.fst hx)⟩

end LinuxSystemProgramming.JoinedThreads.SharedBlock
