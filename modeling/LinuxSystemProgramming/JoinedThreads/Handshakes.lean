import LinuxSystemProgramming.Lib.ThreadProgress

/-!
The programs 10_2 and 10_3: `main` and the joinable thread `t1` with a static mutex. In 10_2 `t1`
reports once, in 10_3 it reports that it is ready, waits for the word of `main` and reports again.
What a thread prints stands as one act for each line.
-/

namespace LinuxSystemProgramming.JoinedThreads

open Threads Transition

inductive Tid
  | main
  | t1
  deriving DecidableEq

instance : Fintype Tid := ⟨{.main, .t1}, fun t => by cases t <;> simp⟩

def valToPass : ℤ := 5

def exitSuccess : ℤ := 0

namespace OneWay

inductive Line
  | mainStarted
  | waitingForSignal
  | detectedFinished
  | exitedWith (status : ℤ)
  | mainExiting
  | startedExecuting
  | startedWork
  | passedArgument (n : ℤ)
  | signaledMain
  deriving DecidableEq

inductive Flag
  | workDone
  deriving DecidableEq

inductive Cond
  | cond
  deriving DecidableEq

def main : List (Instr Tid Flag Cond Line) :=
  [.act .mainStarted, .create .t1, .act .waitingForSignal, .lock, .await .workDone .cond, .unlock,
    .act .detectedFinished, .join .t1, .act (.exitedWith exitSuccess), .act .mainExiting]

def threadFunction : List (Instr Tid Flag Cond Line) :=
  [.act .startedExecuting, .act .startedWork, .act (.passedArgument valToPass), .lock,
    .set .workDone, .signal .cond, .unlock, .act .signaledMain]

def program : Program Tid Flag Cond Line where
  main := .main
  code
    | .main => main
    | .t1 => threadFunction
  mayFail _ := false

def plan : Plan Tid Flag Cond where
  setter _ := (.t1, 4)
  creator _ := (.main, 1)
  waiter _ := .main
  rank
    | .main, i => [0, 1, 2, 3, 7, 8, 9, 10, 11, 12].getD i 0
    | .t1, i => i + 2

def discipline : Discipline program where
  toPlan := plan
  fits := by decide
  sets := by
    intro f
    cases f
    rfl
  births := by decide
  grows := by decide
  releases := by decide
  nonempty := by decide

def precedes : List ((Tid × Line) × (Tid × Line)) :=
  [((.main, .mainStarted), (.t1, .startedExecuting)),
    ((.t1, .passedArgument valToPass), (.main, .detectedFinished)),
    ((.t1, .signaledMain), (.main, .exitedWith exitSuccess))]

theorem precedes_of_mem : ∀ yz ∈ precedes, program.Precedes yz.1 yz.2 := by
  simp only [precedes, List.forall_mem_cons]
  refine ⟨?_, ?_, ?_, by simp⟩
  · refine ⟨(.main, 0), 0, rfl, by decide, ?_⟩
    apply before_of_edge 1 0 (.birth rfl) <;> decide
  · refine ⟨(.t1, 2), 6, rfl, by decide, ?_⟩
    apply before_of_edge 4 4 (.flag rfl rfl) <;> decide
  · refine ⟨(.t1, 7), 8, rfl, by decide, ?_⟩
    apply before_of_edge 7 7 (.join rfl rfl) <;> decide

/-- In every interleaving of 10_2 `main` says that the work is done only after `t1` has printed its
argument, and gives the status after the last line of `t1`; and from every state, spurious wake-ups
or not, the run comes to its end: no wake-up is lost and `main` takes `t1` back. -/
theorem work_reported {s : State Tid Flag} (h : program.system.Reachable s) :
    (∀ t, program.outputOf s t <+: program.acts t (program.code t).length) ∧
      (∀ yz ∈ precedes, ∀ l l', program.output s = l ++ yz.2 :: l' → yz.1 ∈ l) ∧
      (s.failed = false →
        program.system.Inevitable (fun _ a => a.isRun) program.Done s) := by
  refine ⟨fun t => outputOf_isPrefix h t, ?_, fun hf => discipline.inevitably_done h hf⟩
  intro yz hyz l l' hl
  exact discipline.output_before h (precedes_of_mem yz hyz) hl

def sample : List (Action Tid) :=
  List.replicate 6 (.run .main) ++ [.spurious .main] ++ List.replicate 3 (.run .main) ++
    List.replicate 6 (.run .t1)

theorem work_reported_sample : ∃ s, program.system.run program.initial sample = some s ∧
    program.outputOf s .t1 <+: program.acts .t1 8 ∧
    program.system.Inevitable (fun _ a => a.isRun) program.Done s := by
  have hrun : ((program.system.run program.initial sample).map (fun s => s.failed)) =
      some false := by decide
  obtain ⟨s, hs, hf⟩ := Option.map_eq_some_iff.mp hrun
  obtain ⟨hlines, _, hdone⟩ := work_reported (.run sample (.init rfl) hs)
  exact ⟨s, hs, hlines .t1, hdone hf⟩

end OneWay

namespace TwoWay

inductive Line
  | mainStarted
  | waitingForReady
  | sentStart
  | waitingForDone
  | reportedDone
  | cleaningUp
  | exitedWith (status : ℤ)
  | mainExiting
  | startedExecuting
  | readyToWork
  | goReceived
  | passedArgument (n : ℤ)
  | signalingMain
  | exiting
  deriving DecidableEq

inductive Flag
  | t1Ready
  | t1ToProceed
  | t1Done
  deriving DecidableEq

inductive Cond
  | fromT1
  | fromMain
  deriving DecidableEq

def main : List (Instr Tid Flag Cond Line) :=
  [.act .mainStarted, .create .t1, .act .waitingForReady, .lock, .await .t1Ready .fromT1,
    .set .t1ToProceed, .signal .fromMain, .unlock, .act .sentStart, .act .waitingForDone, .lock,
    .await .t1Done .fromT1, .unlock, .act .reportedDone, .act .cleaningUp, .join .t1,
    .act (.exitedWith exitSuccess), .act .mainExiting]

def threadFunction : List (Instr Tid Flag Cond Line) :=
  [.act .startedExecuting, .act .readyToWork, .lock, .set .t1Ready, .signal .fromT1,
    .await .t1ToProceed .fromMain, .unlock, .act .goReceived, .act (.passedArgument valToPass),
    .act .signalingMain, .lock, .set .t1Done, .signal .fromT1, .unlock, .act .exiting]

def program : Program Tid Flag Cond Line where
  main := .main
  code
    | .main => main
    | .t1 => threadFunction
  mayFail _ := false

def plan : Plan Tid Flag Cond where
  setter
    | .t1Ready => (.t1, 3)
    | .t1ToProceed => (.main, 5)
    | .t1Done => (.t1, 11)
  creator _ := (.main, 1)
  waiter
    | .fromT1 => .main
    | .fromMain => .t1
  rank
    | .main, i => [0, 1, 2, 3, 7, 8, 9, 10, 11, 12, 13, 16, 17, 18, 19, 20, 21, 22].getD i 0
    | .t1, i => [2, 3, 4, 5, 6, 9, 10, 11, 12, 13, 14, 15, 16, 17, 18].getD i 0

def discipline : Discipline program where
  toPlan := plan
  fits := by decide
  sets := by
    intro f
    cases f <;> rfl
  births := by decide
  grows := by decide
  releases := by decide
  nonempty := by decide

def precedes : List ((Tid × Line) × (Tid × Line)) :=
  [((.main, .mainStarted), (.t1, .startedExecuting)),
    ((.t1, .readyToWork), (.main, .sentStart)),
    ((.main, .waitingForReady), (.t1, .goReceived)),
    ((.t1, .signalingMain), (.main, .reportedDone)),
    ((.t1, .exiting), (.main, .exitedWith exitSuccess))]

theorem precedes_of_mem : ∀ yz ∈ precedes, program.Precedes yz.1 yz.2 := by
  simp only [precedes, List.forall_mem_cons]
  refine ⟨?_, ?_, ?_, ?_, ?_, by simp⟩
  · refine ⟨(.main, 0), 0, rfl, by decide, ?_⟩
    apply before_of_edge 1 0 (.birth rfl) <;> decide
  · refine ⟨(.t1, 1), 8, rfl, by decide, ?_⟩
    apply before_of_edge 3 4 (.flag rfl rfl) <;> decide
  · refine ⟨(.main, 2), 7, rfl, by decide, ?_⟩
    apply before_of_edge 5 5 (.flag rfl rfl) <;> decide
  · refine ⟨(.t1, 9), 13, rfl, by decide, ?_⟩
    apply before_of_edge 11 11 (.flag rfl rfl) <;> decide
  · refine ⟨(.t1, 14), 16, rfl, by decide, ?_⟩
    apply before_of_edge 14 15 (.join rfl rfl) <;> decide

/-- The three phases of 10_3 in every interleaving: the mutex keeps the critical sections apart,
`main` sends the start after `t1` is ready, `t1` goes on after it, and `main` reports the end after
the work is done. -/
theorem phases_ordered {s : State Tid Flag} (h : program.system.Reachable s) :
    (∀ t u, program.Inside s t → program.Inside s u → t = u) ∧
      (∀ t, program.outputOf s t <+: program.acts t (program.code t).length) ∧
      ∀ yz ∈ precedes, ∀ l l', program.output s = l ++ yz.2 :: l' → yz.1 ∈ l := by
  refine ⟨?_, fun t => outputOf_isPrefix h t, ?_⟩
  · intro t u ht hu
    have hg := discipline.guards h
    exact Option.some_inj.mp (((hg t).mp ht).symm.trans ((hg u).mp hu))
  · intro yz hyz l l' hl
    exact discipline.output_before h (precedes_of_mem yz hyz) hl

def sample : List (Action Tid) :=
  List.replicate 3 (.run .main) ++ List.replicate 7 (.run .t1) ++ [.spurious .t1] ++
    List.replicate 5 (.run .main) ++ List.replicate 4 (.run .t1)

theorem sample_runs :
    ((program.system.run program.initial sample).map (fun s => (s.failed, program.output s))) =
      some (false, [(.main, .mainStarted), (.main, .waitingForReady), (.t1, .startedExecuting),
        (.t1, .readyToWork), (.t1, .goReceived)]) := by
  decide

theorem phases_ordered_sample : ∃ s, program.system.run program.initial sample = some s ∧
    program.outputOf s .t1 <+: program.acts .t1 15 := by
  obtain ⟨s, hs, _⟩ := Option.map_eq_some_iff.mp sample_runs
  exact ⟨s, hs, (phases_ordered (.run sample (.init rfl) hs)).2.1 .t1⟩

theorem handshake_completes {s : State Tid Flag} (h : program.system.Reachable s)
    (hf : s.failed = false) :
    program.system.Inevitable (fun _ a => a.isRun) program.Done s :=
  discipline.inevitably_done h hf

theorem handshake_completes_sample : ∃ s, program.system.run program.initial sample = some s ∧
    program.system.Inevitable (fun _ a => a.isRun) program.Done s := by
  obtain ⟨s, hs, hf⟩ := Option.map_eq_some_iff.mp sample_runs
  exact ⟨s, hs, handshake_completes (.run sample (.init rfl) hs) (congrArg Prod.fst hf)⟩

end TwoWay

end LinuxSystemProgramming.JoinedThreads
