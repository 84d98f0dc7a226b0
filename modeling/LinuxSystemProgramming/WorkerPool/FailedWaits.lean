import LinuxSystemProgramming.NamedSemaphore.FreshRun
import LinuxSystemProgramming.WorkerPool.Pool

namespace LinuxSystemProgramming.WorkerPool

open NamedSemaphore (runOf semInitialValue cntJoinersExpected P1Pc JoinerPc)

def OnlyWaitsFail {T : ℕ} (s : State T) : Action T → Prop
  | .main a => a = .run
  | .thread i a => a = .run ∨ s.threads i = .semWait

instance {T : ℕ} (s : State T) (a : Action T) : Decidable (OnlyWaitsFail s a) :=
  match a with
  | .main a => inferInstanceAs (Decidable (a = .run))
  | .thread i a => inferInstanceAs (Decidable (a = .run ∨ s.threads i = .semWait))

def atWait : P1Pc → Bool
  | .wait _ => true
  | _ => false

def atJoinerWait : JoinerPc → Bool
  | .wait _ => true
  | _ => false

def OnlyNamedWaitsFail {K : ℕ} (s : NamedSemaphore.State K) : NamedSemaphore.Action K → Prop
  | .p1 a => a = .run ∨ a = .fails ∧ atWait s.p1 = true
  | .joiner i a => a = .run ∨ a = .fails ∧ atJoinerWait (s.joiners i) = true

instance {K : ℕ} (s : NamedSemaphore.State K) (a : NamedSemaphore.Action K) :
    Decidable (OnlyNamedWaitsFail s a) :=
  match a with
  | .p1 a => inferInstanceAs (Decidable (a = .run ∨ a = .fails ∧ atWait s.p1 = true))
  | .joiner i a =>
    inferInstanceAs (Decidable (a = .run ∨ a = .fails ∧ atJoinerWait (s.joiners i) = true))

/-- As long as no `sem_wait` fails, whoever is inside has a unit of his own. -/
theorem admission_conserved (V : ℕ) :
    (∀ (T L : ℕ) (s : State T), (pool T V L).ReachableWhile NoFailure s →
      s.inside ≤ V ∧ (s.main ≠ .semInit → s.sem.value + s.inside = V) ∧
        ∀ i, (s.threads i).inside = true → s.acquired i = true) ∧
    ∀ (K : ℕ) (s : NamedSemaphore.State K),
      (runOf V K .empty).ReachableWhile NamedSemaphore.NoFailure s →
      s.inside ≤ V ∧ (∀ v ∈ s.kernel.semValue, v + s.inside = V) ∧
        s.p1.unearned = false ∧ ∀ i, (s.joiners i).unearned = false := by
  constructor
  · intro T L s hr
    have h := admission_reachable hr
    exact ⟨h.inside_le, h.units, h.earned⟩
  · intro K s hr
    have hi := NamedSemaphore.inv_reachable hr.reachable
    have h := NamedSemaphore.admission_reachable hr
    exact ⟨h.inside_le hi, fun v hv => h.conserved hi hv, h.p1, h.joiners⟩

theorem admission_conserved_full :
    (∃ s : State cntThreads, s.inside = 2 ∧ s.sem.value + s.inside = svalInitial) ∧
    ∃ s : NamedSemaphore.State cntJoinersExpected, s.kernel.semValue = some 0 ∧
      0 + s.inside = semInitialValue := by
  constructor
  · have hrun : ((pool cntThreads svalInitial loopCount).runWhile
        (fun s a => decide (NoFailure s a)) (State.initial _)
        (runs 4 .main ++ runs 1 (.thread 0) ++ runs 1 (.thread 2))).map
          (fun s => (s.main, s.inside)) = some (.join 0, 2) := by decide +kernel
    obtain ⟨s, hs, he⟩ := Option.map_eq_some_iff.mp hrun
    obtain ⟨hm, hin⟩ := Prod.mk.inj he
    have hr : (pool cntThreads svalInitial loopCount).ReachableWhile NoFailure s :=
      .run (fun _ _ => of_decide_eq_true) _ (.init rfl) hs
    refine ⟨s, hin, ((admission_conserved svalInitial).1 _ _ s hr).2.1 ?_⟩
    rw [hm]
    exact fun h => nomatch h
  · have hrun : ((runOf semInitialValue cntJoinersExpected .empty).runWhile
        (fun s a => decide (NamedSemaphore.NoFailure s a)) (.start _ .empty)
        (NamedSemaphore.runs 3 .p1 ++ NamedSemaphore.runs 3 (.joiner 1))).map
          (fun s => s.kernel.semValue) = some (some 0) := by decide +kernel
    obtain ⟨s, hs, hv⟩ := Option.map_eq_some_iff.mp hrun
    have hr : (runOf semInitialValue cntJoinersExpected .empty).ReachableWhile
        NamedSemaphore.NoFailure s := .run (fun _ _ => of_decide_eq_true) _ (.init rfl) hs
    exact ⟨s, hv, ((admission_conserved semInitialValue).2 _ s hr).2.1 0 hv⟩

/-- With both units taken, a thread, P1 and a joiner each get inside by a failed `sem_wait`. -/
theorem admission_not_conserved :
    (∃ s : State cntThreads,
      (pool cntThreads svalInitial loopCount).ReachableWhile OnlyWaitsFail s ∧
      s.sem.value = 0 ∧ s.inside = 3 ∧ (s.threads 2).inside = true ∧ s.acquired 2 = false) ∧
    (∃ s : NamedSemaphore.State cntJoinersExpected,
      (runOf semInitialValue cntJoinersExpected .empty).ReachableWhile OnlyNamedWaitsFail s ∧
      s.kernel.semValue = some 0 ∧ s.inside = 3 ∧ s.p1.unearned = true) ∧
    ∃ s : NamedSemaphore.State cntJoinersExpected,
      (runOf semInitialValue cntJoinersExpected .empty).ReachableWhile OnlyNamedWaitsFail s ∧
      s.kernel.semValue = some 0 ∧ s.inside = 3 ∧ (s.joiners 1).unearned = true := by
  refine ⟨?_, ?_, ?_⟩
  · have hrun : ((pool cntThreads svalInitial loopCount).runWhile
        (fun s a => decide (OnlyWaitsFail s a)) (State.initial _)
        (runs 4 .main ++ runs 1 (.thread 0) ++ runs 1 (.thread 1) ++ [.thread 2 .fails])).map
          (fun s => (s.sem.value, s.inside, (s.threads 2).inside, s.acquired 2)) =
        some (0, 3, true, false) := by decide +kernel
    obtain ⟨s, hs, he⟩ := Option.map_eq_some_iff.mp hrun
    simp only [Prod.mk.injEq] at he
    exact ⟨s, .run (fun _ _ => of_decide_eq_true) _ (.init rfl) hs, he⟩
  · have hrun : ((runOf semInitialValue cntJoinersExpected .empty).runWhile
        (fun s a => decide (OnlyNamedWaitsFail s a)) (.start _ .empty)
        (NamedSemaphore.runs 2 .p1 ++ NamedSemaphore.runs 3 (.joiner 0) ++
          NamedSemaphore.runs 3 (.joiner 1) ++ [.p1 .fails])).map
          (fun s => (s.kernel.semValue, s.inside, s.p1.unearned)) =
        some (some 0, 3, true) := by decide +kernel
    obtain ⟨s, hs, he⟩ := Option.map_eq_some_iff.mp hrun
    simp only [Prod.mk.injEq] at he
    exact ⟨s, .run (fun _ _ => of_decide_eq_true) _ (.init rfl) hs, he⟩
  · have hrun : ((runOf semInitialValue cntJoinersExpected .empty).runWhile
        (fun s a => decide (OnlyNamedWaitsFail s a)) (.start _ .empty)
        (NamedSemaphore.runs 3 .p1 ++ NamedSemaphore.runs 3 (.joiner 0) ++
          NamedSemaphore.runs 2 (.joiner 1) ++ [.joiner 1 .fails])).map
          (fun s => (s.kernel.semValue, s.inside, (s.joiners 1).unearned)) =
        some (some 0, 3, true) := by decide +kernel
    obtain ⟨s, hs, he⟩ := Option.map_eq_some_iff.mp hrun
    simp only [Prod.mk.injEq] at he
    exact ⟨s, .run (fun _ _ => of_decide_eq_true) _ (.init rfl) hs, he⟩

end LinuxSystemProgramming.WorkerPool
