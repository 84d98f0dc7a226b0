import LinuxSystemProgramming.WorkerPool.Pool

namespace LinuxSystemProgramming.WorkerPool

open Counting Mutex Semaphores Transition

variable {T V L : ℕ} {s t : State T} {i : Fin T}

def ThreadPc.left (L : ℕ) : ThreadPc → ℕ
  | .notCreated => L + 9
  | .semWait => L + 8
  | .loop j _ => L - j + 7
  | .lock _ => 6
  | .load _ => 5
  | .store _ _ => 4
  | .unlock => 3
  | .semPost => 2
  | .returning => 1
  | .terminated | .fault => 0

def MainPc.left (T : ℕ) : MainPc → ℕ
  | .semInit => 2 * T + 3
  | .create i => T - i + T + 2
  | .join i => T - i + 2
  | .semDestroy => 2
  | .mutexDestroy => 1
  | .exited _ => 0

def State.left (L : ℕ) (s : State T) : ℕ := s.main.left T + ∑ i, (s.threads i).left L

structure Placed (s : State T) : Prop where
  index : ∀ i, s.main = .create i ∨ s.main = .join i → i < T
  started : ∀ i : Fin T, i < s.main.created T → s.threads i ≠ .notCreated
  success : s.main ≠ .exited false

theorem joinLoop_index {i j : ℕ} (h : joinLoop T i = .create j ∨ joinLoop T i = .join j) :
    j < T := by
  unfold joinLoop at h
  split_ifs at h <;> simp at h
  omega

theorem createLoop_index {i j : ℕ} (h : createLoop T i = .create j ∨ createLoop T i = .join j) :
    j < T := by
  by_cases hi : i < T
  · simp only [createLoop, hi, if_true] at h
    simp at h
    omega
  · simp only [createLoop, hi, if_false] at h
    exact joinLoop_index h

theorem joinLoop_success (T i : ℕ) : joinLoop T i ≠ .exited false := by
  unfold joinLoop
  split_ifs <;> simp

theorem createLoop_success (T i : ℕ) : createLoop T i ≠ .exited false := by
  unfold createLoop
  split_ifs
  · simp
  · exact joinLoop_success T 0

theorem joinLoop_left (T i : ℕ) : (joinLoop T i).left T ≤ T - i + 2 := by
  unfold joinLoop
  split_ifs <;> simp only [MainPc.left] <;> omega

theorem createLoop_left (T i : ℕ) : (createLoop T i).left T ≤ T - i + T + 2 := by
  have hj := joinLoop_left T 0
  unfold createLoop
  split_ifs
  · simp only [MainPc.left]
    omega
  · omega

theorem placed_initial (T : ℕ) : Placed (State.initial T) := by
  refine ⟨?_, fun i hi => absurd hi (Nat.not_lt_zero i), by simp [State.initial]⟩
  intro i hi
  simp [State.initial] at hi

theorem thread_update (hm : ThreadMove L s i t) :
    t.main = s.main ∧ ∃ pc, t.threads = Function.update s.threads i pc ∧ pc ≠ .notCreated ∧
      pc.left L < (s.threads i).left L := by
  refine ⟨by cases hm <;> rfl, ?_⟩
  cases hm
  case' enters sem hpc _ => refine ⟨.loop 0 0, rfl, by simp, ?_⟩
  case' counts j l hpc hj => refine ⟨.loop (j + 1) (l + 1), rfl, by simp, ?_⟩
  case' counted j l hpc hj => refine ⟨.lock l, rfl, by simp, ?_⟩
  case' loopOverflows j l hpc _ _ => refine ⟨.fault, rfl, by simp, ?_⟩
  case' locks l hpc _ => refine ⟨.load l, rfl, by simp, ?_⟩
  case' loads l hpc => refine ⟨.store l s.glob, rfl, by simp, ?_⟩
  case' stores l g hpc => refine ⟨.unlock, rfl, by simp, ?_⟩
  case' storeOverflows l g hpc _ => refine ⟨.fault, rfl, by simp, ?_⟩
  case' unlocks hpc _ => refine ⟨.semPost, rfl, by simp, ?_⟩
  case' posts hpc => refine ⟨.returning, rfl, by simp, ?_⟩
  case' returns hpc => refine ⟨.terminated, rfl, by simp, ?_⟩
  all_goals
    rw [hpc]
    simp only [ThreadPc.left]
    omega

theorem placed_main (h : Placed s) (hm : s.mainMain V .run = some t) : Placed t := by
  cases hpc : s.main <;> simp only [State.mainMain, hpc, reduceCtorEq] at hm
  case semInit =>
    cases hm
    refine ⟨fun _ => createLoop_index, ?_, createLoop_success T 0⟩
    intro i hi
    exact absurd (hi.trans_eq (createLoop_created (Nat.zero_le T))) (Nat.not_lt_zero _)
  case create i =>
    split_ifs at hm with hi
    cases hm
    refine ⟨fun _ => createLoop_index, ?_, createLoop_success T (i + 1)⟩
    intro j hj
    have hj' : j < i + 1 := hj.trans_eq (createLoop_created hi)
    change Function.update s.threads ⟨i, hi⟩ .semWait j ≠ .notCreated
    by_cases hji : j = ⟨i, hi⟩
    · rw [hji, Function.update_self]
      simp
    · rw [Function.update_of_ne hji]
      apply h.started
      rw [hpc]
      have hne : (j : ℕ) ≠ i := fun he => hji (Fin.ext he)
      change (j : ℕ) < i
      omega
  case join i =>
    split_ifs at hm with hi
    cases hm
    refine ⟨fun _ => joinLoop_index, ?_, joinLoop_success T (i + 1)⟩
    intro j _
    apply h.started
    rw [hpc]
    exact j.isLt
  case semDestroy | mutexDestroy =>
    cases hm
    refine ⟨by simp [State.goto], ?_, by simp [State.goto]⟩
    intro j _
    apply h.started
    rw [hpc]
    exact j.isLt

theorem placed_thread (h : Placed s) (hm : ThreadMove L s i t) : Placed t := by
  obtain ⟨hmain, pc, ht, hpc, -⟩ := thread_update hm
  refine ⟨?_, ?_, ?_⟩
  · rw [hmain]
    exact h.index
  · intro j hj
    rw [hmain] at hj
    rw [ht]
    by_cases hji : j = i
    · rwa [hji, Function.update_self]
    · rw [Function.update_of_ne hji]
      exact h.started j hj
  · rw [hmain]
    exact h.success

theorem placed_reachable (hr : (pool T V L).ReachableWhile NoFailure s) : Placed s := by
  apply System.ReachableWhile.induct _ _ hr
  · rintro _ rfl
    exact placed_initial T
  · intro s a t _ h hc hn
    cases a with
    | main a =>
      obtain rfl : a = .run := hc
      exact placed_main h hn
    | thread i a =>
      obtain rfl : a = .run := hc
      exact placed_thread h (thread_of_next hn)

theorem main_left (ha : Admission V s) (hm : s.mainMain V .run = some t) :
    t.left L < s.left L := by
  cases hpc : s.main <;> simp only [State.mainMain, hpc, reduceCtorEq] at hm
  case semInit =>
    cases hm
    apply Nat.add_lt_add_right
    have hle := createLoop_left T 0
    rw [hpc]
    change (createLoop T 0).left T < 2 * T + 3
    omega
  case create i =>
    split_ifs at hm with hi
    cases hm
    apply Nat.add_lt_add
    · have hle := createLoop_left T (i + 1)
      rw [hpc]
      change (createLoop T (i + 1)).left T < T - i + T + 2
      omega
    · apply sum_update_lt
      rw [ha.fresh hpc hi]
      exact Nat.lt_succ_self _
  case join i =>
    split_ifs at hm with hi
    cases hm
    apply Nat.add_lt_add_right
    have hle := joinLoop_left T (i + 1)
    rw [hpc]
    change (joinLoop T (i + 1)).left T < T - i + 2
    omega
  case semDestroy | mutexDestroy =>
    cases hm
    apply Nat.add_lt_add_right
    rw [hpc]
    exact Nat.lt_succ_self _

theorem thread_left (hm : ThreadMove L s i t) : t.left L < s.left L := by
  obtain ⟨hmain, pc, ht, -, hlt⟩ := thread_update hm
  unfold State.left
  rw [hmain, ht]
  exact Nat.add_lt_add_left (sum_update_lt _ hlt) _

def State.Running (s : State T) : Prop := ∀ success, s.main ≠ .exited success

theorem thread_next (hrun : s.Running) {a : Attempt} :
    (pool T V L).next s (.thread i a) = s.threadFunc L i a := by
  simp only [pool, State.next]
  split
  · exact absurd ‹_› (hrun _)
  · rfl

def Goes (V L : ℕ) (s : State T) : Prop := ∃ t, (pool T V L).StepWhile NoFailure s t

theorem goes_thread (hrun : s.Running) (h : (s.threadFunc L i .run).isSome = true) :
    Goes V L s := by
  obtain ⟨t, ht⟩ := Option.isSome_iff_exists.mp h
  exact ⟨t, .thread i .run, rfl, (thread_next hrun).trans ht⟩

theorem goes_main (h : (s.mainMain V .run).isSome = true) : Goes V L s := by
  obtain ⟨t, ht⟩ := Option.isSome_iff_exists.mp h
  exact ⟨t, .main .run, rfl, ht⟩

theorem locked_goes (hrun : s.Running) (h : Sums L s) (hi : (s.threads i).locked = true) :
    Goes V L s := by
  have howner := (h.guards i).mp hi
  cases hpc : s.threads i <;> rw [hpc] at hi
  case load | store =>
    apply goes_thread hrun (i := i)
    simp only [State.threadFunc, hpc]
    rfl
  case unlock =>
    apply goes_thread hrun (i := i)
    simp only [State.threadFunc, hpc, release_eq_some.mpr ⟨howner, rfl⟩]
    rfl
  all_goals cases hi

theorem inside_goes (hrun : s.Running) (h : Sums L s) (hi : (s.threads i).inside = true) :
    Goes V L s := by
  have hok := h.threads i
  cases hpc : s.threads i <;> rw [hpc] at hi hok
  case notCreated | semWait | returning | terminated => cases hi
  case lock l =>
    rcases h.guards.free_or_inside with hfree | ⟨j, hj⟩
    · apply goes_thread hrun (i := i)
      simp only [State.threadFunc, hpc, acquire_eq_some.mpr ⟨hfree, rfl⟩]
      rfl
    · exact locked_goes hrun h hj
  case loop | semPost =>
    apply goes_thread hrun (i := i)
    simp only [State.threadFunc, hpc]
    rfl
  case load | store | unlock => exact locked_goes hrun h (by rw [hpc]; rfl)
  case fault => exact hok.elim

theorem semWait_goes (hrun : s.Running) (hV : 0 < V) (ha : Admission V s) (h : Sums L s)
    (hinit : s.main ≠ .semInit) (hi : s.threads i = .semWait) : Goes V L s := by
  have hunits : s.sem.value + s.inside = V := ha.units hinit
  by_cases hv : 0 < s.sem.value
  · apply goes_thread hrun (i := i)
    simp only [State.threadFunc, hi, Semaphore.wait, hv, if_true]
    rfl
  · obtain ⟨j, hj⟩ : ∃ j, (s.threads j).inside = true := by
      apply exists_of_count
      change 0 < s.inside
      omega
    exact inside_goes hrun h hj

theorem thread_goes (hrun : s.Running) (hV : 0 < V) (ha : Admission V s) (h : Sums L s)
    (hinit : s.main ≠ .semInit) (hc : s.threads i ≠ .notCreated)
    (ht : s.threads i ≠ .terminated) : Goes V L s := by
  cases hpc : s.threads i
  case notCreated => exact absurd hpc hc
  case terminated => exact absurd hpc ht
  case semWait => exact semWait_goes hrun hV ha h hinit hpc
  case returning =>
    apply goes_thread hrun (i := i)
    simp only [State.threadFunc, hpc]
    rfl
  all_goals exact inside_goes hrun h (by rw [hpc]; rfl)

theorem pool_goes (hV : 0 < V) (ha : Admission V s) (h : Sums L s) (hp : Placed s)
    (hne : s.main ≠ .exited true) : Goes V L s := by
  cases hpc : s.main with
  | semInit | semDestroy | mutexDestroy =>
    apply goes_main
    simp only [State.mainMain, hpc]
    rfl
  | create i =>
    have hi := hp.index i (.inl hpc)
    apply goes_main
    simp only [State.mainMain, hpc, hi, dif_pos]
    rfl
  | join i =>
    have hi := hp.index i (.inr hpc)
    by_cases hend : s.threads ⟨i, hi⟩ = .terminated
    · apply goes_main
      simp only [State.mainMain, hpc, hi, dif_pos, hend, if_true]
      rfl
    · have hrun : s.Running := by
        intro success
        simp [hpc]
      apply thread_goes hrun hV ha h _ _ hend
      · simp [hpc]
      · apply hp.started
        rw [hpc]
        exact hi
  | exited success =>
    cases success with
    | true => exact absurd hpc hne
    | false => exact absurd hpc hp.success

theorem Admission.all_terminated (ha : Admission V s) (hm : s.main = .exited true) (i : Fin T) :
    s.threads i = .terminated := by
  apply ha.joined
  rw [hm]
  exact i.isLt

theorem Admission.value_at_end (ha : Admission V s) (hm : s.main = .exited true) :
    s.sem.value = V := by
  have hunits : s.sem.value + s.inside = V := ha.units (by simp [hm])
  have hin : s.inside = 0 := by
    apply count_eq_zero
    intro i
    rw [ha.all_terminated hm]
    rfl
  omega

theorem Sums.glob_at_end (h : Sums L s) (ha : Admission V s) (hm : s.main = .exited true) :
    s.glob = T * L := by
  have hall : count ThreadPc.stored s.threads = Fintype.card (Fin T) := by
    apply count_eq_card
    intro i
    rw [ha.all_terminated hm]
    rfl
  rw [h.glob, hall, Fintype.card_fin, Nat.mul_comm]

/-- With at least one unit no run gets stuck: `main` comes to its end, with the updates of all the
threads in `glob` and all the units back in the semaphore. -/
theorem pool_completes (hV : 0 < V) (hmax : T * L ≤ intMax)
    (hr : (pool T V L).ReachableWhile NoFailure s) :
    (pool T V L).Inevitable NoFailure (fun t => t.main = .exited true ∧ t.glob = T * L ∧
      t.sem.value = V ∧ ∀ i, t.threads i = .terminated) s := by
  have hends : (pool T V L).Inevitable NoFailure
      (fun t => (pool T V L).ReachableWhile NoFailure t ∧ t.main = .exited true) s := by
    apply System.Inevitable.of_measure (I := (pool T V L).ReachableWhile NoFailure)
      (State.left L) ?_ ?_ hr
    · intro s hs hd
      apply pool_goes hV (admission_reachable hs) (sums_reachable hmax hs) (placed_reachable hs)
      exact fun hm => hd ⟨hs, hm⟩
    · rintro s t hs - ⟨a, ha, hn⟩
      refine ⟨.step a hs ha hn, ?_⟩
      cases a with
      | main a =>
        obtain rfl : a = .run := ha
        exact main_left (admission_reachable hs) hn
      | thread i a =>
        obtain rfl : a = .run := ha
        exact thread_left (thread_of_next hn)
  apply hends.mono
  rintro t ⟨ht, hm⟩
  have ha := admission_reachable ht
  exact ⟨hm, (sums_reachable hmax ht).glob_at_end ha hm, ha.value_at_end hm, ha.all_terminated hm⟩

theorem pool_completes_main : (pool cntThreads svalInitial loopCount).Inevitable NoFailure
    (fun t => t.main = .exited true ∧ t.glob = cntThreads * loopCount ∧
      t.sem.value = svalInitial ∧ ∀ i, t.threads i = .terminated) (State.initial cntThreads) :=
  pool_completes (by decide) (by decide) (.init rfl)

end LinuxSystemProgramming.WorkerPool
