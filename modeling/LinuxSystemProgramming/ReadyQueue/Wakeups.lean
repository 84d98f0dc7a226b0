import LinuxSystemProgramming.ReadyQueue.Safety

namespace LinuxSystemProgramming.ReadyQueue

open Mutex RingBuffer Transition

variable {N : ℕ} {s t : State N}

structure Wakes (s : State N) : Prop where
  main : s.mainPc = .waitG → s.readyQueue.head ≠ s.readyQueue.tail → ∃ i, s.pc i = .signalMain
  worker : ∀ i, s.pc i = .waiting → (s.tData i).toProceed = true → s.mainPc = .signalT i

theorem waiting_of_wake {id i : ℕ} (hw : s.wake id i = .waiting) : i ≠ id ∧ s.pc i = .waiting := by
  unfold State.wake at hw
  split_ifs at hw with hwait
  · have hne : i ≠ id := by
      rintro rfl
      simp at hw
    rw [Function.update_of_ne hne] at hw
    exact ⟨hne, hw⟩
  · refine ⟨?_, hw⟩
    rintro rfl
    exact hwait hw

theorem wakes_signalT {id : ℕ} (hpc : s.mainPc = .signalT id) (h : Wakes s) :
    Wakes { s with pc := s.wake id, mainPc := .unlockT id } := by
  refine ⟨by rintro ⟨⟩, ?_⟩
  intro i hw ht
  obtain ⟨hne, hwi⟩ := waiting_of_wake hw
  have he := h.worker i hwi ht
  rw [hpc] at he
  exact absurd (MainPc.signalT.inj he).symm hne

theorem wakes_main (hm : MainMove s t) (h : Wakes s) : Wakes t := by
  have hother : ∀ p, s.mainPc = p → (∀ id, p ≠ .signalT id) →
      ∀ i, s.pc i = .waiting → (s.tData i).toProceed = true → False := by
    rintro p rfl hp i hw ht
    exact hp i (h.worker i hw ht)
  cases hm with
  | wait hpc he ho =>
    exact ⟨fun _ hne => absurd he hne, fun i hw ht => (hother _ hpc (by simp) i hw ht).elim⟩
  | create k hpc hk =>
    refine ⟨by rintro ⟨⟩, ?_⟩
    intro i hw ht
    have hik : i ≠ k := by
      rintro rfl
      simp at hw
    simp only [Function.update_of_ne hik, initData] at hw ht
    exact (hother _ hpc (by simp) i hw ht).elim
  | proceed id hpc =>
    refine ⟨by rintro ⟨⟩, ?_⟩
    intro i hw ht
    by_cases hi : i = id
    · rw [hi]
    · simp only [Function.update_of_ne hi, setToProceed] at ht
      exact (hother _ hpc (by simp) i hw ht).elim
  | signalT id hpc => exact wakes_signalT hpc h
  | lock pc hl ho | unlock pc hl ho | joins pc hl =>
    generalize hp : s.mainPc = p at hl
    cases hl <;>
      exact ⟨by rintro ⟨⟩, fun i hw ht => (hother _ hp (by simp) i hw ht).elim⟩
  | destroy k object hpc =>
    cases object <;>
      exact ⟨by rintro ⟨⟩, fun i hw ht => (hother _ hpc (by simp) i hw ht).elim⟩
  | lockT id hpc ho | unlockT id hpc ho =>
    refine ⟨by rintro ⟨⟩, ?_⟩
    intro i hw ht
    rw [setMutex_toProceed] at ht
    exact (hother _ hpc (by simp) i hw ht).elim
  | created _ hpc | again hpc | leave hpc | nonempty hpc | popped _ _ hpc | drained hpc
  | already _ hpc | fresh _ hpc | count _ hpc | joined _ hpc | spurious hpc =>
    exact ⟨by rintro ⟨⟩, fun i hw ht => (hother _ hpc (by simp) i hw ht).elim⟩

theorem wakes_worker {i : ℕ} (hm : WorkerMove s i t) (h : Wakes s) : Wakes t := by
  have hm' := hm
  constructor
  · intro hw hne
    have hsw : s.mainPc = .waitG := by
      rcases hm.mainPc_cases with he | ⟨-, he⟩
      · rw [← he, hw]
      · rw [hw] at he
        cases he
    have hkeep (hq : t.readyQueue = s.readyQueue) (hi : s.pc i ≠ .signalMain) :
        ∃ j, t.pc j = .signalMain := by
      obtain ⟨j, hj⟩ := h.main hsw (hq ▸ hne)
      have hji : j ≠ i := by
        rintro rfl
        exact hi hj
      exact ⟨j, by rw [hm'.pc_other hji, hj]⟩
    cases hm with
    | push hpc => exact ⟨i, Function.update_self _ _ _⟩
    | signalMain hpc => simp [State.setPc, State.wakeMain, hsw] at hw
    | lockOwn pc hl ho | unlockOwn pc hl ho =>
      apply hkeep rfl
      generalize s.pc i = p at hl
      cases hl <;> simp
    | signalReady hpc | lockPush hpc | unlockPush hpc | go hpc | wait hpc | ended hpc
    | spurious hpc => exact hkeep rfl (by simp [hpc])
  · intro j hw ht
    rw [hm.keeps_toProceed] at ht
    by_cases hji : j = i
    · subst hji
      exfalso
      cases hm with
      | wait hpc hf ho => simp [hf] at ht
      | lockOwn pc hl ho | unlockOwn pc hl ho =>
        simp only [Function.update_self] at hw
        generalize s.pc j = p at hl
        cases hl <;> cases hw
      | _ => simp [State.setPc] at hw
    · rw [hm.pc_other hji] at hw
      have he := h.worker j hw ht
      rcases hm.mainPc_cases with hmain | ⟨hwait, -⟩
      · rw [hmain, he]
      · rw [he] at hwait
        cases hwait

theorem wakes_reachable (h : (readyQueue N).Reachable s) : Wakes s := by
  apply System.Reachable.induct _ _ h
  · rintro _ rfl
    exact ⟨by rintro ⟨⟩, by rintro _ ⟨⟩⟩
  · intro s a t _ hs hn
    rcases State.next_move hn with hm | ⟨i, hm⟩
    · exact wakes_main hm hs
    · exact wakes_worker hm hs

def State.CanGo (s : State N) : Prop := (∃ t, s.main = some t) ∨ ∃ i t, s.threadHandler i = some t

theorem insideG_goes (h : Locks s) {i : ℕ} (hi : (s.pc i).insideG = true) :
    ∃ t, s.threadHandler i = some t := by
  have ho := (h.global (.worker i)).mp hi
  cases hpc : s.pc i <;> rw [hpc] at hi <;> try cases hi
  case push => exact ⟨_, by simp only [State.threadHandler, hpc]; rfl⟩
  case signalMain => exact ⟨_, by simp only [State.threadHandler, hpc]; rfl⟩
  case unlockPush => exact ⟨_, by simp only [State.threadHandler, hpc, ho, release]; rfl⟩

theorem insideOwn_goes (h : Locks s) {i : ℕ} (hi : (s.pc i).insideOwn = true) :
    ∃ t, s.threadHandler i = some t := by
  have ho := (h.own i (.worker i)).mp ⟨rfl, hi⟩
  have hrel : ∀ pc, ∃ t, s.releaseOwn i pc = some t := by
    intro pc
    rw [State.releaseOwn, ho]
    exact ⟨_, by rw [release, if_pos rfl]; rfl⟩
  cases hpc : s.pc i <;> rw [hpc] at hi <;> try cases hi
  all_goals simp only [State.threadHandler, hpc]
  case signalReady => exact ⟨_, rfl⟩
  case unlockReady => exact hrel _
  case testProceed =>
    split_ifs
    · exact ⟨_, rfl⟩
    · exact hrel _
  case unlockProceed => exact hrel _

theorem global_free_or_goes (h : Locks s) (hmain : s.mainPc.insideG = false) :
    s.mutexGSync = none ∨ s.CanGo := by
  rcases h.global.free_or_inside with hfree | ⟨τ, hτ⟩
  · exact .inl hfree
  · cases τ with
    | main =>
      have hin : s.mainPc.insideG = true := hτ
      simp [hmain] at hin
    | worker i => exact .inr (.inr ⟨i, insideG_goes h hτ⟩)

theorem own_free_or_goes (h : Locks s) {i : ℕ} (hmain : s.mainPc.insideT i = false) :
    (s.tData i).mutex = none ∨ s.CanGo := by
  rcases (h.own i).free_or_inside with hfree | ⟨τ, hτ⟩
  · exact .inl hfree
  · cases τ with
    | main =>
      have hin : s.mainPc.insideT i = true := hτ
      simp [hmain] at hin
    | worker j =>
      obtain ⟨rfl, hj⟩ := hτ
      exact .inr (.inr ⟨j, insideOwn_goes h hj⟩)

theorem beforePush_goes (h : Locks s) (hmain : s.mainPc = .waitG) {i : ℕ}
    (hc : (s.pc i).isCreated = true) (hp : (s.pc i).hasPushed = false) : s.CanGo := by
  have hgo : ∀ t, s.threadHandler i = some t → s.CanGo := fun t ht => .inr ⟨i, t, ht⟩
  cases hpc : s.pc i <;> rw [hpc] at hc hp <;> try cases hc
  case lockReady =>
    rcases own_free_or_goes h (i := i) (by rw [hmain]; rfl) with hfree | hgoes
    · apply hgo
      simp only [State.threadHandler, hpc, State.acquireOwn, hfree]
      rfl
    · exact hgoes
  case lockPush =>
    rcases global_free_or_goes h (by rw [hmain]; rfl) with hfree | hgoes
    · apply hgo
      simp only [State.threadHandler, hpc, hfree]
      rfl
    · exact hgoes
  case signalReady | unlockReady =>
    obtain ⟨t, ht⟩ := insideOwn_goes h (i := i) (by rw [hpc]; rfl)
    exact hgo t ht
  case push =>
    obtain ⟨t, ht⟩ := insideG_goes h (i := i) (by rw [hpc]; rfl)
    exact hgo t ht
  all_goals cases hp

theorem Inv.exists_uncounted (h : Inv s) (hc : s.countOfReadyThreads < N) :
    ∃ i, i < N ∧ i ∉ s.counted := by
  by_contra hall
  have hsub : List.range N ⊆ s.counted := by
    intro i hi
    by_contra hni
    exact hall ⟨i, List.mem_range.mp hi, hni⟩
  have hlen := (List.subperm_of_subset List.nodup_range hsub).length_le
  have hcount : s.countOfReadyThreads = s.counted.length := h.counted.count
  rw [List.length_range] at hlen
  omega

theorem waitG_goes (h : Inv s) (hw : Wakes s) (hpc : s.mainPc = .waitG) : s.CanGo := by
  by_cases hq : s.readyQueue.head = s.readyQueue.tail
  · obtain ⟨i, hi, hni⟩ := h.exists_uncounted (h.passed.collecting (by rw [hpc]; rfl))
    have hcr : (s.pc i).isCreated = true := by
      apply (h.threads.created i).mpr
      rwa [hpc]
    apply beforePush_goes h.locks hpc hcr
    obtain ⟨xs, hx, hpushed⟩ := h.queued.contents
    have hpop := h.counted.popped
    rw [hx.nil_iff.mp hq, List.append_nil] at hpushed
    rw [hpc] at hpop
    have hnp : i ∉ s.pushed := by
      rw [hpushed, hpop]
      simpa [MainPc.view, MainPc.inFlight] using hni
    rw [h.queued.mem i] at hnp
    exact Bool.eq_false_iff.mpr hnp
  · obtain ⟨i, hi⟩ := hw.main hpc hq
    exact .inr ⟨i, insideG_goes h.locks (by rw [hi]; rfl)⟩

theorem main_goes (h : Inv s) (hw : Wakes s) (ht : s.mainPc ≠ .terminated) : s.CanGo := by
  have hgo : s.main.isSome = true → s.CanGo := fun hm => .inl (Option.isSome_iff_exists.mp hm)
  have hg := h.locks.global .main
  have hacq : ∀ pc, s.mainPc.insideG = false → s.main = s.acquireG pc → s.CanGo := by
    intro pc hin hm
    rcases global_free_or_goes h.locks hin with hfree | hgoes
    · apply hgo
      rw [hm, State.acquireG, hfree]
      rfl
    · exact hgoes
  have hrel : ∀ pc, s.mainPc.insideG = true → s.main = s.releaseG pc → s.CanGo := by
    intro pc hin hm
    apply hgo
    rw [hm, State.releaseG, hg.mp hin, release, if_pos rfl]
    rfl
  cases hpc : s.mainPc with
  | waitG => exact waitG_goes h hw hpc
  | terminated => exact absurd hpc ht
  | lockG => exact hacq .testEmpty (by rw [hpc]; rfl) (by simp only [State.main, hpc])
  | relockG => exact hacq .testEmpty (by rw [hpc]; rfl) (by simp only [State.main, hpc])
  | relockPop => exact hacq .pop (by rw [hpc]; rfl) (by simp only [State.main, hpc])
  | unlockG => exact hrel .collect (by rw [hpc]; rfl) (by simp only [State.main, hpc])
  | unlockPopped id => exact hrel (.lockT id) (by rw [hpc]; rfl) (by simp only [State.main, hpc])
  | testEmpty =>
    by_cases he : s.readyQueue.head = s.readyQueue.tail
    · exact hrel .waitG (by rw [hpc]; rfl) (by simp only [State.main, hpc, he, ↓reduceIte])
    · apply hgo
      simp only [State.main, hpc, he, ↓reduceIte, Option.isSome_some]
  | lockT id =>
    have hpop := h.counted.popped
    rw [hpc] at hpop
    have hid : id < N := by
      apply h.queued.lt h.threads
      apply h.queued.popped_subset
      rw [hpop]
      exact List.mem_append_right _ (List.mem_singleton_self id)
    rcases own_free_or_goes h.locks (i := id) (by rw [hpc]; rfl) with hfree | hgoes
    · apply hgo
      simp only [State.main, hpc, hid, ↓reduceIte, hfree]
      rfl
    · exact hgoes
  | unlockT id =>
    have ho := (h.locks.own id .main).mp (by
      rw [State.insideT, hpc]
      exact decide_eq_true rfl)
    apply hgo
    simp only [State.main, hpc, ho, release, ↓reduceIte]
    rfl
  | pop =>
    apply hgo
    simp only [State.main, hpc]
    split <;> rfl
  | create i | tryjoin i =>
    apply hgo
    simp only [State.main, hpc]
    split_ifs <;> rfl
  | collect | testT id | countReady id | proceed id | signalT id | joinTest | joinLoop i
  | destroy i object | usleep | exiting =>
    apply hgo
    simp only [State.main, hpc, Option.isSome_some]

theorem all_terminated (h : Inv s) (hpc : s.mainPc = .terminated) (i : ℕ)
    (hc : (s.pc i).isCreated = true) : s.pc i = .terminated := by
  have hi : i < s.mainPc.created N := (h.threads.created i).mp hc
  apply h.joined.terminated i hi
  rw [hpc] at hi
  exact h.joined.ended (.inr hpc) i hi

/-- While a thread has not ended some thread has a step other than a spurious wake-up; and where
`main` or a thread sleeps on what has already come, the next step of another thread wakes it. -/
theorem handshake_live (N : ℕ) {s : State N} (h : (readyQueue N).Reachable s) :
    (s.mainPc ≠ .terminated ∨ (∃ i, (s.pc i).isCreated = true ∧ s.pc i ≠ .terminated) →
      s.CanGo) ∧
      (s.mainPc = .waitG → s.readyQueue.head ≠ s.readyQueue.tail →
        ∃ i t, s.threadHandler i = some t ∧ t.mainPc = .relockG) ∧
      ∀ i, s.pc i = .waiting → (s.tData i).toProceed = true →
        ∃ t, s.main = some t ∧ t.pc i = .relock := by
  have hi := inv_reachable h
  have hw := wakes_reachable h
  refine ⟨?_, ?_, ?_⟩
  · rintro (ht | ⟨i, hc, ht⟩)
    · exact main_goes hi hw ht
    · apply main_goes hi hw
      intro hpc
      exact ht (all_terminated hi hpc i hc)
  · intro hpc hne
    obtain ⟨i, hs⟩ := hw.main hpc hne
    refine ⟨i, _, by simp only [State.threadHandler, hs]; rfl, ?_⟩
    simp only [State.setPc, State.wakeMain, hpc, ↓reduceIte]
  · intro i hpc ht
    have hm := hw.worker i hpc ht
    refine ⟨_, by simp only [State.main, hm]; rfl, ?_⟩
    simp only [State.wake, hpc, ↓reduceIte, Function.update_self]

theorem handshake_live_pushed : ∃ s : State 2, s.mainPc = .waitG ∧ s.CanGo ∧
    ∃ i t, s.threadHandler i = some t ∧ t.mainPc = .relockG := by
  have hrun : ((readyQueue 2).run (State.initial 2)
      (List.replicate 6 .main ++ List.replicate 5 (.worker 0))).map
        (fun s => (s.mainPc, decide (s.readyQueue.head ≠ s.readyQueue.tail))) =
      some (.waitG, true) := by decide +kernel
  obtain ⟨s, hs, he⟩ := Option.map_eq_some_iff.mp hrun
  obtain ⟨hpc, hne⟩ := Prod.mk.inj he
  have hr : (readyQueue 2).Reachable s := .run _ (.init rfl) hs
  obtain ⟨hgo, hwake, -⟩ := handshake_live 2 hr
  exact ⟨s, hpc, hgo (.inl (by simp [hpc])), hwake hpc (of_decide_eq_true hne)⟩

end LinuxSystemProgramming.ReadyQueue
