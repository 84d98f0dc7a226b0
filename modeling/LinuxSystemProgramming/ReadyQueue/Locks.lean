import LinuxSystemProgramming.ReadyQueue.Moves

namespace LinuxSystemProgramming.ReadyQueue

open Mutex RingBuffer Transition

variable {N : ℕ}

structure Threads (N : ℕ) (view : MainView) (isCreated : ℕ → Bool) (ids : ℕ → ℕ) : Prop where
  bound : view.created ≤ N
  created : ∀ i, isCreated i = true ↔ i < view.created
  ids : ∀ i, i < view.created → ids i = i

def State.Threads (s : State N) : Prop :=
  ReadyQueue.Threads N (s.mainPc.view N) (fun i => (s.pc i).isCreated) (fun i => (s.tData i).id)

theorem threads_main {s t : State N} (hm : MainMove s t) (h : s.Threads) : t.Threads := by
  unfold State.Threads at *
  cases hm with
  | create i hpc hi =>
    rw [hpc] at h
    obtain ⟨hb, hc, hids⟩ := h
    refine ⟨hi, ?_, ?_⟩
    · intro j
      change (Function.update s.pc i .lockReady j).isCreated = true ↔ j < i + 1
      by_cases hj : j = i
      · simp [hj, WorkerPc.isCreated]
      · have hcj : (s.pc j).isCreated = true ↔ j < i := hc j
        rw [Function.update_of_ne hj, hcj]
        omega
    · intro j hj
      change (Function.update s.tData i ⟨none, false, false, i⟩ j).id = j
      by_cases hji : j = i
      · rw [hji, Function.update_self]
      · have hlt : j < i + 1 := hj
        rw [Function.update_of_ne hji]
        exact hids j (show j < i by omega)
  | created i hpc hi =>
    rw [hpc] at h
    have hN : i = N := le_antisymm h.bound (not_lt.mp hi)
    subst hN
    exact ⟨h.bound, h.created, h.ids⟩
  | lock pc hl ho | unlock pc hl ho | joins pc hl => exact hl.view ▸ h
  | lockT id hpc ho | unlockT id hpc ho =>
    rw [hpc] at h
    simp only [setMutex_id]
    exact ⟨h.bound, h.created, h.ids⟩
  | proceed id hpc =>
    rw [hpc] at h
    simp only [setToProceed_id]
    exact ⟨h.bound, h.created, h.ids⟩
  | signalT id hpc =>
    rw [hpc] at h
    simp only [wake_class WorkerPc.isCreated rfl]
    exact ⟨h.bound, h.created, h.ids⟩
  | destroy i object hpc =>
    rw [hpc] at h
    cases object <;> exact ⟨h.bound, h.created, h.ids⟩
  | again hpc | leave hpc | wait hpc | nonempty hpc | popped _ _ hpc | drained hpc | already _ hpc
  | fresh _ hpc | count _ hpc | joined _ hpc | spurious hpc =>
    rw [hpc] at h
    exact ⟨h.bound, h.created, h.ids⟩

theorem threads_worker {s t : State N} {i : ℕ} (hm : WorkerMove s i t) (h : s.Threads) :
    t.Threads := by
  unfold State.Threads
  simp only [hm.mainPc_class (MainPc.view N) rfl, hm.keeps_created, hm.keeps_id]
  exact h

def State.insideG (s : State N) : Tid → Prop
  | .main => s.mainPc.insideG = true
  | .worker j => (s.pc j).insideG = true

def State.insideT (s : State N) (i : ℕ) : Tid → Prop
  | .main => s.mainPc.insideT i = true
  | .worker j => j = i ∧ (s.pc j).insideOwn = true

structure Locks (s : State N) : Prop where
  global : Guards s.mutexGSync s.insideG
  own : ∀ i, Guards (s.tData i).mutex (s.insideT i)

variable {s t : State N}

theorem insideG_main (hw : ∀ j, (t.pc j).insideG = (s.pc j).insideG) (τ : Tid) (hτ : τ ≠ .main) :
    t.insideG τ ↔ s.insideG τ := by
  cases τ with
  | main => exact absurd rfl hτ
  | worker j => simp only [State.insideG, hw]

theorem insideT_main {i : ℕ} (hw : (t.pc i).insideOwn = (s.pc i).insideOwn) (τ : Tid)
    (hτ : τ ≠ .main) : t.insideT i τ ↔ s.insideT i τ := by
  cases τ with
  | main => exact absurd rfl hτ
  | worker j =>
    simp only [State.insideT]
    constructor <;> rintro ⟨rfl, h⟩
    · exact ⟨rfl, hw ▸ h⟩
    · exact ⟨rfl, hw ▸ h⟩

theorem insideG_same (hm : t.mainPc.insideG = s.mainPc.insideG)
    (hw : ∀ j, (t.pc j).insideG = (s.pc j).insideG) (τ : Tid) : t.insideG τ ↔ s.insideG τ := by
  cases τ with
  | main => simp only [State.insideG, hm]
  | worker j => simp only [State.insideG, hw]

theorem insideT_same {i : ℕ} (hm : t.mainPc.insideT i = s.mainPc.insideT i)
    (hw : (t.pc i).insideOwn = (s.pc i).insideOwn) (τ : Tid) : t.insideT i τ ↔ s.insideT i τ := by
  by_cases hτ : τ = .main
  · simp only [hτ, State.insideT, hm]
  · exact insideT_main hw τ hτ

theorem State.Threads.fresh (h : s.Threads) {i : ℕ} (hpc : s.mainPc = .create i) :
    s.pc i = .notCreated := by
  have hi := (h.created i).not
  rw [hpc] at hi
  have hn : ¬ (s.pc i).isCreated = true := hi.mpr (lt_irrefl i)
  cases hp : s.pc i <;> simp_all [WorkerPc.isCreated]

theorem MainMove.keeps_class {β : Type*} (hm : MainMove s t) (hs : s.Threads) (f : WorkerPc → β)
    (hnew : f .lockReady = f .notCreated) (hwake : f .relock = f .waiting) (j : ℕ) :
    f (t.pc j) = f (s.pc j) := by
  cases hm with
  | create i hpc hi => exact update_class f (hnew.trans (congrArg f (hs.fresh hpc).symm)) j
  | signalT id hpc => exact wake_class f hwake s id j
  | _ => rfl

theorem global_main (hm : MainMove s t) (hs : s.Threads) (h : Locks s) :
    Guards t.mutexGSync t.insideG := by
  have hw := hm.keeps_class hs WorkerPc.insideG rfl rfl
  have hg := h.global
  cases hm with
  | lock pc hl ho =>
    rw [ho] at hg
    apply hg.acquire _ (insideG_main hw)
    change pc.insideG = true
    generalize s.mainPc = p at hl
    cases hl <;> rfl
  | unlock pc hl ho =>
    rw [ho] at hg
    apply hg.release _ (insideG_main hw)
    change ¬ pc.insideG = true
    generalize s.mainPc = p at hl
    cases hl <;> exact Bool.false_ne_true
  | wait hpc he ho =>
    rw [ho] at hg
    exact hg.release Bool.false_ne_true (insideG_main hw)
  | joins pc hl =>
    apply hg.congr (insideG_same _ hw)
    change pc.insideG = s.mainPc.insideG
    generalize s.mainPc = p at hl
    cases hl <;> rfl
  | destroy i object hpc =>
    apply hg.congr (insideG_same _ hw)
    rw [hpc]
    cases object <;> rfl
  | create _ hpc | created _ hpc | again hpc | leave hpc | nonempty hpc | popped _ _ hpc
  | drained hpc | lockT _ hpc | already _ hpc | fresh _ hpc | count _ hpc | proceed _ hpc
  | signalT _ hpc | unlockT _ hpc | joined _ hpc | spurious hpc =>
    apply hg.congr (insideG_same _ hw)
    rw [hpc]
    rfl

theorem own_main (hm : MainMove s t) (hs : s.Threads) (h : Locks s) (i : ℕ) :
    Guards (t.tData i).mutex (t.insideT i) := by
  have hw := hm.keeps_class hs WorkerPc.insideOwn rfl rfl i
  have hg := h.own i
  cases hm with
  | create k hpc hk =>
    by_cases hi : i = k
    · subst hi
      rintro (_ | j)
      · simp [State.insideT, initData, MainPc.insideT]
      · simp only [State.insideT, initData, Function.update_self, reduceCtorEq, iff_false, not_and]
        rintro rfl
        simp [WorkerPc.insideOwn]
    · have hd : (initData s.tData k i).mutex = (s.tData i).mutex := by
        rw [initData, Function.update_of_ne hi]
      simp only [hd]
      apply hg.congr (insideT_same _ hw)
      rw [hpc]
      rfl
  | lockT id hpc ho =>
    by_cases hi : i = id
    · subst hi
      simp only [setMutex, Function.update_self]
      rw [ho] at hg
      exact hg.acquire (decide_eq_true rfl) (insideT_main hw)
    · simp only [setMutex, Function.update_of_ne hi]
      apply hg.congr (insideT_same _ hw)
      rw [hpc]
      exact decide_eq_false (Ne.symm hi)
  | unlockT id hpc ho =>
    by_cases hi : i = id
    · subst hi
      simp only [setMutex, Function.update_self]
      rw [ho] at hg
      exact hg.release Bool.false_ne_true (insideT_main hw)
    · simp only [setMutex, Function.update_of_ne hi]
      apply hg.congr (insideT_same _ hw)
      rw [hpc]
      exact (decide_eq_false (Ne.symm hi)).symm
  | lock pc hl ho | unlock pc hl ho | joins pc hl =>
    exact hg.congr (insideT_same (insideT_of_view (N := N) hl.view i) hw)
  | destroy k object hpc =>
    apply hg.congr (insideT_same _ hw)
    rw [hpc]
    cases object <;> rfl
  | proceed id hpc =>
    simp only [setToProceed_mutex]
    apply hg.congr (insideT_same _ hw)
    rw [hpc]
    rfl
  | wait hpc | created _ hpc | again hpc | leave hpc | nonempty hpc | popped _ _ hpc
  | drained hpc | already _ hpc | fresh _ hpc | count _ hpc
  | signalT _ hpc | joined _ hpc | spurious hpc =>
    apply hg.congr (insideT_same _ hw)
    rw [hpc]
    rfl

theorem locks_main (hm : MainMove s t) (hs : s.Threads) (h : Locks s) : Locks t :=
  ⟨global_main hm hs h, own_main hm hs h⟩

theorem insideG_worker {i : ℕ} (hm : WorkerMove s i t) (τ : Tid) (hτ : τ ≠ .worker i) :
    t.insideG τ ↔ s.insideG τ := by
  cases τ with
  | main => simp only [State.insideG, hm.mainPc_class MainPc.insideG rfl]
  | worker j =>
    have hj : j ≠ i := fun he => hτ (he ▸ rfl)
    simp only [State.insideG, hm.pc_other hj]

theorem insideG_worker_same {i : ℕ} (hm : WorkerMove s i t)
    (hi : (t.pc i).insideG = (s.pc i).insideG) (τ : Tid) : t.insideG τ ↔ s.insideG τ := by
  by_cases hτ : τ = .worker i
  · simp only [hτ, State.insideG, hi]
  · exact insideG_worker hm τ hτ

theorem insideT_worker {i : ℕ} (hm : WorkerMove s i t) (j : ℕ) (τ : Tid) (hτ : τ ≠ .worker i) :
    t.insideT j τ ↔ s.insideT j τ := by
  cases τ with
  | main => simp only [State.insideT, hm.mainPc_class (fun p => p.insideT j) rfl]
  | worker k =>
    have hk : k ≠ i := fun he => hτ (he ▸ rfl)
    simp only [State.insideT, hm.pc_other hk]

theorem insideT_worker_same {i : ℕ} (hm : WorkerMove s i t) (j : ℕ)
    (hi : j = i → (t.pc i).insideOwn = (s.pc i).insideOwn) (τ : Tid) :
    t.insideT j τ ↔ s.insideT j τ := by
  by_cases hτ : τ = .worker i
  · subst hτ
    simp only [State.insideT]
    constructor <;> rintro ⟨hj, h⟩
    · exact ⟨hj, hi hj.symm ▸ h⟩
    · exact ⟨hj, (hi hj.symm).symm ▸ h⟩
  · exact insideT_worker hm j τ hτ

theorem global_worker {i : ℕ} (hm : WorkerMove s i t) (h : Locks s) :
    Guards t.mutexGSync t.insideG := by
  have hg := h.global
  have hm' := hm
  cases hm with
  | lockPush hpc ho =>
    rw [ho] at hg
    apply hg.acquire _ (insideG_worker hm')
    simp [State.insideG, State.setPc, WorkerPc.insideG]
  | unlockPush hpc ho =>
    rw [ho] at hg
    apply hg.release _ (insideG_worker hm')
    simp [State.insideG, State.setPc, WorkerPc.insideG]
  | lockOwn pc hl ho | unlockOwn pc hl ho =>
    apply hg.congr (insideG_worker_same hm' _)
    simp only [Function.update_self]
    generalize s.pc i = p at hl
    cases hl <;> rfl
  | push hpc =>
    have hq : (s.readyQueuePush (s.tData i).id).mutexGSync = s.mutexGSync :=
      (readyQueuePush_keeps s _).2.2.2.2.2.2.1
    simp only [State.setPc, hq]
    apply hg.congr (insideG_worker_same hm' _)
    simp only [State.setPc, Function.update_self, hpc, WorkerPc.insideG]
  | signalReady hpc | signalMain hpc | go hpc | wait hpc | ended hpc | spurious hpc =>
    apply hg.congr (insideG_worker_same hm' _)
    simp only [State.setPc, Function.update_self, hpc, WorkerPc.insideG]

theorem own_worker {i : ℕ} (hm : WorkerMove s i t) (h : Locks s) (j : ℕ) :
    Guards (t.tData j).mutex (t.insideT j) := by
  have hg := h.own j
  have hm' := hm
  by_cases hj : j = i
  · subst hj
    cases hm with
    | lockOwn pc hl ho =>
      simp only [setMutex, Function.update_self]
      rw [ho] at hg
      apply hg.acquire _ (insideT_worker hm' j)
      simp only [State.insideT, Function.update_self, true_and]
      generalize s.pc j = p at hl
      cases hl <;> rfl
    | unlockOwn pc hl ho =>
      simp only [setMutex, Function.update_self]
      rw [ho] at hg
      apply hg.release _ (insideT_worker hm' j)
      simp only [State.insideT, Function.update_self, true_and]
      generalize s.pc j = p at hl
      cases hl <;> exact Bool.false_ne_true
    | wait hpc ht ho =>
      simp only [setMutex, Function.update_self]
      rw [ho] at hg
      apply hg.release _ (insideT_worker hm' j)
      simp [State.insideT, WorkerPc.insideOwn]
    | push hpc =>
      have hq : (s.readyQueuePush (s.tData j).id).tData = s.tData := (readyQueuePush_keeps s _).2.1
      simp only [State.setPc, hq]
      apply hg.congr (insideT_worker_same hm' j _)
      simp only [State.setPc, Function.update_self, hpc, WorkerPc.insideOwn, implies_true]
    | signalReady hpc =>
      simp only [State.setPc, setReady_mutex]
      apply hg.congr (insideT_worker_same hm' j _)
      simp only [State.setPc, Function.update_self, hpc, WorkerPc.insideOwn, implies_true]
    | lockPush hpc | signalMain hpc | unlockPush hpc | go hpc | ended hpc | spurious hpc =>
      apply hg.congr (insideT_worker_same hm' j _)
      simp only [State.setPc, Function.update_self, hpc, WorkerPc.insideOwn, implies_true]
  · rw [hm.mutex_other hj]
    exact hg.congr (insideT_worker_same hm' j (fun he => absurd he hj))

theorem locks_worker {i : ℕ} (hm : WorkerMove s i t) (h : Locks s) : Locks t :=
  ⟨global_worker hm h, own_worker hm h⟩

end LinuxSystemProgramming.ReadyQueue
