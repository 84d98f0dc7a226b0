import LinuxSystemProgramming.ReadyQueue.Locks
import Mathlib.Data.Finset.Card
import Mathlib.Data.List.NodupEquivFin

namespace LinuxSystemProgramming.ReadyQueue

open Mutex RingBuffer Transition

variable {N : ℕ} {s t : State N}

structure Queued (s : State N) : Prop where
  nodup : s.pushed.Nodup
  mem : ∀ i, i ∈ s.pushed ↔ (s.pc i).hasPushed = true
  room : s.overflowed = false
  contents : ∃ xs, s.readyQueue.Holds xs ∧ s.pushed = s.popped ++ xs

theorem Queued.popped_subset (h : Queued s) {i : ℕ} (hi : i ∈ s.popped) : i ∈ s.pushed := by
  obtain ⟨xs, -, hp⟩ := h.contents
  rw [hp]
  exact List.mem_append_left xs hi

theorem Queued.popped_nodup (h : Queued s) : s.popped.Nodup := by
  obtain ⟨xs, -, hp⟩ := h.contents
  exact (List.nodup_append.mp (hp ▸ h.nodup)).1

theorem hasPushed_created {pc : WorkerPc} (h : pc.hasPushed = true) : pc.isCreated = true := by
  cases pc <;> first | rfl | cases h

theorem Queued.lt (h : Queued s) (hs : s.Threads) {i : ℕ} (hi : i ∈ s.pushed) : i < N := by
  have hc := (hs.created i).mp (hasPushed_created ((h.mem i).mp hi))
  exact hc.trans_le hs.bound

theorem length_lt_of_missing {l : List ℕ} (hnd : l.Nodup) (hl : ∀ i ∈ l, i < N) {i : ℕ}
    (hi : i ∉ l) (hN : i < N) : l.length < N := by
  have hsub : (i :: l) ⊆ List.range N := by
    intro j hj
    rcases List.mem_cons.mp hj with rfl | hj
    · exact List.mem_range.mpr hN
    · exact List.mem_range.mpr (hl j hj)
  have hlen := (List.subperm_of_subset (List.nodup_cons.mpr ⟨hi, hnd⟩) hsub).length_le
  rwa [List.length_range, List.length_cons] at hlen

theorem queued_main (hm : MainMove s t) (hs : s.Threads) (h : Queued s) : Queued t := by
  have hw := hm.keeps_class hs WorkerPc.hasPushed rfl rfl
  have hmem : ∀ i, i ∈ s.pushed ↔ (t.pc i).hasPushed = true := fun i => by rw [hw i, h.mem i]
  cases hm with
  | popped id q hpc hq =>
    obtain ⟨xs, hx, hp⟩ := h.contents
    obtain ⟨ys, rfl, hy⟩ := hx.pop hq
    refine ⟨h.nodup, hmem, h.room, ys, hy, ?_⟩
    simp only [hp, List.append_assoc, List.singleton_append]
  | _ => exact ⟨h.nodup, hmem, h.room, h.contents⟩

theorem queued_push {i : ℕ} (hpc : s.pc i = .push) (hs : s.Threads) (h : Queued s) :
    Queued ((s.readyQueuePush (s.tData i).id).setPc i .signalMain) := by
  have hc : i < (s.mainPc.view N).created := (hs.created i).mp (by simp [hpc, WorkerPc.isCreated])
  have hid : (s.tData i).id = i := hs.ids i hc
  have hnew : i ∉ s.pushed := by
    rw [h.mem i, hpc]
    exact Bool.false_ne_true
  have hlen := length_lt_of_missing h.nodup (fun j hj => h.lt hs hj) hnew (hc.trans_le hs.bound)
  obtain ⟨xs, hx, hp⟩ := h.contents
  rw [hid]
  cases hq : s.readyQueue.push i with
  | none =>
    have hfull := hx.full hq
    rw [hp, List.length_append] at hlen
    omega
  | some q =>
    simp only [State.readyQueuePush, hq]
    refine ⟨?_, ?_, h.room, xs ++ [i], hx.push hq, ?_⟩
    · simpa [State.setPc] using List.nodup_append_comm.mp (List.nodup_cons.mpr ⟨hnew, h.nodup⟩)
    · intro j
      simp only [State.setPc, List.mem_append, List.mem_singleton, h.mem j]
      by_cases hj : j = i
      · simp [hj, WorkerPc.hasPushed]
      · rw [Function.update_of_ne hj]
        simp [hj]
    · simp only [State.setPc, hp, List.append_assoc]

theorem queued_worker {i : ℕ} (hm : WorkerMove s i t) (hs : s.Threads) (h : Queued s) : Queued t := by
  have hm' := hm
  have hkeep (hi : (t.pc i).hasPushed = (s.pc i).hasPushed) (j : ℕ) :
      j ∈ s.pushed ↔ (t.pc j).hasPushed = true := by
    rw [h.mem j]
    by_cases hj : j = i
    · rw [hj, hi]
    · rw [hm'.pc_other hj]
  cases hm with
  | push hpc => exact queued_push hpc hs h
  | lockOwn pc hl ho | unlockOwn pc hl ho =>
    refine ⟨h.nodup, hkeep ?_, h.room, h.contents⟩
    simp only [Function.update_self]
    generalize s.pc i = p at hl
    cases hl <;> rfl
  | signalReady hpc | lockPush hpc | signalMain hpc | unlockPush hpc | go hpc | wait hpc | ended hpc
  | spurious hpc =>
    refine ⟨h.nodup, hkeep ?_, h.room, h.contents⟩
    simp only [State.setPc, Function.update_self, hpc, WorkerPc.hasPushed]

structure Counted (popped counted : List ℕ) (count : ℕ) (view : MainView) (toProceed : ℕ → Bool) :
    Prop where
  popped : popped = counted ++ view.inFlight
  count : count = counted.length
  flags : ∀ i, toProceed i = true ↔ i ∈ counted ∧ view.proceeding i = false
  proceed : ∀ i, view.proceeding i = true → i ∈ counted

def State.Counted (s : State N) : Prop :=
  ReadyQueue.Counted s.popped s.counted s.countOfReadyThreads (s.mainPc.view N)
    (fun i => (s.tData i).toProceed)

theorem State.Counted.popped_of (h : s.Counted) {i : ℕ} (hi : i ∈ s.counted) : i ∈ s.popped := by
  rw [h.popped]
  exact List.mem_append_left _ hi

theorem State.Counted.nodup (h : s.Counted) (hq : Queued s) : s.counted.Nodup := by
  have hp := hq.popped_nodup
  rw [h.popped] at hp
  exact (List.nodup_append.mp hp).1

theorem counted_worker {i : ℕ} (hm : WorkerMove s i t) (h : s.Counted) : t.Counted := by
  obtain ⟨hp, hc, hn, -⟩ := hm.keeps_main
  unfold State.Counted
  simp only [hp, hc, hn, hm.mainPc_class (MainPc.view N) rfl, hm.keeps_toProceed]
  exact h

theorem counted_create {k : ℕ} (hpc : s.mainPc = .create k) (hs : s.Threads) (hq : Queued s)
    (h : s.Counted) : ReadyQueue.Counted s.popped s.counted s.countOfReadyThreads
      ((MainPc.create (k + 1)).view N) (fun i => (initData s.tData k i).toProceed) := by
  have hfresh : k ∉ s.counted := by
    intro hc
    have hp := (hq.mem k).mp (hq.popped_subset (h.popped_of hc))
    rw [hs.fresh hpc] at hp
    cases hp
  rw [State.Counted, hpc] at h
  refine ⟨h.popped, h.count, ?_, h.proceed⟩
  intro j
  change (Function.update s.tData k ⟨none, false, false, k⟩ j).toProceed = true ↔ _
  by_cases hj : j = k
  · simp [hj, hfresh]
  · rw [Function.update_of_ne hj]
    exact h.flags j

theorem State.Counted.not_counted (h : s.Counted) (hq : Queued s) {id : ℕ}
    (hin : id ∈ s.mainPc.inFlight) : id ∉ s.counted := by
  intro hc
  have hnd := hq.popped_nodup
  rw [h.popped] at hnd
  exact (List.nodup_append.mp hnd).2.2 id hc id hin rfl

theorem counted_count {id : ℕ} (hpc : s.mainPc = .countReady id) (hq : Queued s) (h : s.Counted) :
    ReadyQueue.Counted s.popped (s.counted ++ [id]) (s.countOfReadyThreads + 1)
      ((MainPc.proceed id).view N) (fun i => (s.tData i).toProceed) := by
  have hnew : id ∉ s.counted := by
    apply h.not_counted hq
    rw [hpc]
    exact List.mem_singleton_self id
  rw [State.Counted, hpc] at h
  refine ⟨?_, ?_, ?_, ?_⟩
  · rw [h.popped]
    exact (List.append_nil _).symm
  · rw [h.count, List.length_append, List.length_singleton]
  · intro i
    change (s.tData i).toProceed = true ↔ i ∈ s.counted ++ [id] ∧ decide (id = i) = false
    have hi : (s.tData i).toProceed = true ↔ i ∈ s.counted ∧ false = false := h.flags i
    rw [hi]
    constructor
    · rintro ⟨hc, -⟩
      have hne : id ≠ i := fun he => hnew (he ▸ hc)
      exact ⟨List.mem_append_left _ hc, decide_eq_false hne⟩
    · rintro ⟨hc, hne⟩
      rcases List.mem_append.mp hc with hc | hc
      · exact ⟨hc, rfl⟩
      · exact absurd (List.mem_singleton.mp hc).symm (of_decide_eq_false hne)
  · intro i hi
    obtain rfl := of_decide_eq_true hi
    exact List.mem_append_right _ (List.mem_singleton_self _)

theorem counted_proceed {id : ℕ} (hpc : s.mainPc = .proceed id) (h : s.Counted) :
    ReadyQueue.Counted s.popped s.counted s.countOfReadyThreads ((MainPc.signalT id).view N)
      (fun i => (setToProceed s.tData id i).toProceed) := by
  rw [State.Counted, hpc] at h
  refine ⟨h.popped, h.count, ?_, by rintro _ ⟨⟩⟩
  intro i
  change (Function.update s.tData id _ i).toProceed = true ↔ i ∈ s.counted ∧ false = false
  by_cases hi : i = id
  · subst hi
    have hmem := h.proceed i (decide_eq_true rfl)
    simp [hmem]
  · have hf : (s.tData i).toProceed = true ↔ i ∈ s.counted ∧ decide (id = i) = false := h.flags i
    rw [Function.update_of_ne hi, hf, decide_eq_false (Ne.symm hi)]

theorem counted_main (hm : MainMove s t) (hs : s.Threads) (hq : Queued s) (h : s.Counted) :
    t.Counted := by
  unfold State.Counted at *
  cases hm with
  | create k hpc hk => exact counted_create hpc hs hq h
  | count id hpc => exact counted_count hpc hq h
  | proceed id hpc => exact counted_proceed hpc h
  | lock pc hl ho | unlock pc hl ho | joins pc hl => exact hl.view ▸ h
  | popped id q hpc hpop =>
    rw [hpc] at h
    refine ⟨?_, h.count, h.flags, h.proceed⟩
    change s.popped ++ [id] = s.counted ++ [id]
    rw [h.popped]
    exact congrArg (· ++ [id]) (List.append_nil _)
  | already id hpc ht =>
    refine absurd ((h.flags id).mp ht).1 (State.Counted.not_counted h hq ?_)
    rw [hpc]
    exact List.mem_singleton_self id
  | lockT id hpc ho | unlockT id hpc ho =>
    rw [hpc] at h
    simp only [setMutex_toProceed]
    exact ⟨h.popped, h.count, h.flags, h.proceed⟩
  | destroy i object hpc =>
    rw [hpc] at h
    cases object <;> exact ⟨h.popped, h.count, h.flags, h.proceed⟩
  | created _ hpc | again hpc | leave hpc | wait hpc | nonempty hpc | drained hpc | fresh _ hpc
  | signalT _ hpc | joined _ hpc | spurious hpc =>
    rw [hpc] at h
    exact ⟨h.popped, h.count, h.flags, h.proceed⟩

structure Passed (s : State N) : Prop where
  past : ∀ i, (s.pc i).pastWait = true → (s.tData i).toProceed = true
  collecting : s.mainPc.collecting = true → s.countOfReadyThreads < N
  left : s.mainPc.leftCollection = true → N ≤ s.countOfReadyThreads

theorem passed_worker {i : ℕ} (hm : WorkerMove s i t) (h : Passed s) : Passed t := by
  obtain ⟨-, -, hn, -⟩ := hm.keeps_main
  refine ⟨?_, ?_, ?_⟩
  · intro j hj
    rw [hm.keeps_toProceed]
    by_cases hji : j = i
    · subst hji
      cases hm with
      | go hpc ht => exact ht
      | unlockOwn pc hl ho =>
        have hp := h.past j
        simp only [Function.update_self] at hj
        generalize s.pc j = p at hl hp
        cases hl with
        | ready => cases hj
        | proceed => exact hp rfl
      | lockOwn pc hl ho =>
        simp only [Function.update_self] at hj
        generalize s.pc j = p at hl
        cases hl <;> cases hj
      | ended hpc => exact h.past j (by simp [hpc, WorkerPc.pastWait])
      | _ => simp [State.setPc, WorkerPc.pastWait] at hj
    · rw [hm.pc_other hji] at hj
      exact h.past j hj
  · intro hc
    rcases hm.mainPc_cases with he | ⟨hs, -⟩
    · rw [hn]
      exact h.collecting (he ▸ hc)
    · rw [hn]
      exact h.collecting (by rw [hs]; rfl)
  · intro hl
    rw [hn]
    apply h.left
    rwa [← hm.mainPc_class MainPc.leftCollection rfl]

theorem passed_main (hm : MainMove s t) (hs : s.Threads) (h : Passed s) : Passed t := by
  have hw := hm.keeps_class hs WorkerPc.pastWait rfl rfl
  have hpast : ∀ i, (t.pc i).pastWait = true → (s.tData i).toProceed = true := by
    intro i hi
    exact h.past i (hw i ▸ hi)
  have hcol := h.collecting
  have hleft := h.left
  cases hm with
  | create k hpc hk =>
    refine ⟨?_, by rintro ⟨⟩, by rintro ⟨⟩⟩
    intro i hi
    have hik : i ≠ k := by
      rintro rfl
      simp [WorkerPc.pastWait] at hi
    change (Function.update s.tData k _ i).toProceed = true
    rw [Function.update_of_ne hik]
    exact hpast i hi
  | again hpc hc => exact ⟨hpast, fun _ => hc, by rintro ⟨⟩⟩
  | leave hpc hc => exact ⟨hpast, by rintro ⟨⟩, fun _ => not_lt.mp hc⟩
  | lock pc hl ho =>
    refine ⟨hpast, ?_, ?_⟩
    · generalize s.mainPc = p at hl hcol
      cases hl with
      | lockG | relockG => exact fun _ => hcol rfl
      | relockPop => rintro ⟨⟩
    · generalize s.mainPc = p at hl
      cases hl <;> rintro ⟨⟩
  | unlock pc hl ho =>
    refine ⟨hpast, ?_, ?_⟩ <;> generalize s.mainPc = p at hl <;> cases hl <;> rintro ⟨⟩
  | joins pc hl =>
    refine ⟨hpast, ?_, ?_⟩
    · generalize s.mainPc = p at hl
      cases hl <;> rintro ⟨⟩
    · generalize s.mainPc = p at hl hleft
      cases hl <;> exact fun _ => hleft rfl
  | wait hpc | spurious hpc =>
    rw [hpc] at hcol
    exact ⟨hpast, fun _ => hcol rfl, by rintro ⟨⟩⟩
  | proceed id hpc =>
    refine ⟨?_, by rintro ⟨⟩, by rintro ⟨⟩⟩
    intro i hi
    change (Function.update s.tData id _ i).toProceed = true
    by_cases hid : i = id
    · simp [hid]
    · rw [Function.update_of_ne hid]
      exact hpast i hi
  | lockT id hpc ho | unlockT id hpc ho =>
    refine ⟨?_, by rintro ⟨⟩, by rintro ⟨⟩⟩
    intro i hi
    rw [setMutex_toProceed]
    exact hpast i hi
  | joined i hpc ht =>
    rw [hpc] at hleft
    exact ⟨hpast, by rintro ⟨⟩, fun _ => hleft rfl⟩
  | destroy i object hpc =>
    rw [hpc] at hleft
    refine ⟨hpast, ?_, fun _ => hleft rfl⟩
    cases object <;> rintro ⟨⟩
  | _ => exact ⟨hpast, by rintro ⟨⟩, by rintro ⟨⟩⟩

end LinuxSystemProgramming.ReadyQueue
