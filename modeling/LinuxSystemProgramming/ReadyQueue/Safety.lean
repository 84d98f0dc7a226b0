import LinuxSystemProgramming.ReadyQueue.Joining

namespace LinuxSystemProgramming.ReadyQueue

open Mutex RingBuffer Transition

variable {N : ℕ} {s : State N}

theorem Inv.counted_lt (h : Inv s) {i : ℕ} (hi : i ∈ s.counted) : i < N :=
  h.queued.lt h.threads (h.queued.popped_subset (h.counted.popped_of hi))

theorem Inv.flagged (h : Inv s) {i : ℕ} (hi : (s.tData i).toProceed = true) : i ∈ s.counted :=
  ((h.counted.flags i).mp hi).1

theorem Inv.count_eq_card (h : Inv s) (hout : ∀ id, s.mainPc.insideT id = false) :
    s.countOfReadyThreads =
      ((Finset.range N).filter (fun i => (s.tData i).toProceed = true)).card := by
  have hset : (Finset.range N).filter (fun i => (s.tData i).toProceed = true) =
      s.counted.toFinset := by
    ext i
    rw [Finset.mem_filter, Finset.mem_range, List.mem_toFinset]
    constructor
    · exact fun hi => h.flagged hi.2
    · intro hi
      refine ⟨h.counted_lt hi, (h.counted.flags i).mpr ⟨hi, ?_⟩⟩
      have ho := hout i
      cases hpc : s.mainPc <;> rw [hpc] at ho <;> first | rfl | exact ho
  rw [hset, List.toFinset_card_of_nodup (h.counted.nodup h.queued)]
  exact h.counted.count

theorem Inv.all_counted (h : Inv s) (hN : N ≤ s.countOfReadyThreads) {i : ℕ} (hi : i < N) :
    i ∈ s.counted := by
  by_contra hni
  have hlt := length_lt_of_missing (h.counted.nodup h.queued) (fun j hj => h.counted_lt hj) hni hi
  have hc : s.countOfReadyThreads = s.counted.length := h.counted.count
  omega

theorem Inv.all_flagged (h : Inv s) (hl : s.mainPc.leftCollection = true) {i : ℕ} (hi : i < N) :
    (s.tData i).toProceed = true := by
  refine (h.counted.flags i).mpr ⟨h.all_counted (h.passed.left hl) hi, ?_⟩
  cases hpc : s.mainPc <;> rw [hpc] at hl <;> first | rfl | cases hl

/-- Every id is pushed, counted and given leave at most once and in this order, no push overflows,
no thread passes its wait without leave, and only what belongs to an ended thread is destroyed. -/
theorem handshake_safe (N : ℕ) {s : State N} (h : (readyQueue N).Reachable s) :
    (s.pushed.Nodup ∧ s.overflowed = false) ∧
      ((∀ id, s.mainPc.insideT id = false) → s.countOfReadyThreads =
        ((Finset.range N).filter (fun i => (s.tData i).toProceed = true)).card) ∧
      s.counted.Nodup ∧
      (∀ i, (s.pc i).pastWait = true →
        i ∈ s.pushed ∧ i ∈ s.popped ∧ (s.tData i).toProceed = true) ∧
      (s.mainPc.leftCollection = true → ∀ i, i < N → (s.tData i).toProceed = true) ∧
      s.destroyed.Nodup ∧ ∀ i object, (i, object) ∈ s.destroyed → s.pc i = .terminated := by
  have hi := inv_reachable h
  refine ⟨⟨hi.queued.nodup, hi.queued.room⟩, hi.count_eq_card, hi.counted.nodup hi.queued, ?_, ?_,
    hi.destroyed.nodup, ?_⟩
  · intro i hp
    have hflag := hi.passed.past i hp
    have hpop := hi.counted.popped_of (hi.flagged hflag)
    exact ⟨hi.queued.popped_subset hpop, hpop, hflag⟩
  · exact fun hl i hN => hi.all_flagged hl hN
  · intro i object hd
    obtain ⟨hN, hl, ht⟩ := hi.destroyed.joined i object hd
    apply hi.joined.terminated i _ ht
    have hc : s.mainPc.created N = N := by
      cases hpc : s.mainPc <;> rw [hpc] at hl <;> first | rfl | cases hl
    rwa [hc]

def secondFirst : List Action :=
  List.replicate 6 .main ++ [.spuriousMain] ++ List.replicate 2 .main ++
    List.replicate 9 (.worker 1) ++ List.replicate 14 .main ++ List.replicate 4 (.worker 1) ++
    List.replicate 9 (.worker 0) ++ List.replicate 16 .main

theorem handshake_safe_secondFirst : ∃ s : State 2, s.pushed = [1, 0] ∧
    s.mainPc.leftCollection = true ∧ (s.tData 0).toProceed = true ∧ s.overflowed = false := by
  have hrun : ((readyQueue 2).run (State.initial 2) secondFirst).map
      (fun s => (s.pushed, s.mainPc.leftCollection)) = some ([1, 0], true) := by decide +kernel
  obtain ⟨s, hs, he⟩ := Option.map_eq_some_iff.mp hrun
  obtain ⟨hp, hl⟩ := Prod.mk.inj he
  have hr : (readyQueue 2).Reachable s := .run secondFirst (.init rfl) hs
  obtain ⟨⟨-, ho⟩, -, -, -, hall, -⟩ := handshake_safe 2 hr
  exact ⟨s, hp, hl, hall hl 0 (by decide), ho⟩

end LinuxSystemProgramming.ReadyQueue
