import LinuxSystemProgramming.ReadyQueue.Handshake

namespace LinuxSystemProgramming.ReadyQueue

open Mutex RingBuffer Transition

variable {N : ℕ} {s t : State N}

def MainPc.remaining (i : ℕ) : MainPc → List Object
  | .destroy k .mutex => if k = i then [.mutex, .condToT, .condFromT] else []
  | .destroy k .condToT => if k = i then [.condToT, .condFromT] else []
  | .destroy k .condFromT => if k = i then [.condFromT] else []
  | _ => []

def State.joinedThreads (s : State N) : Finset ℕ := (Finset.range N).filter (fun i => s.t i = false)

structure Joined (s : State N) : Prop where
  terminated : ∀ i, i < s.mainPc.created N → s.t i = false → s.pc i = .terminated
  named : ∀ i, s.t i = true → i < s.mainPc.created N
  finished : s.mainPc.leftCollection = true → s.finishedThreads = s.joinedThreads.card
  none : s.mainPc.leftCollection = false → s.finishedThreads = 0 ∧
    ∀ i, i < s.mainPc.created N → s.t i = true
  tryjoin : ∀ i, s.mainPc = .tryjoin i → i < N ∧ s.t i = true
  destroying : ∀ i o, s.mainPc = .destroy i o → i < N ∧ s.t i = false
  ended : s.mainPc = .exiting ∨ s.mainPc = .terminated → ∀ i, i < N → s.t i = false

structure Destroyed (s : State N) : Prop where
  nodup : s.destroyed.Nodup
  joined : ∀ i o, (i, o) ∈ s.destroyed → i < N ∧ s.mainPc.leftCollection = true ∧ s.t i = false
  remaining : ∀ i o, o ∈ s.mainPc.remaining i → (i, o) ∉ s.destroyed

theorem MainJoins.created {p q : MainPc} (h : MainJoins s p q) (M : ℕ) :
    q.created M = p.created M := by
  cases h <;> rfl

theorem MainJoins.left {p q : MainPc} (h : MainJoins s p q) :
    q.leftCollection = p.leftCollection := by
  cases h <;> rfl

theorem MainJoins.to_tryjoin {p : MainPc} {i : ℕ} (h : MainJoins s p (.tryjoin i)) :
    i < N ∧ s.t i = true := by
  cases h with
  | tryjoin hi ht => exact ⟨hi, ht⟩

theorem MainJoins.to_end {p q : MainPc} (h : MainJoins s p q) (hq : q = .exiting ∨ q = .terminated) :
    ¬ s.finishedThreads < N ∨ p = .exiting := by
  cases h with
  | exit hf => exact .inl hf
  | ended => exact .inr rfl
  | _ => simp at hq

theorem Joined.congr (h : Joined s) (ht : t.t = s.t) (hf : t.finishedThreads = s.finishedThreads)
    (hc : t.mainPc.created N = s.mainPc.created N)
    (hl : t.mainPc.leftCollection = s.mainPc.leftCollection)
    (hterm : ∀ i, s.pc i = .terminated → t.pc i = .terminated)
    (htry : ∀ i, t.mainPc = .tryjoin i → i < N ∧ s.t i = true)
    (hdes : ∀ i o, t.mainPc = .destroy i o → i < N ∧ s.t i = false)
    (hend : t.mainPc = .exiting ∨ t.mainPc = .terminated → ∀ i, i < N → s.t i = false) :
    Joined t := by
  refine ⟨?_, ?_, ?_, ?_, ?_, ?_, ?_⟩
  · intro j hj htj
    exact hterm j (h.terminated j (hc ▸ hj) (ht ▸ htj))
  · intro j hj
    rw [hc]
    exact h.named j (ht ▸ hj)
  · intro hleft
    rw [hf, State.joinedThreads, ht]
    exact h.finished (hl ▸ hleft)
  · intro hleft
    rw [hf, hc, ht]
    exact h.none (hl ▸ hleft)
  · exact ht ▸ htry
  · exact ht ▸ hdes
  · exact ht ▸ hend

theorem joined_worker {i : ℕ} (hm : WorkerMove s i t) (h : Joined s) : Joined t := by
  obtain ⟨-, -, -, ht, hf, -⟩ := hm.keeps_main
  have hpc : ∀ p : MainPc, p ≠ .relockG → t.mainPc = p → s.mainPc = p := by
    rintro p hp rfl
    rcases hm.mainPc_cases with he | ⟨-, he⟩
    · exact he.symm
    · exact absurd he hp
  apply h.congr ht hf (hm.mainPc_class _ rfl) (hm.mainPc_class _ rfl)
  · intro j hterm
    by_cases hji : j = i
    · subst hji
      exact absurd hterm hm.not_terminated
    · rw [hm.pc_other hji, hterm]
  · intro j hj
    exact h.tryjoin j (hpc _ (by simp) hj)
  · intro j o hj
    exact h.destroying j o (hpc _ (by simp) hj)
  · intro he
    exact h.ended (he.imp (hpc _ (by simp)) (hpc _ (by simp)))

theorem Joined.all (h : Joined s) (hl : s.mainPc.leftCollection = true)
    (hf : ¬ s.finishedThreads < N) {i : ℕ} (hi : i < N) : s.t i = false := by
  have hsub : s.joinedThreads ⊆ Finset.range N := Finset.filter_subset _ _
  have hcard : (Finset.range N).card ≤ s.joinedThreads.card := by
    rw [Finset.card_range, ← h.finished hl]
    exact not_lt.mp hf
  have hmem : i ∈ s.joinedThreads := by
    rw [Finset.eq_of_subset_of_card_le hsub hcard]
    exact Finset.mem_range.mpr hi
  exact (Finset.mem_filter.mp hmem).2

theorem joined_create {k : ℕ} (hpc : s.mainPc = .create k) (h : Joined s) : Joined { s with
    tData := initData s.tData k, pc := Function.update s.pc k .lockReady,
    t := Function.update s.t k true, mainPc := .create (k + 1) } := by
  have hnone := h.none (by rw [hpc]; rfl)
  have hterm := h.terminated
  have hnamed := h.named
  rw [hpc] at hnone hterm hnamed
  refine ⟨?_, ?_, by rintro ⟨⟩, ?_, by rintro _ ⟨⟩, by rintro _ _ ⟨⟩, ?_⟩
  · intro i hi hti
    have hik : i ≠ k := by
      rintro rfl
      simp at hti
    have hlt : i < k + 1 := hi
    simp only [Function.update_of_ne hik] at hti ⊢
    exact hterm i (show i < k by omega) hti
  · intro i hi
    change i < k + 1
    by_cases hik : i = k
    · omega
    · simp only [Function.update_of_ne hik] at hi
      have hlt : i < k := hnamed i hi
      omega
  · intro _
    refine ⟨hnone.1, ?_⟩
    intro i hi
    by_cases hik : i = k
    · simp [hik]
    · have hlt : i < k + 1 := hi
      simp only [Function.update_of_ne hik]
      exact hnone.2 i (show i < k by omega)
  · rintro (he | he) <;> cases he

theorem joined_join {k : ℕ} (hpc : s.mainPc = .tryjoin k) (ht : s.pc k = .terminated)
    (h : Joined s) : Joined { s with
      t := Function.update s.t k false, finishedThreads := s.finishedThreads + 1,
      mainPc := .destroy k .mutex } := by
  obtain ⟨hk, htk⟩ := h.tryjoin k hpc
  have hterm := h.terminated
  have hfin := h.finished (by rw [hpc]; rfl)
  rw [hpc] at hterm
  refine ⟨?_, ?_, ?_, by rintro ⟨⟩, by rintro _ ⟨⟩, ?_, ?_⟩
  · intro i hi hti
    by_cases hik : i = k
    · exact hik ▸ ht
    · simp only [Function.update_of_ne hik] at hti
      exact hterm i hi hti
  · intro i hi
    have hik : i ≠ k := by
      rintro rfl
      simp at hi
    simp only [Function.update_of_ne hik] at hi
    have hlt := h.named i hi
    rwa [hpc] at hlt
  · intro _
    have hinsert : (Finset.range N).filter (fun i => Function.update s.t k false i = false) =
        insert k s.joinedThreads := by
      ext i
      by_cases hik : i = k
      · simp [hik, hk]
      · simp [hik, State.joinedThreads]
    have hnot : k ∉ s.joinedThreads := by simp [State.joinedThreads, htk]
    change s.finishedThreads + 1 = ((Finset.range N).filter _).card
    rw [hinsert, Finset.card_insert_of_notMem hnot, hfin]
  · rintro i o ⟨⟩
    exact ⟨hk, by simp⟩
  · rintro (he | he) <;> cases he

theorem joined_leave (hpc : s.mainPc = .collect) (h : Joined s) : Joined (s.goto .joinTest) := by
  have hnone := h.none (by rw [hpc]; rfl)
  have hterm := h.terminated
  have hnamed := h.named
  rw [hpc] at hnone hterm hnamed
  refine ⟨hterm, hnamed, ?_, by rintro ⟨⟩, by rintro _ ⟨⟩, by rintro _ _ ⟨⟩, ?_⟩
  · intro _
    have hempty : s.joinedThreads = ∅ := by
      apply Finset.filter_eq_empty_iff.mpr
      intro i hi
      simp [hnone.2 i (Finset.mem_range.mp hi)]
    change s.finishedThreads = s.joinedThreads.card
    rw [hempty, hnone.1, Finset.card_empty]
  · rintro (he | he) <;> cases he

theorem joined_joins {pc : MainPc} (hl : MainJoins s s.mainPc pc) (h : Joined s) :
    Joined (s.goto pc) := by
  refine h.congr rfl rfl (hl.created N) hl.left (fun _ hj => hj) ?_ ?_ ?_
  · rintro k rfl
    exact hl.to_tryjoin
  · rintro k o rfl
    generalize s.mainPc = p at hl
    cases hl
  · rintro hend i hi
    have hleft : s.mainPc.leftCollection = true := by
      rw [← hl.left]
      rcases hend with rfl | rfl <;> rfl
    rcases hl.to_end hend with hf | hp
    · exact h.all hleft hf hi
    · exact h.ended (.inl hp) i hi

theorem joined_main (hm : MainMove s t) (hs : s.Threads) (h : Joined s) : Joined t := by
  cases hm with
  | create k hpc hk => exact joined_create hpc h
  | joined k hpc ht => exact joined_join hpc ht h
  | created k hpc hk =>
    have hb := hs.bound
    rw [hpc] at hb
    have hN : k = N := le_antisymm hb (not_lt.mp hk)
    refine h.congr rfl rfl ?_ ?_ (fun _ hj => hj) (by rintro _ ⟨⟩) (by rintro _ _ ⟨⟩) ?_
    · rw [hpc, hN]
      rfl
    · rw [hpc]
      rfl
    · rintro (he | he) <;> cases he
  | leave hpc hc => exact joined_leave hpc h
  | joins pc hl => exact joined_joins hl h
  | destroy k object hpc =>
    have hdes := h.destroying k object hpc
    refine h.congr rfl rfl ?_ ?_ (fun _ hj => hj) ?_ ?_ ?_
    · rw [hpc]
      cases object <;> rfl
    · rw [hpc]
      cases object <;> rfl
    · cases object <;> rintro _ ⟨⟩
    · cases object <;> rintro _ _ ⟨⟩ <;> exact hdes
    · cases object <;> rintro (he | he) <;> cases he
  | signalT id hpc =>
    refine h.congr rfl rfl (by rw [hpc]; rfl) (by rw [hpc]; rfl) ?_ (by rintro _ ⟨⟩)
      (by rintro _ _ ⟨⟩) ?_
    · intro i hi
      change s.wake id i = .terminated
      unfold State.wake
      split_ifs with hw
      · rw [Function.update_of_ne]
        · exact hi
        · rintro rfl
          simp [hw] at hi
      · exact hi
    · rintro (he | he) <;> cases he
  | lock pc hl ho | unlock pc hl ho =>
    generalize hp : s.mainPc = p at hl
    cases hl <;>
      exact h.congr rfl rfl (by rw [hp]; rfl) (by rw [hp]; rfl) (fun _ hj => hj) (by rintro _ ⟨⟩)
        (by rintro _ _ ⟨⟩) (by rintro (he | he) <;> cases he)
  | again hpc | wait hpc | nonempty hpc | popped _ _ hpc | drained hpc | lockT _ hpc | already _ hpc
  | fresh _ hpc | count _ hpc | proceed _ hpc | unlockT _ hpc | spurious hpc =>
    exact h.congr rfl rfl (by rw [hpc]; rfl) (by rw [hpc]; rfl) (fun _ hj => hj) (by rintro _ ⟨⟩)
      (by rintro _ _ ⟨⟩) (by rintro (he | he) <;> cases he)

theorem destroyed_worker {i : ℕ} (hm : WorkerMove s i t) (h : Destroyed s) : Destroyed t := by
  obtain ⟨-, -, -, ht, -, hd⟩ := hm.keeps_main
  refine ⟨hd ▸ h.nodup, ?_, ?_⟩
  · intro j o hj
    rw [hm.mainPc_class MainPc.leftCollection rfl, ht]
    exact h.joined j o (hd ▸ hj)
  · intro j o ho
    rw [hd]
    apply h.remaining j o
    rwa [← hm.mainPc_class (MainPc.remaining j) rfl]

theorem Destroyed.congr (h : Destroyed s) (hd : t.destroyed = s.destroyed) (ht : t.t = s.t)
    (hl : t.mainPc.leftCollection = s.mainPc.leftCollection)
    (hr : ∀ i, t.mainPc.remaining i = []) : Destroyed t := by
  refine ⟨hd ▸ h.nodup, ?_, ?_⟩
  · rw [hd, hl, ht]
    exact h.joined
  · intro i o ho
    rw [hr] at ho
    cases ho

theorem destroyed_destroy {k : ℕ} {object : Object} (hpc : s.mainPc = .destroy k object)
    (hj : Joined s) (h : Destroyed s) : Destroyed { s with
      destroyed := s.destroyed ++ [(k, object)], mainPc := State.afterDestroy k object } := by
  obtain ⟨hk, htk⟩ := hj.destroying k object hpc
  have hleft : (State.afterDestroy k object).leftCollection = true := by cases object <;> rfl
  have hrem := h.remaining
  rw [hpc] at hrem
  refine ⟨?_, ?_, ?_⟩
  · have hnew : (k, object) ∉ s.destroyed := by
      apply hrem
      cases object <;> simp [MainPc.remaining]
    simpa using List.nodup_append_comm.mp (List.nodup_cons.mpr ⟨hnew, h.nodup⟩)
  · intro i o hio
    rcases List.mem_append.mp hio with hio | hio
    · obtain ⟨hi, -, hti⟩ := h.joined i o hio
      exact ⟨hi, hleft, hti⟩
    · obtain ⟨rfl, rfl⟩ := Prod.mk.inj (List.mem_singleton.mp hio)
      exact ⟨hk, hleft, htk⟩
  · intro i o ho hio
    have hin : o ∈ (MainPc.destroy k object).remaining i ∧ (i = k → o ≠ object) := by
      cases object <;> simp only [State.afterDestroy, MainPc.remaining] at ho ⊢ <;>
        split_ifs at ho ⊢ with he <;> simp_all
      all_goals rcases ho with rfl | rfl <;> simp
    rcases List.mem_append.mp hio with hio | hio
    · exact hrem i o hin.1 hio
    · obtain ⟨rfl, rfl⟩ := Prod.mk.inj (List.mem_singleton.mp hio)
      exact hin.2 rfl rfl

theorem destroyed_main (hm : MainMove s t) (hj : Joined s) (h : Destroyed s) : Destroyed t := by
  cases hm with
  | create k hpc hk =>
    have hnone : s.destroyed = [] := by
      rw [List.eq_nil_iff_forall_not_mem]
      rintro ⟨i, o⟩ hio
      have hl := (h.joined i o hio).2.1
      rw [hpc] at hl
      cases hl
    refine ⟨h.nodup, ?_, ?_⟩
    · simp [hnone]
    · simp [hnone]
  | joined k hpc ht =>
    refine ⟨h.nodup, ?_, ?_⟩
    · intro i o hio
      obtain ⟨hi, -, hti⟩ := h.joined i o hio
      refine ⟨hi, rfl, ?_⟩
      by_cases hik : i = k
      · simp [hik]
      · simpa only [Function.update_of_ne hik] using hti
    · intro i o ho hio
      have hik : k = i := by
        by_contra hne
        simp [MainPc.remaining, hne] at ho
      subst hik
      have hti := (h.joined k o hio).2.2
      rw [(hj.tryjoin k hpc).2] at hti
      cases hti
  | destroy k object hpc => exact destroyed_destroy hpc hj h
  | leave hpc hc =>
    refine ⟨h.nodup, ?_, by rintro _ _ ⟨⟩⟩
    intro i o hio
    obtain ⟨hi, -, hti⟩ := h.joined i o hio
    exact ⟨hi, rfl, hti⟩
  | joins pc hl =>
    refine h.congr rfl rfl hl.left ?_
    intro i
    change pc.remaining i = []
    generalize s.mainPc = p at hl
    cases hl <;> rfl
  | lock pc hl ho | unlock pc hl ho =>
    generalize hp : s.mainPc = p at hl
    cases hl <;> exact h.congr rfl rfl (by rw [hp]; rfl) (fun _ => rfl)
  | created _ hpc | signalT _ hpc | again hpc | wait hpc | nonempty hpc | popped _ _ hpc
  | drained hpc | lockT _ hpc | already _ hpc | fresh _ hpc | count _ hpc | proceed _ hpc
  | unlockT _ hpc | spurious hpc =>
    exact h.congr rfl rfl (by rw [hpc]; rfl) (fun _ => rfl)

structure Inv (s : State N) : Prop where
  threads : s.Threads
  locks : Locks s
  queued : Queued s
  counted : s.Counted
  passed : Passed s
  joined : Joined s
  destroyed : Destroyed s

theorem inv_initial (N : ℕ) : Inv (State.initial N) := by
  refine ⟨?_, ⟨?_, ?_⟩, ?_, ?_, ?_, ?_, ?_⟩
  · exact ⟨Nat.zero_le N, fun i => by simp [State.initial, MainPc.view, MainPc.created,
      WorkerPc.isCreated], fun i hi => absurd hi (Nat.not_lt_zero i)⟩
  · rintro (_ | j) <;>
      simp [State.initial, State.insideG, MainPc.insideG, WorkerPc.insideG]
  · rintro i (_ | j) <;>
      simp [State.initial, State.insideT, MainPc.insideT, WorkerPc.insideOwn]
  · exact ⟨List.nodup_nil, by simp [State.initial, WorkerPc.hasPushed], rfl, [], rfl, rfl⟩
  · exact ⟨rfl, rfl, by simp [State.initial], by rintro _ ⟨⟩⟩
  · exact ⟨by rintro _ ⟨⟩, by rintro ⟨⟩, by rintro ⟨⟩⟩
  · refine ⟨fun i hi => absurd hi (Nat.not_lt_zero i), by rintro _ ⟨⟩, by rintro ⟨⟩, ?_,
      by rintro _ ⟨⟩, by rintro _ _ ⟨⟩, by rintro (he | he) <;> cases he⟩
    exact fun _ => ⟨rfl, fun i hi => absurd hi (Nat.not_lt_zero i)⟩
  · exact ⟨List.nodup_nil, by simp [State.initial], by simp [State.initial]⟩

theorem inv_next {a : Action} (h : Inv s) (hn : s.next a = some t) : Inv t := by
  obtain ⟨hth, hlo, hq, hc, hp, hj, hd⟩ := h
  rcases State.next_move hn with hm | ⟨i, hm⟩
  · exact ⟨threads_main hm hth, locks_main hm hth hlo, queued_main hm hth hq,
      counted_main hm hth hq hc, passed_main hm hth hp, joined_main hm hth hj,
      destroyed_main hm hj hd⟩
  · exact ⟨threads_worker hm hth, locks_worker hm hlo, queued_worker hm hth hq,
      counted_worker hm hc, passed_worker hm hp, joined_worker hm hj, destroyed_worker hm hd⟩

theorem inv_reachable (h : (readyQueue N).Reachable s) : Inv s := by
  apply System.Reachable.induct _ _ h
  · rintro _ rfl
    exact inv_initial N
  · intro s a t _ hs hn
    exact inv_next hs hn

end LinuxSystemProgramming.ReadyQueue
