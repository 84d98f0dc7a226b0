import LinuxSystemProgramming.Cancellation.Discipline

namespace LinuxSystemProgramming.Cancellation

open Mutex Transition

variable {stop max : ℕ} {s t : State}

def Action.spurious : Action → Bool
  | .spuriousMain | .spuriousT1 => true
  | _ => false

def runs (n : ℕ) (a : Action) : List Action := List.replicate n a

def untilCounting : List Action := runs 2 .main ++ runs 5 .t1 ++ runs 5 .main ++ runs 4 .t1

theorem Inv.held_main (h : Inv stop max s) {pc : MainPc} (hpc : s.mainPc = pc)
    (hin : pc.inside = true) : s.mutex = some .main := by
  apply (h.guards .main).mp
  change s.mainPc.inside = true
  rw [hpc, hin]

theorem Inv.held_t1 (h : Inv stop max s) {pc : T1Pc} (hpc : s.t1 = pc) (hin : pc.inside = true) :
    s.mutex = some .t1 := by
  apply (h.guards .t1).mp
  change s.t1.inside = true
  rw [hpc, hin]

theorem Inv.free (h : Inv stop max s) (hm : s.mainPc.inside = false) (ht : s.t1.inside = false) :
    s.mutex = none := by
  rcases h.guards.free_or_inside with hfree | ⟨τ, hτ⟩
  · exact hfree
  · cases τ with
    | main => cases hm.symm.trans hτ
    | t1 => cases ht.symm.trans hτ

theorem acquireMain_enabled {pc : MainPc} (hfree : s.mutex = none) :
    ∃ t, s.acquireMain pc = some t := by
  unfold State.acquireMain acquire
  rw [if_pos hfree]
  exact ⟨_, rfl⟩

theorem releaseMain_enabled {pc : MainPc} (hheld : s.mutex = some .main) :
    ∃ t, s.releaseMain pc = some t := by
  unfold State.releaseMain release
  rw [if_pos hheld]
  exact ⟨_, rfl⟩

theorem acquireT1_enabled {pc : T1Pc} (hfree : s.mutex = none) : ∃ t, s.acquireT1 pc = some t := by
  unfold State.acquireT1 acquire
  rw [if_pos hfree]
  exact ⟨_, rfl⟩

theorem releaseT1_enabled {pc : T1Pc} (hheld : s.mutex = some .t1) :
    ∃ t, s.releaseT1 pc = some t := by
  unfold State.releaseT1 release
  rw [if_pos hheld]
  exact ⟨_, rfl⟩

theorem t1_enabled (h : Inv stop max s) (hm : s.mainPc.inside = false) (hnew : s.t1 ≠ .notCreated)
    (hwait : s.t1 ≠ .waitContinue) (hend : s.t1 ≠ .terminated) :
    ∃ t, s.threadFunction max = some t := by
  cases hpc : s.t1 <;> simp only [State.threadFunction, hpc]
  case notCreated => exact absurd hpc hnew
  case waitContinue => exact absurd hpc hwait
  case terminated => exact absurd hpc hend
  case lockReady | relockContinue | lockCount | relockCancel =>
    exact acquireT1_enabled (h.free hm (by rw [hpc]; rfl))
  case unlockContinue | unlockCount => exact releaseT1_enabled (h.held_t1 hpc rfl)
  case testContinue =>
    split_ifs
    · exact ⟨_, rfl⟩
    · exact releaseT1_enabled (h.held_t1 hpc rfl)
  all_goals exact ⟨_, rfl⟩

theorem not_wait_of_inside (hin : s.t1.inside = true) :
    s.t1 ≠ .notCreated ∧ s.t1 ≠ .waitContinue ∧ s.t1 ≠ .terminated := by
  refine ⟨?_, ?_, ?_⟩
  all_goals
    intro hpc
    rw [hpc] at hin
    cases hin

theorem main_blocked (h : Inv stop max s) (hle : stop ≤ max)
    (hpc : s.mainPc = .waitReady ∨ s.mainPc = .waitStop) : ∃ t, s.threadFunction max = some t := by
  have hm := h.main
  rcases hpc with hpc | hpc <;> rw [hpc] at hm
  · obtain ⟨hb, hsig⟩ := hm
    apply t1_enabled h (by rw [hpc]; rfl) hb.created
    · intro hw
      rw [hw] at hsig
      cases hsig
    · intro he
      rw [he] at hsig
      cases hsig
  · obtain ⟨hc, hcount⟩ := hm
    apply t1_enabled h (by rw [hpc]; rfl) hc.created hc.awake
    intro he
    have ht := h.t1
    rw [he] at ht hcount
    rcases ht.1 with hreq | hmax
    · cases hc.requested.symm.trans hreq
    · rcases hcount with hlt | hsc
      · omega
      · cases hsc

theorem step_enabled (h : Inv stop max s) (hle : stop ≤ max) (hend : s.mainPc ≠ .terminated) :
    (∃ t, s.main stop = some t) ∨ ∃ t, s.threadFunction max = some t := by
  cases hpc : s.mainPc
  case terminated => exact absurd hpc hend
  case waitReady => exact .inr (main_blocked h hle (.inl hpc))
  case waitStop => exact .inr (main_blocked h hle (.inr hpc))
  case lockReady | relockReady | lockStop | relockStop =>
    cases hin : s.t1.inside with
    | true =>
      obtain ⟨hnew, hwait, hterm⟩ := not_wait_of_inside hin
      exact .inr (t1_enabled h (by rw [hpc]; rfl) hnew hwait hterm)
    | false =>
      simp only [State.main, hpc]
      exact .inl (acquireMain_enabled (h.free (by rw [hpc]; rfl) hin))
  case unlockContinue | unlockStop =>
    simp only [State.main, hpc]
    exact .inl (releaseMain_enabled (h.held_main hpc rfl))
  case testReady | testStop =>
    simp only [State.main, hpc]
    split_ifs
    · exact .inl (by first | exact ⟨_, rfl⟩ | exact releaseMain_enabled (h.held_main hpc rfl))
    · exact .inl (by first | exact ⟨_, rfl⟩ | exact releaseMain_enabled (h.held_main hpc rfl))
  all_goals
    simp only [State.main, hpc]
    exact .inl ⟨_, rfl⟩

theorem T1At.counter_le {pc : T1Pc} (h : T1At max s pc) : s.counter ≤ max := by
  cases pc with
  | notCreated | printfStarted | lockReady | setReady | signalReady | testContinue | waitContinue
  | relockContinue | unlockContinue | printfStarting =>
    have hc := h.1
    omega
  | lockCount | cleanupPush | count | signalCount | unlockCount | cleanupPop | testcancel =>
    obtain ⟨⟨hc, hi⟩, -⟩ := h
    omega
  | printfEnded | exiting => exact h.1.le
  | relockCancel => exact h.elim
  | handlers | terminated => exact h.2.1

theorem T1At.goAhead (h : T1At max s s.t1) (hc : 0 < s.counter ∨ s.t1.counting = true) :
    s.t1ToContinue = true := by
  cases hpc : s.t1 <;> rw [hpc] at h hc
  case relockCancel => exact h.elim
  case handlers | terminated => exact h.2.2.2.2
  case unlockContinue | printfStarting | lockCount | cleanupPush | count | signalCount | unlockCount
    | cleanupPop | testcancel | printfEnded | exiting => exact h.2.2.2
  all_goals
    have hz := h.1
    rcases hc with hc | hc
    · omega
    · cases hc

theorem counter_mono {a : Action} (hn : s.next stop max a = some t) : s.counter ≤ t.counter := by
  rcases next_move hn with hm | hm
  · cases hm <;> exact le_refl _
  · cases hm with
    | counts => exact Nat.le_succ _
    | handles =>
      unfold State.runHandlers State.cleanupMutex
      split
      · exact le_refl _
      · split <;> exact le_refl _
    | _ => exact le_refl _

/-- `t1` ends without the mutex, `cleanup_mutex` unlocks only what `t1` holds, `t1` counts after the
go-ahead and up to `MAX_COUNT`, `main` cancels from `COUNT_TO_STOP` on, and is never stuck. -/
theorem cancellation_discipline (stop max : ℕ) (hstop : 1 ≤ stop) (hle : stop ≤ max) {s : State}
    (hr : (cancelling stop max).Reachable s) :
    (s.t1 = .terminated → s.mutex ≠ some .t1) ∧ s.badUnlock = false ∧
      (0 < s.counter ∨ s.t1.counting = true → s.t1ToContinue = true) ∧
      (∀ a t, s.next stop max a = some t → s.counter ≤ t.counter) ∧ s.counter ≤ max ∧
      (s.mainPc = .cancel → stop ≤ s.counter) ∧
      (s.mainPc ≠ .terminated → ∃ a t, a.spurious = false ∧ s.next stop max a = some t) := by
  have h := inv_reachable hstop hr
  refine ⟨?_, h.unlocks, h.t1.goAhead, fun _ _ => counter_mono, h.t1.counter_le, ?_, ?_⟩
  · intro hend ho
    have hin : s.t1.inside = true := (h.guards .t1).mpr ho
    rw [hend] at hin
    cases hin
  · intro hpc
    have hm := h.main
    rw [hpc] at hm
    exact hm.2
  · intro hend
    rcases step_enabled h hle hend with ⟨t, ht⟩ | ⟨t, ht⟩
    · exact ⟨.main, t, rfl, ht⟩
    · exact ⟨.t1, t, rfl, ht⟩

theorem cancellation_discipline_cancel :
    ∃ s : State, s.mainPc = .cancel ∧ countToStop ≤ s.counter ∧ s.counter ≤ maxCount ∧
      s.badUnlock = false ∧ s.t1ToContinue = true ∧
      ∃ a t, a.spurious = false ∧ s.next countToStop maxCount a = some t := by
  have hrun : ((cancelling countToStop maxCount).run State.initial
      (untilCounting ++ runs (7 * countToStop) .t1 ++ runs 2 .main)).map State.mainPc =
      some .cancel := by decide +kernel
  obtain ⟨s, hs, hpc⟩ := Option.map_eq_some_iff.mp hrun
  have hr : (cancelling countToStop maxCount).Reachable s := .run _ (.init rfl) hs
  obtain ⟨-, hunlock, hcont, -, hmax, hcancel, hstep⟩ :=
    cancellation_discipline countToStop maxCount (by decide) (by decide) hr
  have hle := hcancel hpc
  refine ⟨s, hpc, hle, hmax, hunlock, hcont (.inl ?_), hstep ?_⟩
  · exact Nat.lt_of_lt_of_le (by decide) hle
  · rw [hpc]
    exact nofun

end LinuxSystemProgramming.Cancellation
