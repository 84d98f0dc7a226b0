import LinuxSystemProgramming.Cancellation.Safety

namespace LinuxSystemProgramming.Cancellation

open Mutex Transition

variable {stop max : ℕ} {s t : State}

def MainPc.deciding : MainPc → Bool
  | .testStop | .cancel => true
  | _ => false

/-- When `main` takes the mutex to look at `counter`, `t1` has not finished its loop. -/
def InTime (max : ℕ) (s : State) (a : Action) : Prop :=
  a = .main → s.mainPc = .lockStop ∨ s.mainPc = .relockStop → s.counter < max

instance (max : ℕ) (s : State) (a : Action) : Decidable (InTime max s a) :=
  inferInstanceAs (Decidable (a = .main → s.mainPc = .lockStop ∨ s.mainPc = .relockStop →
    s.counter < max))

theorem wakeMain_deciding (s : State) : s.wakeMain.deciding = s.mainPc.deciding := by
  unfold State.wakeMain
  cases s.mainPc <;> rfl

theorem runHandlers_view (s : State) :
    s.runHandlers.mainPc = s.mainPc ∧ s.runHandlers.counter = s.counter := by
  unfold State.runHandlers State.cleanupMutex
  split
  · exact ⟨rfl, rfl⟩
  · split <;> exact ⟨rfl, rfl⟩

theorem t1_deciding (h : Inv stop max s) (hm : T1Move max s t) (hd : t.mainPc.deciding = true) :
    s.mainPc.deciding = true ∧ t.counter = s.counter := by
  cases hm with
  | signals => exact ⟨(wakeMain_deciding s).symm.trans hd, rfl⟩
  | counts i hpc =>
    have hin : s.mainPc.inside = true := by
      change s.mainPc.deciding = true at hd
      cases hp : s.mainPc <;> rw [hp] at hd <;> first | rfl | cases hd
    have hmain := h.held_main rfl hin
    have ht1 := h.held_t1 hpc rfl
    cases hmain.symm.trans ht1
  | handles =>
    obtain ⟨hpc, hc⟩ := runHandlers_view s
    rw [hpc] at hd
    exact ⟨hd, hc⟩
  | _ => exact ⟨hd, rfl⟩

theorem main_deciding (hm : MainMove stop s t) (hd : t.mainPc.deciding = true) :
    (s.mainPc.deciding = true ∨ s.mainPc = .lockStop ∨ s.mainPc = .relockStop) ∧
      t.counter = s.counter := by
  cases hm with
  | locks pc hl =>
    generalize s.mainPc = p at hl
    cases hl with
    | lockReady => cases hd
    | relockReady => cases hd
    | lockStop => exact ⟨.inr (.inl rfl), rfl⟩
    | relockStop => exact ⟨.inr (.inr rfl), rfl⟩
  | unlocks pc hl =>
    generalize s.mainPc = p at hl
    cases hl <;> cases hd
  | goes pc hg =>
    generalize s.mainPc = p at hg
    cases hg with
    | stop hc => exact ⟨.inl rfl, rfl⟩
    | _ => cases hd
  | creates => cases hd
  | continues => cases hd
  | signals => cases hd
  | cancels => cases hd

theorem counter_deciding (hstop : 1 ≤ stop)
    (hr : (cancelling stop max).ReachableWhile (InTime max) s) (hd : s.mainPc.deciding = true) :
    s.counter < max := by
  induction hr with
  | init h =>
    cases h
    cases hd
  | step a hr hc hn ih =>
    have h := inv_reachable hstop hr.reachable
    cases a with
    | main =>
      obtain ⟨hfrom, hcount⟩ := main_deciding (main_move hn) hd
      rw [hcount]
      rcases hfrom with hfrom | hfrom
      · exact ih hfrom
      · exact hc rfl hfrom
    | spuriousMain =>
      obtain ⟨hpc | hpc, ht⟩ := Option.ite_none_right_eq_some.mp hn
      · simp only [State.wakeMain, hpc] at ht
        cases ht
        cases hd
      · simp only [State.wakeMain, hpc] at ht
        cases ht
        cases hd
    | t1 =>
      obtain ⟨hfrom, hcount⟩ := t1_deciding h (threadFunction_move hn) hd
      rw [hcount]
      exact ih hfrom
    | t1Cancelled =>
      obtain ⟨hfrom, hcount⟩ := t1_deciding h (t1Cancelled_move hn) hd
      rw [hcount]
      exact ih hfrom
    | spuriousT1 =>
      obtain ⟨hpc, ht⟩ := Option.ite_none_right_eq_some.mp hn
      cases ht
      exact ih hd

theorem alive_of_counter (h : Inv stop max s) (hpc : s.mainPc = .cancel) (hc : s.counter < max) :
    s.t1 ≠ .terminated := by
  intro hend
  have hmain := h.main
  have ht := h.t1
  rw [hpc] at hmain
  rw [hend] at ht
  rcases ht.1 with hreq | hmax
  · cases hmain.1.requested.symm.trans hreq
  · omega

def MainPc.past : MainPc → Bool
  | .unlockStop | .exiting | .terminated => true
  | _ => false

def Committed (stop max : ℕ) (s : State) : Prop :=
  s.mainPc.deciding = true ∧ stop ≤ s.counter ∧ s.counter < max ∨ s.mainPc.past = true

theorem committed_main (h : Committed stop max s) (hm : MainMove stop s t) :
    Committed stop max t := by
  unfold Committed at h
  cases hm with
  | creates hpc | continues hpc | signals hpc =>
    rw [hpc] at h
    rcases h with ⟨h, -⟩ | h <;> cases h
  | cancels => exact .inr rfl
  | locks pc hl =>
    generalize s.mainPc = p at hl h
    cases hl <;> rcases h with ⟨h, -⟩ | h <;> cases h
  | unlocks pc hl =>
    generalize s.mainPc = p at hl h
    cases hl with
    | waitReady | unlockContinue => rcases h with ⟨h, -⟩ | h <;> cases h
    | waitStop hlt =>
      rcases h with ⟨-, hle, -⟩ | h
      · omega
      · cases h
    | unlockStop => exact .inr rfl
  | goes pc hg =>
    generalize s.mainPc = p at hg h
    cases hg with
    | stop hc =>
      rcases h with ⟨-, hle, hlt⟩ | h
      · exact .inl ⟨rfl, hle, hlt⟩
      · cases h
    | exits => exact .inr rfl
    | _ => rcases h with ⟨h, -⟩ | h <;> cases h

theorem committed_t1 (hi : Inv stop max s) (h : Committed stop max s) (hm : T1Move max s t) :
    Committed stop max t := by
  rcases h with ⟨hd, hle, hlt⟩ | hp
  · left
    have hd' : t.mainPc.deciding = true := by
      cases hm with
      | signals => exact (wakeMain_deciding s).trans hd
      | handles => rw [(runHandlers_view s).1, hd]
      | _ => exact hd
    rw [(t1_deciding hi hm hd').2]
    exact ⟨hd', hle, hlt⟩
  · right
    cases hm with
    | signals =>
      change s.wakeMain.past = true
      unfold State.wakeMain
      cases hpc : s.mainPc <;> rw [hpc] at hp <;> first | rfl | cases hp
    | handles => rw [(runHandlers_view s).1, hp]
    | _ => exact hp

theorem committed_path (hstop : 1 ≤ stop) (hr : (cancelling stop max).Reachable s)
    (h : Committed stop max s) (hp : (cancelling stop max).PathWhile (fun _ _ => True) s t) :
    Committed stop max t := by
  induction hp with
  | refl => exact h
  | tail hsu hut ih =>
    have hi := inv_reachable hstop (hr.path hsu)
    obtain ⟨a, -, hn⟩ := hut
    rcases next_move hn with hm | hm
    · exact committed_main ih hm
    · exact committed_t1 hi ih hm

def Ends (stop max : ℕ) (s : State) : Prop :=
  ∃ t, (cancelling stop max).PathWhile (fun _ _ => True) s t ∧ t.t1 = .terminated ∧
    t.mainPc = s.mainPc ∧ t.counter = s.counter

theorem Ends.head (hn : s.threadFunction max = some t) (hpc : t.mainPc = s.mainPc)
    (hc : t.counter = s.counter) (h : Ends stop max t) : Ends stop max s := by
  obtain ⟨u, hp, hend, hpcu, hcu⟩ := h
  exact ⟨u, .head ⟨.t1, trivial, hn⟩ hp, hend, hpcu.trans hpc, hcu.trans hc⟩

theorem ends_handlers (hpc : s.t1 = .handlers) (hh : s.handlers = 0) : Ends stop max s := by
  have hn : s.threadFunction max = some (s.gotoT1 .terminated) := by
    simp only [State.threadFunction, hpc, State.runHandlers, hh]
  exact .head hn rfl rfl ⟨_, .refl, rfl, rfl, rfl⟩

theorem ends_exiting (hpc : s.t1 = .exiting) (hh : s.handlers = 0) : Ends stop max s := by
  have hn : s.threadFunction max = some (s.gotoT1 .handlers) := by
    simp only [State.threadFunction, hpc]
  exact .head hn rfl rfl (ends_handlers rfl hh)

theorem ends_printfEnded (hpc : s.t1 = .printfEnded) (hh : s.handlers = 0) : Ends stop max s := by
  have hn : s.threadFunction max = some (s.gotoT1 .exiting) := by
    simp only [State.threadFunction, hpc]
  exact .head hn rfl rfl (ends_exiting rfl hh)

theorem ends_testcancel {i : ℕ} (hpc : s.t1 = .testcancel i) (hi : max ≤ i + 1)
    (hreq : s.cancelRequested = false) (hh : s.handlers = 0) : Ends stop max s := by
  have hn : s.threadFunction max = some (s.gotoT1 .printfEnded) := by
    simp only [State.threadFunction, hpc, hreq, T1Pc.loop, if_neg (not_lt.mpr hi),
      Bool.false_eq_true, if_false]
  exact .head hn rfl rfl (ends_printfEnded rfl hh)

theorem ends_cleanupPop {i : ℕ} (hpc : s.t1 = .cleanupPop i) (hi : max ≤ i + 1)
    (hreq : s.cancelRequested = false) (hh : s.handlers = 1) : Ends stop max s := by
  have hn : s.threadFunction max =
      some { s with handlers := s.handlers - 1, t1 := .testcancel i } := by
    simp only [State.threadFunction, hpc]
  have hzero : s.handlers - 1 = 0 := by omega
  exact .head hn rfl rfl (ends_testcancel rfl hi hreq hzero)

theorem ends_deciding (h : Inv stop max s) (hmax : 1 ≤ max) (hpc : s.mainPc = .testStop)
    (hc : s.counter = max) : Ends stop max s := by
  have hmain := h.main
  rw [hpc] at hmain
  have hreq := hmain.requested
  have hout : s.t1.inside ≠ true := by
    intro hin
    cases (h.held_main hpc rfl).symm.trans (h.held_t1 rfl hin)
  have ht := h.t1
  cases hp : s.t1 <;> rw [hp] at ht hout
  case relockCancel => exact ht.elim
  case lockCount i =>
    obtain ⟨⟨hci, hi⟩, -⟩ := ht
    omega
  case cleanupPop i =>
    obtain ⟨⟨hci, hi⟩, hh, -⟩ := ht
    exact ends_cleanupPop hp (by omega) hreq hh
  case testcancel i =>
    obtain ⟨⟨hci, hi⟩, hh, -⟩ := ht
    exact ends_testcancel hp (by omega) hreq hh
  case printfEnded => exact ends_printfEnded hp ht.2.1
  case exiting => exact ends_exiting hp ht.2.1
  case handlers => exact ends_handlers hp ht.2.2.1
  case terminated => exact ⟨s, .refl, hp, rfl, rfl⟩
  case setReady | signalReady | testContinue | unlockContinue | cleanupPush | count | signalCount
    | unlockCount => exact absurd rfl hout
  all_goals
    have hz := ht.1
    omega

/-- If `main` gets the mutex in time whenever it looks at `counter`, it cancels a live `t1`. If
it once has the mutex too late, `t1` may have ended by then. -/
theorem target_alive (stop max : ℕ) (hstop : 1 ≤ stop) :
    (∀ s, (cancelling stop max).ReachableWhile (InTime max) s →
      s.mainPc = .cancel → s.t1 ≠ .terminated) ∧
    ∀ s, (cancelling stop max).Reachable s → s.mainPc = .testStop → stop ≤ s.counter →
      ((∀ t, (cancelling stop max).PathWhile (fun _ _ => True) s t → t.mainPc = .cancel →
        t.t1 ≠ .terminated) ↔ s.counter < max) := by
  constructor
  · intro s hr hpc
    apply alive_of_counter (inv_reachable hstop hr.reachable) hpc
    apply counter_deciding hstop hr
    rw [hpc]
    rfl
  · intro s hr hpc hs
    have h := inv_reachable hstop hr
    constructor
    · intro halive
      by_contra hge
      have hmax := h.t1.counter_le
      obtain ⟨t, hp, hend, hpct, hct⟩ := ends_deciding h (by omega) hpc (by omega)
      have hn : t.next stop max .main = some (t.goto .cancel) := by
        have hlt : ¬ t.counter < stop := by omega
        simp only [State.next, State.main, hpct, hpc, if_neg hlt]
      exact halive _ (hp.tail ⟨.main, trivial, hn⟩) rfl hend
    · intro hlt t hp hpct
      have hc : Committed stop max s := .inl ⟨by rw [hpc]; rfl, hs, hlt⟩
      apply alive_of_counter (inv_reachable hstop (hr.path hp)) hpct
      rcases committed_path hstop hr hc hp with ⟨-, -, hlt'⟩ | hpast
      · exact hlt'
      · rw [hpct] at hpast
        cases hpast

theorem target_alive_counting : ∃ s : State, s.mainPc = .cancel ∧ s.t1 ≠ .terminated := by
  have hrun : ((cancelling countToStop maxCount).runWhile (fun s a => decide (InTime maxCount s a))
      State.initial (untilCounting ++ runs (7 * countToStop) .t1 ++ runs 2 .main)).map State.mainPc =
      some .cancel := by decide +kernel
  obtain ⟨s, hs, hpc⟩ := Option.map_eq_some_iff.mp hrun
  have hr : (cancelling countToStop maxCount).ReachableWhile (InTime maxCount) s :=
    .run (fun _ _ => of_decide_eq_true) _ (.init rfl) hs
  exact ⟨s, hpc, (target_alive countToStop maxCount (by decide)).1 s hr hpc⟩

/-- `t1` counts to the end and exits before `main` has the mutex again. -/
theorem target_terminated :
    ∃ s, (cancelling countToStop maxCount).Reachable s ∧ s.mainPc = .cancel ∧
      s.t1 = .terminated := by
  have hrun : ((cancelling countToStop maxCount).run State.initial
      (untilCounting ++ runs (7 * maxCount + 3) .t1 ++ runs 2 .main)).map
        (fun s => (s.mainPc, s.t1)) = some (.cancel, .terminated) := by decide +kernel
  obtain ⟨s, hs, he⟩ := Option.map_eq_some_iff.mp hrun
  obtain ⟨hpc, ht⟩ := Prod.mk.inj he
  exact ⟨s, .run _ (.init rfl) hs, hpc, ht⟩

end LinuxSystemProgramming.Cancellation
