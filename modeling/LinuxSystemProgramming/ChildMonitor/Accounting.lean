import LinuxSystemProgramming.ChildMonitor.Monitor

namespace LinuxSystemProgramming.ChildMonitor

open Children Transition

variable {s t u : State} {c : Name}

def Report.ofChild (c : Name) : Report → Bool
  | .stillActive _ => false
  | .reaped c' _ _ => decide (c' = c)

def State.reaps (s : State) (c : Name) : ℕ := s.reports.countP (Report.ofChild c)

structure Accounted (s : State) : Prop where
  code : s.parent.exitCode = none
  counted : s.parent = .whileHead → s.countActiveChilds = (unreaped s.child).card
  waits : s.parent = .waitpid → ¬ Waits s.child .failed
  ended : ∀ status, s.parent = .exited status →
    ∀ c, s.child c = .notCreated ∨ s.child c = .reaped ∧ s.reaps c = 1

structure Inv (s : State) : Prop where
  code : s.parent.exitCode = none
  first : s.parent = .fork1 → s.child .c1 = .notCreated
  second : s.parent = .fork1 ∨ s.parent = .fork2 → s.child .c2 = .notCreated
  left : s.parent = .fork2 → (s.child .c1).unreaped = true
  counted : s.countActiveChilds = (unreaped s.child).card
  waits : s.parent = .waitpid → s.countActiveChilds ≠ 0
  ended : s.parent = .fork1 ∨ (∃ status, s.parent = .exited status) → s.countActiveChilds = 0
  once : ∀ c, s.reaps c = if s.child c = .reaped then 1 else 0

theorem Inv.accounted (h : Inv s) : Accounted s where
  code := h.code
  counted _ := h.counted
  waits hpc hnone := by
    apply h.waits hpc
    rw [h.counted, Finset.card_eq_zero]
    exact hnone
  ended status hpc c := by
    have hzero := h.ended (.inr ⟨status, hpc⟩)
    rw [h.counted] at hzero
    rcases all_reaped hzero c with hc | hc
    · exact .inl hc
    · refine .inr ⟨hc, ?_⟩
      rw [h.once c, if_pos hc]

theorem inv_initial : Inv State.initial where
  code := rfl
  first _ := rfl
  second _ := rfl
  left := by rintro ⟨⟩
  counted := by
    have hnone : unreaped State.initial.child = ∅ := unreaped_none (fun _ => rfl)
    rw [hnone]
    rfl
  waits := by rintro ⟨⟩
  ended _ := rfl
  once _ := rfl

theorem update_once {l : Life Pc} (h : Inv s) (hold : s.child c ≠ .reaped) (hnew : l ≠ .reaped)
    (d : Name) : s.reaps d = if Function.update s.child c l d = .reaped then 1 else 0 := by
  rw [h.once d]
  apply if_congr _ rfl rfl
  by_cases hd : d = c
  · subst hd
    rw [Function.update_self]
    exact iff_of_false hold hnew
  · rw [Function.update_of_ne hd]

theorem created_once (h : Inv s) (hc : s.child c = .notCreated) (pc : Pc) (d : Name) :
    s.reaps d = if Function.update s.child c (.running pc) d = .reaped then 1 else 0 := by
  apply update_once h _ _ d
  · rw [hc]
    rintro ⟨⟩
  · rintro ⟨⟩

theorem fork_counted (h : Inv s) (hc : s.child c = .notCreated) (switch : ForkResult → Pc) :
    s.countActiveChilds + 1 =
      (unreaped (Function.update s.child c (.running (switch .child)))).card := by
  rw [h.counted]
  exact (unreaped_create hc).symm

theorem fork1_inv (h : Inv s) (hpc : s.parent = .fork1) : Inv (s.fork .c1 switch1 true) where
  code := rfl
  first := by rintro ⟨⟩
  second _ := by
    have hne : Name.c2 ≠ Name.c1 := by decide
    change Function.update s.child .c1 (.running .c1) .c2 = _
    rw [Function.update_of_ne hne]
    exact h.second (.inl hpc)
  left _ := by
    change (Function.update s.child .c1 (.running .c1) .c1).unreaped = true
    rw [Function.update_self]
    rfl
  counted := fork_counted h (h.first hpc) switch1
  waits := by rintro ⟨⟩
  ended := by rintro (⟨⟨⟩⟩ | ⟨_, ⟨⟩⟩)
  once d := created_once h (h.first hpc) .c1 d

theorem fork1_failed (h : Inv s) (hpc : s.parent = .fork1) : Inv (s.fork .c1 switch1 false) where
  code := rfl
  first := by rintro ⟨⟩
  second := by rintro (⟨⟨⟩⟩ | ⟨⟨⟩⟩)
  left := by rintro ⟨⟩
  counted := h.counted
  waits := by rintro ⟨⟩
  ended _ := h.ended (.inl hpc)
  once := h.once

theorem Inv.polling (hpc : t.parent = .whileHead ∨ t.parent = .sleep)
    (hcounted : t.countActiveChilds = (unreaped t.child).card)
    (honce : ∀ d, t.reaps d = if t.child d = .reaped then 1 else 0) : Inv t := by
  rcases hpc with hpc | hpc
  all_goals
    refine ⟨?_, ?_, ?_, ?_, hcounted, ?_, ?_, honce⟩
    · rw [hpc]
      rfl
    · rw [hpc]
      rintro ⟨⟩
    · rw [hpc]
      rintro (⟨⟨⟩⟩ | ⟨⟨⟩⟩)
    · rw [hpc]
      rintro ⟨⟩
    · rw [hpc]
      rintro ⟨⟩
    · rw [hpc]
      rintro (⟨⟨⟩⟩ | ⟨_, ⟨⟩⟩)

theorem fork2_inv (h : Inv s) (hpc : s.parent = .fork2) : Inv (s.fork .c2 switch2 true) := by
  have hnew := h.second (.inr hpc)
  apply Inv.polling (.inl rfl)
  · exact fork_counted h hnew switch2
  · exact created_once h hnew .c2

theorem run_inv (h : Inv s) (hn : s.run = some t) : Inv t := by
  have hcode := h.code
  unfold State.run at hn
  cases hpc : s.parent <;> simp only [hpc, reduceCtorEq] at hn hcode
  case c1 | c2 => cases hcode
  case whileHead =>
    cases hn
    by_cases hzero : s.countActiveChilds = 0
    · rw [if_neg (not_not.mpr hzero)]
      refine ⟨rfl, ?_, ?_, ?_, h.counted, ?_, fun _ => hzero, h.once⟩
      · rintro ⟨⟩
      · rintro (⟨⟨⟩⟩ | ⟨⟨⟩⟩)
      · rintro ⟨⟩
      · rintro ⟨⟩
    · rw [if_pos hzero]
      refine ⟨rfl, ?_, ?_, ?_, h.counted, fun _ => hzero, ?_, h.once⟩
      · rintro ⟨⟩
      · rintro (⟨⟨⟩⟩ | ⟨⟨⟩⟩)
      · rintro ⟨⟩
      · rintro (⟨⟨⟩⟩ | ⟨_, ⟨⟩⟩)
  case sleep =>
    cases hn
    exact Inv.polling (.inl rfl) h.counted h.once

theorem reaped_counted {status : ℕ} (h : Inv s) (hw : s.child c = .zombie status) :
    s.countActiveChilds - 1 = (unreaped (Function.update s.child c .reaped)).card := by
  have hcard := unreaped_reap hw
  rw [h.counted]
  omega

theorem reaped_once {status n : ℕ} (h : Inv s) (hw : s.child c = .zombie status) (d : Name) :
    (s.reports ++ [Report.reaped c status n]).countP (Report.ofChild d) =
      if Function.update s.child c .reaped d = .reaped then 1 else 0 := by
  have hold := h.once d
  rw [State.reaps] at hold
  rw [List.countP_append, hold]
  by_cases hd : c = d
  · subst hd
    simp [hw, Report.ofChild]
  · rw [Function.update_of_ne (Ne.symm hd)]
    simp [Report.ofChild, hd]

theorem waited_inv {r : WaitResult Name} (h : Inv s) (hpc : s.parent = .waitpid)
    (hw : Waits s.child r) : Inv (s.waited r) := by
  cases r with
  | failed => exact absurd hw (h.accounted.waits hpc)
  | none =>
    apply Inv.polling (.inr rfl)
    · exact h.counted
    · intro d
      rw [State.reaps, State.waited, List.countP_append]
      exact h.once d
  | child c status =>
    apply Inv.polling (.inl rfl)
    · exact reaped_counted h hw
    · exact reaped_once h hw

theorem childExits_ends (hn : s.next (.childExits c) = some t) :
    ∃ pc status, s.child c = .running pc ∧ t = s.ends c status := by
  simp only [State.next] at hn
  cases hrun : s.child c with
  | running pc =>
    rw [hrun] at hn
    obtain ⟨code, -, rfl⟩ := Option.map_eq_some_iff.mp hn
    exact ⟨pc, _, rfl, rfl⟩
  | notCreated | zombie | reaped =>
    rw [hrun] at hn
    cases hn

theorem childKilled_ends {signal : ℕ} (hn : s.next (.childKilled c signal) = some t) :
    ∃ pc status, s.child c = .running pc ∧ t = s.ends c status := by
  simp only [State.next] at hn
  cases hrun : s.child c with
  | running pc =>
    rw [hrun] at hn
    cases hn
    exact ⟨pc, _, rfl, rfl⟩
  | notCreated | zombie | reaped =>
    rw [hrun] at hn
    cases hn

theorem ends_unreaped {pc : Pc} {status : ℕ} {d : Name} (hc : s.child c = .running pc)
    (hd : (s.child d).unreaped = true) : ((s.ends c status).child d).unreaped = true := by
  rw [← mem_unreaped] at *
  rw [State.ends, unreaped_end hc]
  exact hd

theorem ends_inv {pc : Pc} {status : ℕ} (h : Inv s) (hc : s.child c = .running pc) :
    Inv (s.ends c status) := by
  have hkeep (d : Name) (hd : s.child d = .notCreated) : (s.ends c status).child d = .notCreated := by
    have hne : d ≠ c := by
      rintro rfl
      cases hc.symm.trans hd
    exact (Function.update_of_ne hne _ _).trans hd
  refine ⟨h.code, ?_, ?_, ?_, ?_, h.waits, h.ended, ?_⟩
  · intro hpc
    exact hkeep .c1 (h.first hpc)
  · intro hpc
    exact hkeep .c2 (h.second hpc)
  · intro hpc
    exact ends_unreaped hc (h.left hpc)
  · rw [State.ends, unreaped_end hc]
    exact h.counted
  · intro d
    apply update_once h _ _ d
    · rw [hc]
      rintro ⟨⟩
    · rintro ⟨⟩

def SecondForkSucceeds (s : State) (a : Action) : Prop := s.parent = .fork2 → a ≠ .fork false

instance (s : State) (a : Action) : Decidable (SecondForkSucceeds s a) :=
  inferInstanceAs (Decidable (s.parent = .fork2 → a ≠ .fork false))

theorem next_inv {a : Action} (h : Inv s) (hc : SecondForkSucceeds s a) (hn : s.next a = some t) :
    Inv t := by
  cases a with
  | fork ok =>
    simp only [State.next] at hn
    split at hn
    next hpc =>
      cases hn
      cases ok with
      | true => exact fork1_inv h hpc
      | false => exact fork1_failed h hpc
    next hpc =>
      cases hn
      cases ok with
      | true => exact fork2_inv h hpc
      | false => exact absurd rfl (hc hpc)
    next => cases hn
  | run => exact run_inv h hn
  | waitpid r =>
    obtain ⟨⟨hpc, hw⟩, hn⟩ := Option.ite_none_right_eq_some.mp hn
    cases hn
    exact waited_inv h hpc hw
  | childExits c =>
    obtain ⟨pc, status, hrun, rfl⟩ := childExits_ends hn
    exact ends_inv h hrun
  | childKilled c signal =>
    obtain ⟨pc, status, hrun, rfl⟩ := childKilled_ends hn
    exact ends_inv h hrun

theorem inv_reachable (hr : monitor.ReachableWhile SecondForkSucceeds s) : Inv s := by
  apply hr.induct
  · rintro _ rfl
    exact inv_initial
  · intro s a t _ h hc hn
    exact next_inv h hc hn

def Abandoned (s : State) : Prop :=
  (s.parent = .c2 ∨ s.parent = .exited 1) ∧ (s.child .c1).unreaped = true

theorem fork2_failed (h : Inv s) (hpc : s.parent = .fork2) : Abandoned (s.fork .c2 switch2 false) :=
  ⟨.inl rfl, h.left hpc⟩

theorem next_abandoned {a : Action} (h : Abandoned s) (hn : s.next a = some t) : Abandoned t := by
  obtain ⟨hpc, hleft⟩ := h
  cases a with
  | fork ok =>
    rcases hpc with hpc | hpc <;> simp only [State.next, hpc, reduceCtorEq] at hn
  | run =>
    rcases hpc with hpc | hpc <;> simp only [State.next, State.run, hpc, reduceCtorEq] at hn
    cases hn
    exact ⟨.inr rfl, hleft⟩
  | waitpid r =>
    obtain ⟨⟨hwait, -⟩, -⟩ := Option.ite_none_right_eq_some.mp hn
    rcases hpc with hpc | hpc <;> cases hwait.symm.trans hpc
  | childExits c =>
    obtain ⟨pc, status, hrun, rfl⟩ := childExits_ends hn
    exact ⟨hpc, ends_unreaped hrun hleft⟩
  | childKilled c signal =>
    obtain ⟨pc, status, hrun, rfl⟩ := childKilled_ends hn
    exact ⟨hpc, ends_unreaped hrun hleft⟩

theorem abandoned_path {C : State → Action → Prop} (h : Abandoned s)
    (hp : monitor.PathWhile C s t) : Abandoned t := by
  induction hp with
  | refl => exact h
  | tail _ hs ih =>
    obtain ⟨a, -, hn⟩ := hs
    exact next_abandoned ih hn

theorem Abandoned.not_accounted (h : Abandoned s) : ¬ Accounted s := by
  intro ha
  rcases h.1 with hpc | hpc
  · have hcode := ha.code
    rw [hpc] at hcode
    cases hcode
  · have hleft := h.2
    rcases ha.ended 1 hpc .c1 with hc | ⟨hc, -⟩ <;> rw [hc] at hleft <;> cases hleft

/-- If the second `fork` succeeds, the children are accounted for in every state of the run, and if it
fails, in none after it. -/
theorem child_accounting (s : State) (hr : monitor.ReachableWhile SecondForkSucceeds s) :
    Accounted s ∧ ∀ ok t, s.parent = .fork2 → s.next (.fork ok) = some t →
      ((∀ u, monitor.PathWhile SecondForkSucceeds t u → Accounted u) ↔ ok = true) ∧
      ((∀ u, monitor.PathWhile SecondForkSucceeds t u → ¬ Accounted u) ↔ ok = false) := by
  have h := inv_reachable hr
  refine ⟨h.accounted, ?_⟩
  intro ok t hpc hn
  cases ok with
  | true =>
    have ht : monitor.ReachableWhile SecondForkSucceeds t :=
      hr.step (.fork true) (fun _ => by decide) hn
    have hall : ∀ u, monitor.PathWhile SecondForkSucceeds t u → Accounted u := fun u hp =>
      (inv_reachable (ht.path hp)).accounted
    exact ⟨iff_of_true hall rfl, iff_of_false (fun hnot => hnot t .refl (hall t .refl)) (by decide)⟩
  | false =>
    simp only [State.next, hpc, Option.some.injEq] at hn
    subst hn
    have hnot : ∀ u, monitor.PathWhile SecondForkSucceeds (s.fork .c2 switch2 false) u →
        ¬ Accounted u :=
      fun u hp => (abandoned_path (fork2_failed h hpc) hp).not_accounted
    exact ⟨iff_of_false (fun hall => hnot _ .refl (hall _ .refl)) (by decide), iff_of_true hnot rfl⟩

theorem child_accounting_both : ∃ s : State, s.parent = .exited 0 ∧ Accounted s := by
  have hrun : (monitor.runWhile (fun s a => decide (SecondForkSucceeds s a)) State.initial
      [.fork true, .fork true, .run, .waitpid .none, .run, .childExits .c2, .run,
        .waitpid (.child .c2 256), .run, .waitpid .none, .run, .childExits .c1, .run,
        .waitpid (.child .c1 512), .run]).map State.parent = some (.exited 0) := by decide +kernel
  obtain ⟨s, hs, hpc⟩ := Option.map_eq_some_iff.mp hrun
  have hr : monitor.ReachableWhile SecondForkSucceeds s :=
    .run (fun _ _ => of_decide_eq_true) _ (.init rfl) hs
  exact ⟨s, hpc, (child_accounting s hr).1⟩

/-- After the failed `fork` the parent prints and exits as C2, and C1 is left. -/
theorem second_fork_fails : ∃ s, monitor.Reachable s ∧ s.parent = .exited 1 ∧
    s.child .c1 = .zombie 512 ∧ ¬ Accounted s := by
  have hrun : (monitor.run State.initial [.fork true, .fork false, .run, .childExits .c1]).map
      (fun s => (s.parent, s.child .c1)) = some (.exited 1, .zombie 512) := by decide
  obtain ⟨s, hs, he⟩ := Option.map_eq_some_iff.mp hrun
  obtain ⟨hpc, hc⟩ := Prod.mk.inj he
  refine ⟨s, .run _ (.init rfl) hs, hpc, hc, ?_⟩
  apply Abandoned.not_accounted
  exact ⟨.inr hpc, by rw [hc]; rfl⟩

end LinuxSystemProgramming.ChildMonitor
