import LinuxSystemProgramming.NamedSemaphore.FreshRun

namespace LinuxSystemProgramming.NamedSemaphore

open Counting NamedObjects Semaphores Transition

variable {V K : ℕ} {k₀ : Kernel} {s t : State K} {i : Fin K}

def P1Pc.left (K : ℕ) : P1Pc → ℕ
  | .openSem => K + 8
  | .openDoneCnt _ => K + 7
  | .wait _ => K + 6
  | .critical _ _ => K + 5
  | .waitDoneCnt _ i => K - i + 4
  | .closeDoneCnt _ => 4
  | .closeSem _ => 3
  | .unlinkDoneCnt => 2
  | .unlinkSem => 1
  | .exited _ | .killed => 0

def JoinerPc.rest : JoinerPc → ℕ
  | .openSem => 7
  | .openDoneCnt _ => 6
  | .wait _ => 5
  | .critical _ _ => 4
  | .postDoneCnt _ => 3
  | .closeDoneCnt _ => 2
  | .closeSem _ => 1
  | .exited _ | .killed => 0

def State.left (s : State K) : ℕ := s.p1.left K + ∑ i, (s.joiners i).rest

theorem P1Pc.left_loop (h : Handles) (i : ℕ) : (P1Pc.loop K h i).left K ≤ K - i + 4 := by
  unfold P1Pc.loop
  split_ifs <;> simp only [P1Pc.left] <;> omega

theorem P1Pc.left_opened (sem semDoneCnt : Option ℕ) :
    (P1Pc.opened sem semDoneCnt).left K ≤ K + 6 := by
  cases sem <;> cases semDoneCnt <;> simp [P1Pc.opened, P1Pc.left]

theorem JoinerPc.rest_opened (sem semDoneCnt : Option ℕ) :
    (JoinerPc.opened sem semDoneCnt).rest ≤ 5 := by
  cases sem <;> cases semDoneCnt <;> simp [JoinerPc.opened, JoinerPc.rest]

theorem p1_left (hi : Inv V k₀ s) (hm : P1Move V s .run t) : t.left < s.left := by
  have hlt {pc : P1Pc} (h : pc.left K < s.p1.left K) :
      pc.left K + ∑ i, (s.joiners i).rest < s.left := Nat.add_lt_add_right h _
  have hp := hi.p1
  cases hm with
  | opensSem hpc | unlinksDoneCnt hpc | unlinksSem hpc | enters _ _ hpc =>
    apply hlt
    rw [hpc]
    exact Nat.lt_succ_self _
  | opensDoneCnt sem hpc =>
    apply hlt
    rw [hpc]
    exact Nat.lt_succ_of_le (P1Pc.left_opened _ _)
  | leaves o b hpc =>
    apply hlt
    rw [hpc]
    exact Nat.lt_succ_of_le (P1Pc.left_loop o 0)
  | takes o i x hpc hw =>
    rw [hpc] at hp
    have hle := P1Pc.left_loop (K := K) o (i + 1)
    apply hlt
    rw [hpc]
    have hi : i < K := hp.1
    change (P1Pc.loop K o (i + 1)).left K < K - i + 4
    omega
  | quiet _ pc hq =>
    apply hlt
    generalize s.p1 = p at hq
    cases hq <;> exact Nat.lt_succ_self _

theorem joiner_left (hm : JoinerMove s i .run t) : t.left < s.left := by
  have hlt {q : JoinerPc} (h : q.rest < (s.joiners i).rest) :
      s.p1.left K + ∑ j, (Function.update s.joiners i q j).rest < s.left :=
    Nat.add_lt_add_left (sum_update_lt JoinerPc.rest h) _
  cases hm with
  | enters o x hpc =>
    apply hlt (q := .critical o true)
    rw [hpc]
    exact Nat.lt_succ_self _
  | leaves o b hpc =>
    apply hlt (q := .postDoneCnt o)
    rw [hpc]
    exact Nat.lt_succ_self _
  | posts o hpc =>
    apply hlt (q := .closeDoneCnt o)
    rw [hpc]
    exact Nat.lt_succ_self _
  | quiet _ pc hq =>
    apply hlt
    generalize s.joiners i = p at hq
    cases hq with
    | openDoneCnt sem => exact Nat.lt_succ_of_le (JoinerPc.rest_opened _ _)
    | openSem | closeDoneCnt | closeSem => exact Nat.lt_succ_self _

def Unlinked (s : State K) : Prop :=
  (s.p1 = .unlinkSem ∨ s.p1 = .exited true → s.kernel.semDoneCnt.named = none) ∧
    (s.p1 = .exited true → s.kernel.sem.named = none)

theorem unlinked_of_pc (h : s.p1 ≠ .unlinkSem ∧ s.p1 ≠ .exited true) : Unlinked s :=
  ⟨fun hpc => (hpc.elim h.1 h.2).elim, fun hpc => (h.2 hpc).elim⟩

theorem unlinked_p1 (h : Unlinked s) (hm : P1Move V s .run t) : Unlinked t := by
  cases hm with
  | opensSem | enters => exact unlinked_of_pc ⟨nofun, nofun⟩
  | opensDoneCnt sem =>
    apply unlinked_of_pc
    cases sem <;> exact ⟨nofun, nofun⟩
  | leaves o | takes o =>
    apply unlinked_of_pc
    change P1Pc.loop K o _ ≠ _ ∧ P1Pc.loop K o _ ≠ _
    unfold P1Pc.loop
    split_ifs <;> exact ⟨nofun, nofun⟩
  | unlinksDoneCnt => exact ⟨fun _ => rfl, nofun⟩
  | unlinksSem hpc => exact ⟨fun _ => h.1 (.inl hpc), fun _ => rfl⟩
  | quiet _ pc hq =>
    apply unlinked_of_pc
    generalize s.p1 = p at hq
    cases hq <;> exact ⟨nofun, nofun⟩

theorem unlinked_joiner (h : Unlinked s) (hm : JoinerMove s i .run t) : Unlinked t := by
  cases hm <;> exact h

theorem unlinked_reachable (hr : (runOf V K k₀).ReachableWhile NoFailure s) : Unlinked s := by
  apply System.ReachableWhile.induct _ _ hr
  · rintro _ rfl
    exact unlinked_of_pc ⟨nofun, nofun⟩
  · intro s a t _ h hc hn
    cases a with
    | p1 a =>
      obtain rfl : a = .run := hc
      exact unlinked_p1 h (p1_move hn)
    | joiner i a =>
      obtain rfl : a = .run := hc
      exact unlinked_joiner h (joiner_move hn)

def Goes (V : ℕ) (k₀ : Kernel) (s : State K) : Prop := ∃ t, (runOf V K k₀).StepWhile Orderly s t

theorem goes_p1 (h : (s.p1Main V .run).isSome = true) : Goes V k₀ s := by
  obtain ⟨t, ht⟩ := Option.isSome_iff_exists.mp h
  exact ⟨t, .p1 .run, rfl, ht⟩

theorem goes_joiner (ho : s.joiners i = .openSem → s.p1.hasOpened = true)
    (h : (s.joinerMain i .run).isSome = true) : Goes V k₀ s := by
  obtain ⟨t, ht⟩ := Option.isSome_iff_exists.mp h
  exact ⟨t, .joiner i .run, ⟨rfl, ho⟩, ht⟩

theorem inside_goes (h : 0 < s.inside) : Goes V k₀ s := by
  by_cases hp : s.p1.inside = true
  · apply goes_p1
    cases hpc : s.p1 <;> rw [hpc] at hp <;> simp only [State.p1Main, hpc]
    case critical => rfl
    all_goals cases hp
  · obtain ⟨i, hi⟩ : ∃ i, (s.joiners i).inside = true := by
      apply exists_of_count
      rw [State.inside, Bool.eq_false_of_not_eq_true hp] at h
      simpa using h
    cases hpc : s.joiners i <;> rw [hpc] at hi
    case critical =>
      apply goes_joiner (i := i)
      · simp [hpc]
      · simp only [State.joinerMain, hpc]
        rfl
    all_goals cases hi

theorem unit_or_goes (ha : Admission V k₀ s) (hf : 0 < k₀.foundSem V)
    (hlt : (k₀.handles V).sem < s.kernel.sem.fresh) :
    0 < (s.kernel.sem.object (k₀.handles V).sem).value ∨ Goes V k₀ s := by
  have hunits := ha.ledger.present hlt
  by_cases hin : 0 < s.inside
  · exact .inr (inside_goes hin)
  · left
    omega

theorem joiner_goes (hi : Inv V k₀ s) (ha : Admission V k₀ s) (hf : Fresh s)
    (hs : 0 < k₀.foundSem V) (ho : s.p1.hasOpened = true)
    (hne : s.joiners i ≠ .exited true) : Goes V k₀ s := by
  have hat := hi.joiners i
  have hfine := hf.joiners i
  cases hpc : s.joiners i <;> rw [hpc] at hat hfine hne
  case wait h =>
    obtain ⟨rfl, hlt, -⟩ := hat
    rcases unit_or_goes ha hs hlt with hpos | hgo
    · apply goes_joiner (fun _ => ho) (i := i)
      simp only [State.joinerMain, hpc, State.semWait, Semaphore.wait, hpos, if_true]
      rfl
    · exact hgo
  case openSem | openDoneCnt | critical | postDoneCnt | closeDoneCnt | closeSem =>
    apply goes_joiner (fun _ => ho) (i := i)
    simp only [State.joinerMain, hpc]
    rfl
  case exited success =>
    cases success with
    | true => exact absurd rfl hne
    | false => exact hfine.elim
  case killed => exact hfine.elim

theorem p1_waits (hi : Inv V k₀ s) (ha : Admission V k₀ s) (hf : Fresh s)
    (hs : 0 < k₀.foundSem V) {h : Handles} {j : ℕ} (hpc : s.p1 = .waitDoneCnt h j) :
    Goes V k₀ s := by
  have hat := hi.p1
  rw [hpc] at hat
  obtain ⟨hj, rfl, -, hd⟩ := hat
  have hl := (hi.taken j (by rw [hpc]; rfl)).present (s.kernel.semDoneCnt.named_lt _ hd)
  by_cases hpos : 0 < (s.kernel.semDoneCnt.object (k₀.handles V).semDoneCnt).value
  · apply goes_p1
    simp only [State.p1Main, hpc, State.waitDoneCnt, Semaphore.wait, hpos, if_true]
    rfl
  · obtain ⟨i, hpi⟩ : ∃ i, s.posted i = false := by
      by_contra hall
      have hcount : count id s.posted = Fintype.card (Fin K) := by
        apply count_eq_card
        exact fun i => Bool.eq_true_of_not_eq_false fun hpi => hall ⟨i, hpi⟩
      rw [Fintype.card_fin] at hcount
      omega
    apply joiner_goes hi ha hf hs (i := i) (by rw [hpc]; rfl)
    intro he
    have hfine := hf.joiners i
    rw [he] at hfine
    cases hpi.symm.trans hfine

theorem run_goes (hi : Inv V k₀ s) (ha : Admission V k₀ s) (hf : Fresh s) (hs : 0 < k₀.foundSem V)
    (hne : ¬ (s.p1 = .exited true ∧ ∀ i, s.joiners i = .exited true)) : Goes V k₀ s := by
  have hat := hi.p1
  have hfine := hf.p1
  cases hpc : s.p1 <;> rw [hpc] at hat hfine hne
  case wait h =>
    obtain ⟨rfl, hn, -⟩ := hat
    rcases unit_or_goes ha hs (s.kernel.sem.named_lt _ hn) with hpos | hgo
    · apply goes_p1
      simp only [State.p1Main, hpc, State.semWait, Semaphore.wait, hpos, if_true]
      rfl
    · exact hgo
  case waitDoneCnt h j => exact p1_waits hi ha hf hs hpc
  case exited success =>
    cases success with
    | false => cases hfine
    | true =>
      obtain ⟨i, hj⟩ := not_forall.mp fun hall => hne ⟨rfl, hall⟩
      exact joiner_goes hi ha hf hs (by rw [hpc]; rfl) hj
  case killed => cases hfine
  all_goals
    apply goes_p1
    simp only [State.p1Main, hpc]
    rfl

/-- A run on a `/sem1` with a unit and a `sem_done_cnt` without one ends, with both names gone. -/
theorem unlinks_at_end (hs : 0 < k₀.foundSem V) (hd : k₀.foundDoneCnt V = 0)
    (hr : (runOf V K k₀).ReachableWhile Orderly s) :
    (runOf V K k₀).Inevitable Orderly (fun t => (t.p1 = .exited true ∧
      ∀ i, t.joiners i = .exited true) ∧ t.kernel.sem.named = none ∧
        t.kernel.semDoneCnt.named = none) s := by
  have hends : (runOf V K k₀).Inevitable Orderly (fun t =>
      (runOf V K k₀).ReachableWhile Orderly t ∧ t.p1 = .exited true ∧
        ∀ i, t.joiners i = .exited true) s := by
    apply System.Inevitable.of_measure (I := (runOf V K k₀).ReachableWhile Orderly) State.left
      ?_ ?_ hr
    · intro s h hne
      apply run_goes (inv_reachable h.reachable) (admission_reachable (noFailure_of_orderly h))
        (fresh_reachable hd h) hs
      exact fun he => hne ⟨h, he⟩
    · rintro s t h - ⟨a, ha, hn⟩
      refine ⟨.step a h ha hn, ?_⟩
      cases a with
      | p1 a =>
        obtain rfl : a = .run := ha
        exact p1_left (inv_reachable h.reachable) (p1_move hn)
      | joiner i a =>
        obtain ⟨rfl, -⟩ := ha
        exact joiner_left (joiner_move hn)
  apply hends.mono
  rintro t ⟨ht, hend⟩
  have hu := unlinked_reachable (noFailure_of_orderly ht)
  exact ⟨hend, hu.2 hend.1, hu.1 (.inr hend.1)⟩

theorem unlinks_at_end_fresh : (runOf semInitialValue cntJoinersExpected .empty).Inevitable Orderly
    (fun t => (t.p1 = .exited true ∧ ∀ i, t.joiners i = .exited true) ∧
      t.kernel.sem.named = none ∧ t.kernel.semDoneCnt.named = none)
    (State.start cntJoinersExpected .empty) :=
  unlinks_at_end (by decide) (by decide) (.init rfl)

end LinuxSystemProgramming.NamedSemaphore
