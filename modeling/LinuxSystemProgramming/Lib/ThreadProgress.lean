import LinuxSystemProgramming.Lib.ThreadOrder
import Mathlib.Algebra.BigOperators.Group.Finset.Piecewise
import Mathlib.Algebra.Order.BigOperators.Group.Finset

namespace LinuxSystemProgramming.Threads

open Mutex Transition

variable {τ φ κ ω : Type*} [DecidableEq τ] [DecidableEq φ] [DecidableEq κ]
variable {P : Program τ φ κ ω} {s s' : State τ φ} {t u : τ} {i j : ℕ} {f : φ} {c : κ}
  {x : Instr τ φ κ ω}

theorem Discipline.tested_unset (D : Discipline P) (h : P.system.Reachable s)
    (hm : s.mode t = .tested) (hx : P.instr s t = some (.await f c)) : s.flag f = false := by
  apply System.Reachable.induct
    (I := fun s => s.mode t = .tested → P.instr s t = some (.await f c) → s.flag f = false)
    ?_ ?_ h hm hx
  · rintro s rfl _ _
    rfl
  · intro s a s' hr ih hs hm hx
    have hstep := (next_iff.mp hs).2
    have heff := hstep.effect
    cases hstep.move t with
    | stay hsame hp =>
      rw [hsame] at hm
      rw [instr_congr hp] at hx
      have hunset := ih hm hx
      cases heff with
      | none ht hp hf hb => rw [hf, hunset]
      | @pass u y ha hm' hy ht hp hf hb _ _ _ =>
        by_contra hset
        rcases (hf f).mp (by simpa using hset) with h' | rfl
        · simp [hunset] at h'
        · have htin : P.Inside s t := ⟨.inr hm, (D.fit hx).1⟩
          have huin : P.Inside s u := ⟨.inl hm', (D.fit hy).1⟩
          have hg := D.guards hr
          have : t = u := Option.some_inj.mp (((hg t).mp htin).symm.trans ((hg u).mp huin))
          rw [← this, hm] at hm'
          cases hm'
    | test ha hx' hf hm' _ hp =>
      rw [instr_congr hp, hx'] at hx
      cases hx
      cases heff with
      | none ht hp hf' hb => rw [hf', hf]
      | @pass u y ha' hm'' hy ht hp' hf' hb _ _ _ =>
        cases ha.symm.trans ha'
        rw [hp', State.advance_pc_self] at hp
        omega
    | pass _ _ _ hm' => rw [hm'] at hm; cases hm
    | wait _ _ _ hm' => rw [hm'] at hm; cases hm
    | wake _ _ hm' => rw [hm'] at hm; cases hm
    | relock _ _ _ hm' => rw [hm'] at hm; cases hm
    | birth _ _ _ hm' => rw [hm'] at hm; cases hm

/-- No wake-up is lost: a thread that waits has yet to be woken by whoever sets its flag. -/
theorem Discipline.wakeup_ahead (D : Discipline P) (h : P.system.Reachable s)
    (hm : s.mode t = .waiting) (hx : P.instr s t = some (.await f c)) :
    s.flag f = false ∨ s.pc (D.setter f).1 = (D.setter f).2 + 1 := by
  apply System.Reachable.induct
    (I := fun s => s.mode t = .waiting → P.instr s t = some (.await f c) →
      s.flag f = false ∨ s.pc (D.setter f).1 = (D.setter f).2 + 1) ?_ ?_ h hm hx
  · rintro s rfl _ _
    exact .inl rfl
  · intro s a s' hr ih hs hm hx
    have hstep := (next_iff.mp hs).2
    have heff := hstep.effect
    cases hstep.move t with
    | stay hsame hp =>
      have hmode := hm
      rw [hsame] at hm
      rw [instr_congr hp] at hx
      cases heff with
      | none ht hp hf hb =>
        rw [hf, hp]
        exact ih hm hx
      | @pass u y ha hm' hy ht hp hf hb _ _ hsig =>
        rw [hp]
        by_cases hset : y = .set f
        · subst hset
          rw [(D.fit hy).2]
          exact .inr (State.advance_pc_self)
        · rcases ih hm hx with hunset | hpc
          · left
            by_contra hc
            rcases (hf f).mp (by simpa using hc) with h' | h'
            · simp [hunset] at h'
            · exact hset h'
          · by_cases hu : (D.setter f).1 = u
            · -- the setter is at the signal, which wakes `t`
              have hsignal : y = .signal c := by
                have hfit := (D.fit hx).2.2.1
                rw [hu, ← hu, ← hpc, hu, ← Program.instr, hy] at hfit
                exact Option.some_inj.mp hfit
              have hwoken := hsig c t hsignal (waitsOn_iff.mpr ⟨hm, f, hx⟩)
              rw [hwoken] at hmode
              cases hmode
            · right
              rw [State.advance_pc_of_ne hu, hpc]
    | wait ha hx' hm' _ hp =>
      rw [instr_congr hp] at hx
      have hunset := D.tested_unset hr hm' hx
      cases heff with
      | none ht hp hf hb => exact .inl (by rw [hf, hunset])
      | @pass u y ha' hm'' hy ht hp' hf' hb _ _ _ =>
        cases ha.symm.trans ha'
        rw [hp', State.advance_pc_self] at hp
        omega
    | pass _ _ _ hm' => rw [hm'] at hm; cases hm
    | test _ _ _ _ hm' => rw [hm'] at hm; cases hm
    | wake _ _ hm' => rw [hm'] at hm; cases hm
    | relock _ _ _ hm' => rw [hm'] at hm; cases hm
    | birth _ _ _ hm' => rw [hm'] at hm; cases hm

omit [DecidableEq τ] [DecidableEq φ] [DecidableEq κ] in
theorem Discipline.rank_le (D : Discipline P) (hij : i ≤ j) (hj : j < (P.code t).length) :
    D.rank t i ≤ D.rank t j := by
  induction j with
  | zero => rw [Nat.le_zero.mp hij]
  | succ j ih =>
    by_cases hi : i = j + 1
    · rw [hi]
    · have := ih (by omega) (by omega)
      have := D.grows t j (by omega)
      omega

theorem Discipline.inside_runs (D : Discipline P) (h : P.system.Reachable s)
    (hin : P.Inside s t) : ∃ s', Step P s (.run t) s' := by
  have hw := wellPlaced_reachable h t
  have ho := (D.guards h t).mp hin
  obtain ⟨hm, hheld⟩ := hin
  have hlt : s.pc t < (P.code t).length := by
    refine lt_of_le_of_ne hw.pc_le fun heq => ?_
    rw [heq, D.releases] at hheld
    cases hheld
  obtain ⟨x, hx⟩ : ∃ x, P.instr s t = some x := ⟨_, List.getElem?_eq_getElem hlt⟩
  have hfit := D.fit hx
  rcases hm with hm | hm
  · cases x with
    | lock => exact absurd hheld (by rw [hfit]; simp)
    | unlock => exact ⟨_, .unlock hm hx ho⟩
    | set f => exact ⟨_, .set hm hx⟩
    | signal c => exact ⟨_, .signal hm hx⟩
    | await f c =>
      cases hf : s.flag f with
      | true => exact ⟨_, .pass hm hx hf⟩
      | false => exact ⟨_, .test hm hx hf⟩
    | create u => exact absurd hheld (by rw [hfit.1]; simp)
    | join u => exact absurd hheld (by rw [hfit.1]; simp)
    | act w => exact ⟨_, .act hm hx⟩
  · obtain ⟨f, c, hx'⟩ := hw.awaits (.inl hm)
    exact ⟨_, .wait hm hx' ho⟩

theorem Discipline.free_or_runs (D : Discipline P) (h : P.system.Reachable s) :
    s.owner = none ∨ ∃ u s', Step P s (.run u) s' := by
  rcases (D.guards h).free_or_inside with ho | ⟨u, hu⟩
  · exact .inl ho
  · exact .inr ⟨u, D.inside_runs h hu⟩

theorem Discipline.pc_lt_of_not_ended (D : Discipline P) (h : P.system.Reachable s)
    (hn : ¬ P.ended s t) : s.pc t < (P.code t).length := by
  have hw := wellPlaced_reachable h t
  cases hm : s.mode t with
  | unborn =>
    rw [hw.of_unborn hm]
    exact List.length_pos_iff.mpr (D.nonempty t)
  | ready => exact lt_of_le_of_ne hw.pc_le fun heq => hn ⟨hm, heq⟩
  | tested =>
    obtain ⟨f, c, hx⟩ := hw.awaits (.inl hm)
    exact pc_lt hx
  | waiting =>
    obtain ⟨f, c, hx⟩ := hw.awaits (.inr (.inl hm))
    exact pc_lt hx
  | woken =>
    obtain ⟨f, c, hx⟩ := hw.awaits (.inr (.inr hm))
    exact pc_lt hx

/-- No deadlock: some thread can go on until all have ended. -/
theorem Discipline.progress (D : Discipline P) (h : P.system.Reachable s)
    (hn : ∃ t, ¬ P.ended s t) : ∃ u s', Step P s (.run u) s' := by
  obtain ⟨t, ht, hmin⟩ := (measure fun t => D.rank t (s.pc t)).wf.has_min {t | ¬ P.ended s t} hn
  have hlow : ∀ v, s.pc v < (P.code v).length → D.rank t (s.pc t) ≤ D.rank v (s.pc v) := by
    intro v hv
    apply Nat.le_of_not_lt
    apply hmin v
    rintro ⟨_, he⟩
    omega
  have hbelow : ∀ v k, s.pc v ≤ k → k < (P.code v).length →
      D.rank t (s.pc t) ≤ D.rank v k := by
    intro v k hk hlen
    exact (hlow v (by omega)).trans (D.rank_le hk hlen)
  have hlt := D.pc_lt_of_not_ended h ht
  have hw := wellPlaced_reachable h t
  obtain ⟨x, hx⟩ : ∃ x, P.instr s t = some x := ⟨_, List.getElem?_eq_getElem hlt⟩
  cases hm : s.mode t with
  | unborn =>
    have hborn := (D.born_iff h t).not.mp (by simpa using hm)
    obtain ⟨hmain, hc⟩ := not_or.mp hborn
    have hcode := D.births t hmain
    have hfit := (D.fit hcode).2.2.2
    rw [← Prod.mk.eta (p := D.creator t), mem_trace h] at hc
    have := hbelow _ _ (by omega) (List.getElem?_eq_some_iff.mp hcode).1
    rw [hw.of_unborn hm] at this
    omega
  | tested => exact ⟨t, D.inside_runs h ⟨.inr hm, by
      obtain ⟨f, c, hx'⟩ := hw.awaits (.inl hm)
      exact (D.fit hx').1⟩⟩
  | waiting =>
    obtain ⟨f, c, hx'⟩ := hw.awaits (.inr (.inl hm))
    obtain ⟨_, _, hsignal, hrank⟩ := D.fit hx'
    rcases D.wakeup_ahead h hm hx' with hf | hpc
    · have hset := (D.flag_iff h f).not.mp (by simpa using hf)
      rw [← Prod.mk.eta (p := D.setter f), mem_trace h] at hset
      have := hbelow _ _ (by omega) (List.getElem?_eq_some_iff.mp (D.sets f)).1
      omega
    · have hsig : P.instr s (D.setter f).1 = some (.signal c) := by rw [← hsignal, ← hpc]; rfl
      have hw' := wellPlaced_reachable h (D.setter f).1
      cases hm' : s.mode (D.setter f).1 with
      | ready => exact ⟨_, _, .signal hm' hsig⟩
      | unborn =>
        have := hw'.of_unborn hm'
        omega
      | tested =>
        obtain ⟨g, d, hx''⟩ := hw'.awaits (.inl hm')
        rw [hsig] at hx''
        cases hx''
      | waiting =>
        obtain ⟨g, d, hx''⟩ := hw'.awaits (.inr (.inl hm'))
        rw [hsig] at hx''
        cases hx''
      | woken =>
        obtain ⟨g, d, hx''⟩ := hw'.awaits (.inr (.inr hm'))
        rw [hsig] at hx''
        cases hx''
  | woken =>
    obtain ⟨f, c, hx'⟩ := hw.awaits (.inr (.inr hm))
    rcases D.free_or_runs h with ho | hrun
    · exact ⟨_, _, .relock hm hx' ho⟩
    · exact hrun
  | ready =>
    have hin : P.held t (s.pc t) = true → ∃ u s', Step P s (.run u) s' :=
      fun hh => ⟨t, D.inside_runs h ⟨.inl hm, hh⟩⟩
    have hfit := D.fit hx
    cases x with
    | lock =>
      rcases D.free_or_runs h with ho | hrun
      · exact ⟨_, _, .lock hm hx ho⟩
      · exact hrun
    | unlock => exact hin hfit
    | set f => exact ⟨_, _, .set hm hx⟩
    | signal c => exact ⟨_, _, .signal hm hx⟩
    | await f c => exact hin hfit.1
    | create u =>
      refine ⟨_, _, .create hm hx ?_⟩
      by_contra hu
      rcases (D.born_iff h u).mp hu with hmain | hc
      · exact hfit.2.1 hmain
      · rw [hfit.2.2.1, mem_trace h] at hc
        omega
    | join u =>
      by_cases hu : P.ended s u
      · exact ⟨_, _, .join hm hx hu⟩
      · have hpc := D.pc_lt_of_not_ended h hu
        have := hbelow u ((P.code u).length - 1) (by omega) (by omega)
        have := hfit.2
        omega
    | act w => exact ⟨_, _, .act hm hx⟩

def Instr.cost : Instr τ φ κ ω → ℕ
  | .signal _ => 4
  | _ => 1

def codeCost : List (Instr τ φ κ ω) → ℕ
  | [] => 0
  | x :: l => x.cost + codeCost l

def Mode.weight : Mode → ℕ
  | .waiting => 1
  | .tested => 2
  | .ready | .unborn => 3
  | .woken => 4

-- A signal pays for the round of the thread it wakes.
def Program.left (P : Program τ φ κ ω) (s : State τ φ) (t : τ) : ℕ :=
  codeCost ((P.code t).drop (s.pc t)) + (s.mode t).weight

omit [DecidableEq τ] [DecidableEq φ] [DecidableEq κ] in
theorem left_congr (hp : s'.pc t = s.pc t) :
    P.left s' t + (s.mode t).weight = P.left s t + (s'.mode t).weight := by
  simp only [Program.left, hp]
  omega

omit [DecidableEq τ] [DecidableEq φ] [DecidableEq κ] in
theorem left_pass (hx : P.instr s t = some x) (hm : s.mode t = .ready) (hm' : s'.mode t = .ready)
    (hp : s'.pc t = s.pc t + 1) : P.left s' t + x.cost = P.left s t := by
  obtain ⟨hlt, rfl⟩ := List.getElem?_eq_some_iff.mp hx
  simp only [Program.left, hp, hm, hm', List.drop_eq_getElem_cons hlt, codeCost]
  omega

omit [DecidableEq φ] [DecidableEq κ] in
theorem sum_lt_of_paid [Fintype τ] {μ μ' : τ → ℕ} {v w : τ} {k b : ℕ} (hbk : b < k)
    (h : ∀ u, μ' u + (if u = v then k else 0) ≤ μ u + (if u = w then b else 0)) :
    ∑ u, μ' u < ∑ u, μ u := by
  have := Finset.sum_le_sum (fun u (_ : u ∈ Finset.univ) => h u)
  simp only [Finset.sum_add_distrib, Finset.sum_ite_eq', Finset.mem_univ, if_true] at this
  omega

omit [DecidableEq τ] [DecidableEq φ] [DecidableEq κ] in
theorem left_eq_of_stay (hm : s'.mode t = s.mode t) (hp : s'.pc t = s.pc t) :
    P.left s' t = P.left s t := by
  rw [Program.left, Program.left, hm, hp]

theorem Step.ne_of_stay {t u : τ} (h : Step P s (.run t) s') (hm : s'.mode u = s.mode u)
    (hp : s'.pc u = s.pc u) : u ≠ t := by
  rintro rfl
  exact h.moves.elim (absurd hm) (absurd hp)

theorem Discipline.left_lt [Fintype τ] (D : Discipline P) (h : Step P s (.run t) s') :
    ∑ u, P.left s' u < ∑ u, P.left s u := by
  by_cases hsig : ∃ c, P.instr s t = some (.signal c) ∧ s.mode t = .ready
  · obtain ⟨c, hc, hr⟩ := hsig
    apply sum_lt_of_paid (v := t) (w := D.waiter c) (show 3 < 4 by omega)
    intro u
    cases h.move u with
    | stay hm hp =>
      simp [left_eq_of_stay hm hp, h.ne_of_stay hm hp]
    | @pass x ha hx hm hm' hp =>
      cases ha
      rw [hc] at hx
      cases hx
      have := left_pass hc hm hm' hp
      simp only [Instr.cost, if_true] at this ⊢
      omega
    | wake ha hm hm' hp =>
      rcases ha with ha | ⟨v, f, d, ha, hd, hf⟩
      · cases ha
      · cases ha
        rw [hc] at hd
        cases hd
        have hut : u ≠ t := by
          rintro rfl
          rw [hr] at hm
          cases hm
        have := left_congr (P := P) hp
        simp only [hm, hm', Mode.weight, (D.fit hf).2.1, hut, if_true, if_false] at this ⊢
        omega
    | birth ha hx hm hm' hp =>
      cases ha
      rw [hc] at hx
      cases hx
    | test ha hx => cases ha; rw [hc] at hx; cases hx
    | wait ha hx => cases ha; rw [hc] at hx; cases hx
    | relock ha hx => cases ha; rw [hc] at hx; cases hx
  · apply sum_lt_of_paid (v := t) (w := t) (show 0 < 1 by omega)
    intro u
    cases h.move u with
    | stay hm hp =>
      simp [left_eq_of_stay hm hp, h.ne_of_stay hm hp]
    | @pass x ha hx hm hm' hp =>
      cases ha
      have := left_pass hx hm hm' hp
      have hcost : 1 ≤ x.cost := by cases x <;> simp [Instr.cost]
      simp only [if_true]
      omega
    | test ha hx hf hm hm' hp =>
      cases ha
      have := left_congr (P := P) hp
      simp only [hm, hm', Mode.weight, if_true] at this ⊢
      omega
    | wait ha hx hm hm' hp =>
      cases ha
      have := left_congr (P := P) hp
      simp only [hm, hm', Mode.weight, if_true] at this ⊢
      omega
    | wake ha hm hm' hp =>
      rcases ha with ha | ⟨v, f, d, ha, hd, hf⟩
      · cases ha
      · cases ha
        exfalso
        refine hsig ⟨d, hd, ?_⟩
        cases h with
        | signal hr => exact hr
        | _ => simp_all
    | relock ha hx hm hm' hp =>
      cases ha
      have := left_congr (P := P) hp
      simp only [hm, hm', Mode.weight, if_true] at this ⊢
      omega
    | birth ha hx hm hm' hp =>
      cases ha
      have hut : u ≠ t := by
        rintro rfl
        cases h <;> simp_all
      have := left_congr (P := P) hp
      simp only [hm, hm', Mode.weight, hut, if_false] at this ⊢
      omega

def Action.isRun : Action τ → Prop
  | .run _ => True
  | _ => False

def Program.Finished (P : Program τ φ κ ω) (s : State τ φ) : Prop :=
  P.system.Reachable s ∧ ∀ t, P.ended s t

/-- Without further spurious wake-ups and failures every run ends with all threads ended. -/
theorem Discipline.completes [Fintype τ] (D : Discipline P) (h : P.system.Reachable s)
    (hf : s.failed = false) : P.system.Inevitable (fun _ a => a.isRun) P.Finished s := by
  apply System.Inevitable.of_measure (I := fun s => P.system.Reachable s ∧ s.failed = false)
    (fun s => ∑ t, P.left s t) ?_ ?_ ⟨h, hf⟩
  · rintro s ⟨hr, hf⟩ hn
    obtain ⟨t, s', hs⟩ := D.progress hr (not_forall.mp fun he => hn ⟨hr, he⟩)
    exact ⟨s', .run t, trivial, next_iff.mpr ⟨hf, hs⟩⟩
  · rintro s s' ⟨hr, hf⟩ _ ⟨a, ha, hs⟩
    have hstep := (next_iff.mp hs).2
    cases a with
    | run t => exact ⟨⟨hr.step _ hs, hstep.failed.trans hf⟩, D.left_lt hstep⟩
    | spurious t => exact ha.elim
    | fail t => exact ha.elim

theorem Program.Finished.outputOf (h : P.Finished s) (t : τ) :
    P.outputOf s t = P.acts t (P.code t).length := by
  rw [outputOf_eq h.1, (h.2 t).2]

theorem Discipline.finished_free (D : Discipline P) (h : P.Finished s) : s.owner = none := by
  rcases (D.guards h.1).free_or_inside with ho | ⟨t, _, hheld⟩
  · exact ho
  · rw [(h.2 t).2, D.releases] at hheld
    cases hheld

def Program.Done (P : Program τ φ κ ω) (s : State τ φ) : Prop :=
  (∀ t, P.ended s t) ∧ s.owner = none ∧ ∀ t, P.outputOf s t = P.acts t (P.code t).length

theorem Discipline.inevitably_done [Fintype τ] (D : Discipline P) (h : P.system.Reachable s)
    (hf : s.failed = false) : P.system.Inevitable (fun _ a => a.isRun) P.Done s := by
  apply (D.completes h hf).mono
  intro s hs
  exact ⟨hs.2, D.finished_free hs, hs.outputOf⟩

end LinuxSystemProgramming.Threads
