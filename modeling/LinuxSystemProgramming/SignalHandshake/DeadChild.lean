import LinuxSystemProgramming.SignalHandshake.Arrival

namespace LinuxSystemProgramming.SignalHandshake

open Signals Transition

variable {s t : State}

/-- The parent is suspended for a signal that the child can no longer send. -/
def Hung (s : State) : Prop :=
  s.child.ended = true ∧
    (s.parent = .suspendedReady ∧ s.childIsReady = false ∧ s.parentSig.pending .usr1 = false ∨
      s.parent = .suspendedUsr2 ∧ s.gotSigusr2 = false ∧ s.parentSig.pending .usr2 = false)

/-- The child ends only after its `SIGUSR2`: before, no call but the first `kill` fails, and it is
not killed. -/
def Answered (s : State) : Action → Prop
  | .child o => o = .fails → s.child = .notify
  | .childKilled => s.responded = true
  | a => Unaided a

instance (s : State) (a : Action) : Decidable (Answered s a) :=
  match a with
  | .child o => inferInstanceAs (Decidable (o = .fails → s.child = .notify))
  | .childKilled => inferInstanceAs (Decidable (s.responded = true))
  | .parent o => inferInstanceAs (Decidable (Unaided (.parent o)))
  | .parentSignal x => inferInstanceAs (Decidable (Unaided (.parentSignal x)))
  | .childSignal x => inferInstanceAs (Decidable (Unaided (.childSignal x)))
  | .outsider x => inferInstanceAs (Decidable (Unaided (.outsider x)))

theorem Answered.unaided (s : State) (a : Action) (h : Answered s a) : Unaided a := by
  cases a with
  | child => trivial
  | childKilled => trivial
  | _ => exact h

theorem not_hung (h : Inv s) (hr : s.responded = true) : ¬ Hung s := by
  rintro ⟨-, ⟨hpc, -⟩ | ⟨-, hf, hp⟩⟩
  · have hask := h.unasked (.inl (h.caught (.inr hr)))
    rw [h.knows.asked, hpc] at hask
    cases hask
  · have hs : s.sent .usr2 = true := hr
    rcases h.sent .usr2 hs with hflag | hpend
    · cases hf.symm.trans hflag
    · cases hp.symm.trans hpend

theorem childRun_ends (hn : s.childRun = some t)
    (ht : t.child = .exiting ∨ t.child.ended = true) :
    t.responded = true ∨ s.child = .exiting ∧ t.responded = s.responded := by
  unfold State.childRun at hn
  cases hpc : s.child <;> simp only [hpc, reduceCtorEq] at hn
  case respond =>
    cases hn
    exact .inl rfl
  case exiting =>
    cases hn
    exact .inr ⟨rfl, rfl⟩
  case testUsr1 =>
    cases hn
    change (if s.gotSigusr1 then ChildPc.respond else .suspend) = .exiting ∨
      (if s.gotSigusr1 then ChildPc.respond else .suspend).ended = true at ht
    split_ifs at ht <;> rcases ht with ht | ht <;> cases ht
  all_goals
    cases hn
    rcases ht with ht | ht <;> cases ht

theorem parent_keeps (h : Inv s) (hnew : s.child ≠ .notForked) (hm : ParentMove s t) :
    t.child = s.child ∧ t.responded = s.responded := by
  cases hm with
  | forks hpc =>
    exact absurd (h.knows.forked.mp (by rw [hpc]; rfl)) hnew
  | signalled x =>
    obtain ⟨hchild, -, -, -, hresp⟩ := parentHandler_same s x
    exact ⟨hchild, hresp⟩
  | _ => exact ⟨rfl, rfl⟩

theorem parent_creates (hnew : s.child = .notForked) (hm : ParentMove s t) :
    t.child = .notForked ∨ t.child = .execl := by
  cases hm with
  | forks => exact .inr rfl
  | signalled x => exact .inl ((parentHandler_same s x).1.trans hnew)
  | _ => exact .inl hnew

theorem answered_parent (h : Inv s) (hm : ParentMove s t)
    (hold : s.child = .exiting ∨ s.child.ended = true → s.responded = true)
    (he : t.child = .exiting ∨ t.child.ended = true) : t.responded = true := by
  by_cases hnew : s.child = .notForked
  · rcases parent_creates hnew hm with hc | hc <;> rw [hc] at he <;> rcases he with he | he <;>
      cases he
  · obtain ⟨hchild, hresp⟩ := parent_keeps h hnew hm
    rw [hchild] at he
    rw [hresp, hold he]

theorem answered_of_ended (hr : handshake.ReachableWhile Answered s)
    (he : s.child = .exiting ∨ s.child.ended = true) : s.responded = true := by
  induction hr with
  | init h =>
    cases h
    rcases he with he | he <;> cases he
  | step a hr hc hn ih =>
    have h := inv_reachable (hr.mono (fun s a hc => (Answered.unaided s a hc).orderly s a))
    cases a with
    | parent o =>
      cases hc
      exact answered_parent h (parentRun_move hn) ih he
    | parentSignal x => exact answered_parent h (parentSignal_move hn) ih he
    | child o =>
      cases o with
      | run =>
        rcases childRun_ends hn he with hresp | ⟨hpc, hresp⟩
        · exact hresp
        · rw [hresp, ih (.inl hpc)]
      | fails =>
        obtain ⟨pc, hpc, rfl⟩ := Option.map_eq_some_iff.mp hn
        rw [hc rfl] at hpc
        cases hpc
        rcases he with he | he <;> cases he
    | childSignal x =>
      obtain ⟨⟨hend, hnew, hd⟩, hn⟩ := Option.ite_none_right_eq_some.mp hn
      obtain ⟨hw, -, hwake⟩ := h.child.waiting hend hnew hd
      rw [if_pos (hw.deliver hd), hwake] at hn
      cases hn
      rcases he with he | he <;> cases he
    | childKilled =>
      obtain ⟨-, ht⟩ := Option.ite_none_right_eq_some.mp hn
      cases ht
      exact hc
    | outsider => exact hc.elim

theorem ended_path (hr : handshake.ReachableWhile (fun _ a => Unaided a) s)
    (he : s.child.ended = true) (hp : handshake.PathWhile (fun _ a => Unaided a) s t) :
    t.child = s.child ∧ t.responded = s.responded := by
  induction hp with
  | refl => exact ⟨rfl, rfl⟩
  | tail hsu hut ih =>
    have h := inv_reachable ((hr.path hsu).mono Unaided.orderly)
    obtain ⟨hchild, hresp⟩ := ih
    obtain ⟨a, hc, hn⟩ := hut
    rcases unaided_move hc hn with hm | hm
    · have hnew : s.child ≠ .notForked := by
        intro hnew
        rw [hnew] at he
        cases he
      obtain ⟨hchild', hresp'⟩ := parent_keeps h (hchild ▸ hnew) hm
      exact ⟨hchild'.trans hchild, hresp'.trans hresp⟩
    · have hend := (hm.running h).1
      rw [hchild, he] at hend
      cases hend

def State.rank (s : State) : ℕ :=
  match s.parent with
  | .returningReady => if s.childIsReady then 6 else 10
  | .testReady => if s.childIsReady then 5 else 9
  | .suspendReady => 8
  | .suspendedReady => 7
  | .killChild => 4
  | .returningUsr2 => 3
  | .testUsr2 => 2
  | .suspendUsr2 => 1
  | _ => 0

theorem parent_goes_on (hr : handshake.ReachableWhile (fun _ a => Unaided a) s)
    (he : s.child.ended = true) (hn : s.responded = false) (hh : ¬ Hung s) :
    ∃ t, handshake.StepWhile (fun _ a => Unaided a) s t ∧ t.rank < s.rank := by
  have h := inv_reachable (hr.mono Unaided.orderly)
  have hunseen : ¬ (s.gotSigusr2 = true ∨ s.parentSig.pending .usr2 = true) := by
    intro hx
    cases hn.symm.trans (sent_of_seen hr .usr2 hx)
  obtain ⟨hgot, hpend⟩ := not_or.mp hunseen
  have hforked := h.knows.forked
  have hpassed := h.knows.passed
  have hready := h.knows.notReady
  have hp := h.parent
  have hstep {u : State} (hu : s.parentRun = some u) (hlt : u.rank < s.rank) :
      ∃ t, handshake.StepWhile (fun _ a => Unaided a) s t ∧ t.rank < s.rank :=
    ⟨u, ⟨.parent .run, rfl, hu⟩, hlt⟩
  cases hpc : s.parent <;> rw [hpc] at hforked hpassed hready hp
  case sigprocmask | sigactionUsr1 | sigactionUsr2 | fork =>
    rw [hforked.mp rfl] at he
    cases he
  case waitpid | exiting | exited => exact absurd (hpassed rfl) hgot
  case terminated => exact hp.elim
  case suspendedUsr2 =>
    refine absurd ⟨he, .inr ⟨hpc, ?_, ?_⟩⟩ hh
    · exact eq_false_of_ne_true hgot
    · exact eq_false_of_ne_true hpend
  case suspendedReady =>
    have harrived : s.parentSig.pending .usr1 = true := by
      by_contra hnone
      exact hh ⟨he, .inl ⟨hpc, hready rfl, eq_false_of_ne_true hnone⟩⟩
    have hd := hp.deliverable harrived
    have hn : s.parentSignal .usr1 = some { s with
        childIsReady := true, parentSig := s.parentSig.take .usr1, parent := .returningReady } := by
      unfold State.parentSignal
      rw [hpc, if_pos ⟨rfl, hd⟩, if_pos (hp.deliver hd)]
      rfl
    refine ⟨_, ⟨.parentSignal .usr1, trivial, hn⟩, ?_⟩
    simp only [State.rank, hpc, if_true]
    omega
  case testReady =>
    cases hf : s.childIsReady
    · apply hstep (u := s.goto .suspendReady)
      · simp only [State.parentRun, hpc, hf, Bool.false_eq_true, if_false]
      · simp only [State.rank, State.goto, hpc, hf, Bool.false_eq_true, if_false]
        omega
    · apply hstep (u := s.goto .killChild)
      · simp only [State.parentRun, hpc, hf, if_true]
      · simp only [State.rank, State.goto, hpc, hf, if_true]
        omega
  case testUsr2 =>
    apply hstep (u := s.goto .suspendUsr2)
    · simp only [State.parentRun, hpc, if_neg hgot]
    · simp only [State.rank, State.goto, hpc]
      omega
  case returningReady =>
    apply hstep
    · simp only [State.parentRun, hpc]
      rfl
    · simp only [State.rank, hpc]
      split_ifs
      all_goals omega
  all_goals
    apply hstep
    · simp only [State.parentRun, hpc]
      rfl
    · simp only [State.rank, hpc]
      omega

theorem reaches_hung (hr : handshake.ReachableWhile (fun _ a => Unaided a) s)
    (he : s.child.ended = true) (hn : s.responded = false) :
    ∃ t, handshake.PathWhile (fun _ a => Unaided a) s t ∧ Hung t := by
  have hprogress : ∃ t, handshake.PathWhile (fun _ a => Unaided a) s t ∧
      (Hung t ∨ ¬ (t.child.ended = true ∧ t.responded = false)) := by
    apply hr.progress State.rank
    intro u hu hd
    obtain ⟨hh, hopen⟩ := not_or.mp hd
    obtain ⟨he, hn⟩ := not_not.mp hopen
    exact parent_goes_on hu he hn hh
  obtain ⟨t, hp, hd⟩ := hprogress
  refine ⟨t, hp, ?_⟩
  obtain ⟨hchild, hresp⟩ := ended_path hr he hp
  rcases hd with hd | hd
  · exact hd
  · exact absurd ⟨by rw [hchild, he], by rw [hresp, hn]⟩ hd

/-- If the child ends only after its answer, the parent never hangs; and once the child has ended,
the parent is safe in all that follows exactly if the answer was sent. -/
theorem dead_child_noticed (s : State) :
    (handshake.ReachableWhile Answered s → ¬ Hung s) ∧
    (handshake.ReachableWhile (fun _ a => Unaided a) s → s.child.ended = true →
      ((∀ t, handshake.PathWhile (fun _ a => Unaided a) s t → ¬ Hung t) ↔ s.responded = true)) := by
  constructor
  · intro hr hh
    have h := inv_reachable (hr.mono (fun s a hc => (Answered.unaided s a hc).orderly s a))
    exact not_hung h (answered_of_ended hr (.inr hh.1)) hh
  · intro hr he
    constructor
    · intro hsafe
      by_contra hn
      obtain ⟨t, hp, hh⟩ := reaches_hung hr he (eq_false_of_ne_true hn)
      exact hsafe t hp hh
    · intro hresp t hp
      have h := inv_reachable ((hr.path hp).mono Unaided.orderly)
      apply not_hung h
      rw [(ended_path hr he hp).2, hresp]

theorem dead_child_answered : ∃ s : State, s.child = .exited 0 ∧ s.parent = .suspendedUsr2 ∧
    s.responded = true ∧ ¬ Hung s := by
  have hrun : (handshake.runWhile (fun s a => decide (Answered s a)) State.initial
      (runs 6 (.parent .run) ++ runs 6 (.child .run) ++ [.parentSignal .usr1] ++
        runs 3 (.parent .run) ++ [.childSignal .usr1] ++ runs 4 (.child .run) ++
        runs 2 (.parent .run))).map (fun s => (s.child, s.parent, s.responded)) =
      some (.exited 0, .suspendedUsr2, true) := by decide +kernel
  obtain ⟨s, hs, he⟩ := Option.map_eq_some_iff.mp hrun
  simp only [Prod.mk.injEq] at he
  obtain ⟨hc, hp, hr⟩ := he
  have hrw : handshake.ReachableWhile Answered s :=
    .run (fun _ _ => of_decide_eq_true) _ (.init rfl) hs
  exact ⟨s, hc, hp, hr, (dead_child_noticed s).1 hrw⟩

/-- `execl` fails; or the child is killed after its `SIGUSR1`. -/
theorem dead_child_unnoticed :
    (∃ s, handshake.ReachableWhile (fun _ a => Unaided a) s ∧ s.parent = .suspendedReady ∧
      s.child = .exited 1 ∧ Hung s) ∧
    ∃ s, handshake.ReachableWhile (fun _ a => Unaided a) s ∧ s.parent = .suspendedUsr2 ∧
      s.child = .killed ∧ Hung s := by
  constructor
  · have hrun : (handshake.runWhile (fun _ a => decide (Unaided a)) State.initial
        (runs 6 (.parent .run) ++ [.child .fails])).map
          (fun s => (s.parent, s.child, s.childIsReady, s.parentSig.pending .usr1)) =
        some (.suspendedReady, .exited 1, false, false) := by decide +kernel
    obtain ⟨s, hs, he⟩ := Option.map_eq_some_iff.mp hrun
    simp only [Prod.mk.injEq] at he
    obtain ⟨hp, hc, hf, hn⟩ := he
    refine ⟨s, .run (fun _ _ => of_decide_eq_true) _ (.init rfl) hs, hp, hc, ?_, .inl ⟨hp, hf, hn⟩⟩
    rw [hc]
    rfl
  · have hrun : (handshake.runWhile (fun _ a => decide (Unaided a)) State.initial
        (runs 4 (.parent .run) ++ runs 4 (.child .run) ++ [.childKilled] ++
          runs 2 (.parent .run) ++ [.parentSignal .usr1] ++ runs 5 (.parent .run))).map
          (fun s => (s.parent, s.child, s.gotSigusr2, s.parentSig.pending .usr2)) =
        some (.suspendedUsr2, .killed, false, false) := by decide +kernel
    obtain ⟨s, hs, he⟩ := Option.map_eq_some_iff.mp hrun
    simp only [Prod.mk.injEq] at he
    obtain ⟨hp, hc, hf, hn⟩ := he
    refine ⟨s, .run (fun _ _ => of_decide_eq_true) _ (.init rfl) hs, hp, hc, ?_, .inr ⟨hp, hf, hn⟩⟩
    rw [hc]
    rfl

end LinuxSystemProgramming.SignalHandshake
