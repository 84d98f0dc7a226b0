import LinuxSystemProgramming.HandOver.Lifetime

namespace LinuxSystemProgramming.HandOver

open Mutex Transition

variable {s t : State}

def Action.spurious : Action → Bool
  | .spuriousMain | .spuriousT1 => true
  | _ => false

def MainPc.rank (d : SharedData) : MainPc → ℕ
  | .malloc => 19
  | .initMutex => 18
  | .initCondFromMain => 17
  | .initCondFromT1 => 16
  | .initFields => 15
  | .create => 14
  | .detach => 13
  | .lock => 12
  | .relockReady => if d.t1Ready then 7 else 11
  | .testReady => if d.t1Ready then 6 else 10
  | .waitReady => 9
  | .waitingReady => 8
  | .setProceed => 5
  | .signalProceed => 4
  | .unlock => 3
  | .forget => 2
  | .exiting => 1
  | .terminated | .failed => 0

def T1Pc.rank (d : SharedData) : T1Pc → ℕ
  | .notCreated => 20
  | .started => 19
  | .lock => 18
  | .setReady => 17
  | .signalReady => 16
  | .relockProceed => if d.t1ToProceed then 11 else 15
  | .testProceed => if d.t1ToProceed then 10 else 14
  | .waitProceed => 13
  | .waitingProceed => 12
  | .unlock => 9
  | .received => 8
  | .printArg => 7
  | .workDone => 6
  | .destroyMutex => 5
  | .destroyCondFromMain => 4
  | .destroyCondFromT1 => 3
  | .free => 2
  | .exiting => 1
  | .terminated => 0

def State.rank (s : State) : ℕ := s.mainPc.rank s.data + s.t1.rank s.data

theorem MainPc.rank_set (d : SharedData) (pc : MainPc) (f : Flag) :
    pc.rank (d.set f) ≤ pc.rank d := by
  cases f with
  | t1Ready =>
    cases pc
    case relockReady | testReady =>
      simp only [MainPc.rank, SharedData.set, if_true]
      split_ifs
      all_goals omega
    all_goals exact le_refl _
  | t1ToProceed => cases pc <;> exact le_refl _

theorem T1Pc.rank_set (d : SharedData) (pc : T1Pc) (f : Flag) : pc.rank (d.set f) ≤ pc.rank d := by
  cases f with
  | t1Ready => cases pc <;> exact le_refl _
  | t1ToProceed =>
    cases pc
    case relockProceed | testProceed =>
      simp only [T1Pc.rank, SharedData.set, if_true]
      split_ifs
      all_goals omega
    all_goals exact le_refl _

theorem MainPc.rank_mutex (s : State) (m : Option Tid) (pc : MainPc) :
    pc.rank (s.setMutex m).data = pc.rank s.data := by
  cases pc <;> rfl

theorem T1Pc.rank_mutex (s : State) (m : Option Tid) (pc : T1Pc) :
    pc.rank (s.setMutex m).data = pc.rank s.data := by
  cases pc <;> rfl

theorem rank_main (h : Inv s) (hm : MainMove s t) (hpc : s.mainPc ≠ .waitingReady) :
    t.rank < s.rank := by
  cases hm with
  | mallocs hpc | fails hpc =>
    simp only [State.rank, State.goto, hpc, MainPc.rank]
    omega
  | inits o pc hi =>
    have hlt : (s.initObject o).t1.rank (s.initObject o).data = s.t1.rank s.data := by
      rw [initObject_t1]
      cases o <;> rfl
    simp only [State.rank, State.goto, hlt]
    generalize s.mainPc = p at hi
    cases hi <;> simp only [MainPc.rank] <;> omega
  | fills hpc =>
    have hnew := h.notCreated (by rw [hpc]; rfl)
    simp only [State.rank, hpc, hnew, MainPc.rank, T1Pc.rank]
    omega
  | creates hpc =>
    have hnew := h.notCreated (by rw [hpc]; rfl)
    simp only [State.rank, hpc, hnew, MainPc.rank, T1Pc.rank]
    omega
  | locks pc hl =>
    change pc.rank (s.setMutex (some .main)).data + s.t1.rank (s.setMutex (some .main)).data < _
    rw [MainPc.rank_mutex, T1Pc.rank_mutex]
    apply Nat.add_lt_add_right
    generalize s.mainPc = p at hl
    cases hl with
    | lock =>
      simp only [MainPc.rank]
      split_ifs
      all_goals omega
    | relockReady =>
      simp only [MainPc.rank]
      split_ifs
      all_goals omega
  | unlocks pc hu =>
    change pc.rank (s.setMutex none).data + s.t1.rank (s.setMutex none).data < _
    rw [MainPc.rank_mutex, T1Pc.rank_mutex]
    apply Nat.add_lt_add_right
    generalize s.mainPc = p at hu
    cases hu with
    | waitReady =>
      simp only [MainPc.rank]
      omega
    | unlock =>
      simp only [MainPc.rank]
      omega
  | proceeds hpc =>
    have hle := s.t1.rank_set s.data .t1ToProceed
    simp only [State.rank, hpc, MainPc.rank]
    omega
  | signals hpc =>
    have hmain := h.main
    rw [hpc] at hmain
    have hle : (s.t1.wake .condFromMain).rank s.data ≤ s.t1.rank s.data := by
      cases hp : s.t1
      case waitingProceed =>
        simp only [T1Pc.wake, T1Pc.rank, hmain.2, if_true]
        omega
      all_goals exact le_refl _
    simp only [State.rank, hpc, MainPc.rank]
    omega
  | goes pc hg =>
    change pc.rank s.data + s.t1.rank s.data < _
    apply Nat.add_lt_add_right
    generalize s.mainPc = p at hg hpc
    cases hg with
    | ready hr =>
      simp only [MainPc.rank, hr, if_true]
      omega
    | notReady hr =>
      simp only [MainPc.rank, hr, Bool.false_eq_true, if_false]
      omega
    | detach | forget | exits =>
      simp only [MainPc.rank]
      omega
    | spurious => exact absurd rfl hpc

theorem rank_t1 (h : Inv s) (hm : T1Move s t) (hpc : s.t1 ≠ .waitingProceed) :
    t.rank < s.rank := by
  cases hm with
  | locks pc hl =>
    change s.mainPc.rank (s.setMutex (some .t1)).data + pc.rank (s.setMutex (some .t1)).data < _
    rw [MainPc.rank_mutex, T1Pc.rank_mutex]
    apply Nat.add_lt_add_left
    generalize s.t1 = p at hl
    cases hl with
    | lock =>
      simp only [T1Pc.rank]
      omega
    | relockProceed =>
      simp only [T1Pc.rank]
      split_ifs
      all_goals omega
  | unlocks pc hu =>
    change s.mainPc.rank (s.setMutex none).data + pc.rank (s.setMutex none).data < _
    rw [MainPc.rank_mutex, T1Pc.rank_mutex]
    apply Nat.add_lt_add_left
    generalize s.t1 = p at hu
    cases hu with
    | waitProceed =>
      simp only [T1Pc.rank]
      omega
    | unlock =>
      simp only [T1Pc.rank]
      omega
  | ready hpc =>
    have hle := s.mainPc.rank_set s.data .t1Ready
    simp only [State.rank, hpc, T1Pc.rank]
    omega
  | signals hpc =>
    have ht := h.t1
    rw [hpc] at ht
    have hle : (s.mainPc.wake .condFromT1).rank s.data ≤ s.mainPc.rank s.data := by
      cases hp : s.mainPc
      case waitingReady =>
        change s.data.t1Ready = true at ht
        simp only [MainPc.wake, MainPc.rank, ht, if_true]
        omega
      all_goals exact le_refl _
    simp only [State.rank, hpc, T1Pc.rank]
    split_ifs
    all_goals omega
  | prints hpc | frees hpc =>
    simp only [State.rank, hpc, T1Pc.rank]
    omega
  | destroys o pc hd =>
    change s.mainPc.rank s.data + pc.rank s.data < _
    apply Nat.add_lt_add_left
    generalize s.t1 = p at hd
    cases hd <;> simp only [T1Pc.rank] <;> omega
  | goes pc hg =>
    change s.mainPc.rank s.data + pc.rank s.data < _
    apply Nat.add_lt_add_left
    generalize s.t1 = p at hg hpc
    cases hg with
    | proceeds hp =>
      simp only [T1Pc.rank, hp, if_true]
      omega
    | notYet hp =>
      simp only [T1Pc.rank, hp, Bool.false_eq_true, if_false]
      omega
    | started | received | workDone | exits =>
      simp only [T1Pc.rank]
      omega
    | spurious => exact absurd rfl hpc

theorem acquire_enabled {τ : Tid} (hfree : s.data.mutex = none) :
    ∃ t, (acquire s.data.mutex τ).map s.setMutex = some t := by
  unfold acquire
  rw [if_pos hfree]
  exact ⟨_, rfl⟩

theorem release_enabled {τ : Tid} (hheld : s.data.mutex = some τ) :
    ∃ t, (release s.data.mutex τ).map s.setMutex = some t := by
  unfold release
  rw [if_pos hheld]
  exact ⟨_, rfl⟩

theorem Inv.free (h : Inv s) (hs : s.mainPc.starting = false) (hm : s.mainPc.inside = false)
    (ht : s.t1.inside = false) : s.data.mutex = none := by
  rcases (h.guards (made_of_started hs _)).free_or_inside with hfree | ⟨τ, hτ⟩
  · exact hfree
  · cases τ with
    | main => cases hm.symm.trans hτ
    | t1 => cases ht.symm.trans hτ

theorem main_enabled (h : Inv s) (ht : s.t1.inside = false) (hwait : s.mainPc ≠ .waitingReady)
    (hend : s.mainPc ≠ .terminated ∧ s.mainPc ≠ .failed) : ∃ t, s.main = some t := by
  have hexec : ∃ t, s.exec .main s.mainPc.op = some t := by
    cases hpc : s.mainPc
    case waitingReady => exact absurd hpc hwait
    case terminated => exact absurd hpc hend.1
    case failed => exact absurd hpc hend.2
    case lock | relockReady =>
      exact acquire_enabled (h.free (by rw [hpc]; rfl) (by rw [hpc]; rfl) ht)
    case waitReady | unlock =>
      apply release_enabled
      apply (h.guards (by rw [hpc]; rfl) .main).mp
      change s.mainPc.inside = true
      rw [hpc]
      rfl
    all_goals exact ⟨_, rfl⟩
  obtain ⟨t, ht⟩ := hexec
  unfold State.main
  rw [ht]
  exact ⟨_, rfl⟩

theorem t1_enabled (h : Inv s) (hm : s.mainPc.inside = false) (hnew : s.t1 ≠ .notCreated)
    (hwait : s.t1 ≠ .waitingProceed) (hend : s.t1 ≠ .terminated) :
    ∃ t, s.threadFunction = some t := by
  have hs := h.started hnew
  have hexec : ∃ t, s.exec .t1 s.t1.op = some t := by
    cases hpc : s.t1
    case notCreated => exact absurd hpc hnew
    case waitingProceed => exact absurd hpc hwait
    case terminated => exact absurd hpc hend
    case lock | relockProceed => exact acquire_enabled (h.free hs hm (by rw [hpc]; rfl))
    case waitProceed | unlock =>
      apply release_enabled
      apply (h.guarded hnew .t1).mp
      change s.t1.inside = true
      rw [hpc]
      rfl
    all_goals exact ⟨_, rfl⟩
  obtain ⟨t, ht⟩ := hexec
  unfold State.threadFunction
  rw [ht]
  exact ⟨_, rfl⟩

def State.unfinished (s : State) : Prop :=
  (s.mainPc ≠ .terminated ∧ s.mainPc ≠ .failed) ∨ (s.t1 ≠ .notCreated ∧ s.t1 ≠ .terminated)

theorem inside_runs {pc : T1Pc} (hin : pc.inside = true ∨ pc.willSignal = true) :
    pc ≠ .notCreated ∧ pc ≠ .waitingProceed ∧ pc ≠ .terminated := by
  refine ⟨?_, ?_, ?_⟩
  all_goals
    rintro rfl
    rcases hin with hin | hin <;> cases hin

theorem step_enabled (h : Inv s) (hu : s.unfinished) :
    (∃ t, s.main = some t) ∨ ∃ t, s.threadFunction = some t := by
  have hmain := h.main
  cases hin : s.t1.inside with
  | true =>
    right
    have hout : s.mainPc.inside = false := eq_false_of_ne_true (fun hm => h.exclusive hm hin)
    obtain ⟨hnew, hwait, hend⟩ := inside_runs (.inl hin)
    exact t1_enabled h hout hnew hwait hend
  | false =>
    cases hpc : s.mainPc <;> rw [hpc] at hmain
    case waitingReady =>
      right
      obtain ⟨hnew, hwait, hend⟩ := inside_runs (.inr hmain.2.2)
      exact t1_enabled h (by rw [hpc]; rfl) hnew hwait hend
    case terminated =>
      right
      rcases hu with ⟨hm, -⟩ | ⟨hnew, hend⟩
      · exact absurd hpc hm
      · exact t1_enabled h (by rw [hpc]; rfl) hnew hmain.2.2 hend
    case failed =>
      rcases hu with ⟨-, hm⟩ | ⟨hnew, -⟩
      · exact absurd hpc hm
      · exact absurd hmain hnew
    all_goals
      left
      apply main_enabled h hin
      · rw [hpc]
        exact nofun
      · rw [hpc]
        exact ⟨nofun, nofun⟩

theorem next_rank (h : Inv s) {a : Action} (ha : a.spurious = false) (hn : s.next a = some t) :
    t.rank < s.rank := by
  cases a with
  | main =>
    apply rank_main h (main_move hn)
    intro hpc
    change s.main = some t at hn
    unfold State.main at hn
    rw [hpc] at hn
    cases hn
  | t1 =>
    apply rank_t1 h (threadFunction_move hn)
    intro hpc
    change s.threadFunction = some t at hn
    unfold State.threadFunction at hn
    rw [hpc] at hn
    cases hn
  | mallocFails =>
    obtain ⟨hpc, ht⟩ := Option.ite_none_right_eq_some.mp hn
    cases ht
    apply rank_main h (.fails hpc)
    rw [hpc]
    exact nofun
  | spuriousMain | spuriousT1 => cases ha

def State.finished (s : State) : Prop :=
  s.mainPc = .failed ∨ s.mainPc = .terminated ∧ s.t1 = .terminated ∧
    (∀ o, s.destroys o = 1) ∧ s.frees = 1

theorem Inv.unfinished (h : Inv s) (hd : ¬ s.finished) : s.unfinished := by
  by_cases hfail : s.mainPc = .failed
  · exact absurd (.inl hfail) hd
  · by_cases hend : s.mainPc = .terminated
    · right
      have hmain := h.main
      rw [hend] at hmain
      refine ⟨hmain.1, ?_⟩
      intro ht
      apply hd
      right
      refine ⟨hend, ht, ?_, ?_⟩
      · intro o
        rw [h.ledger.destroys, ht]
        rfl
      · rw [h.ledger.frees, ht]
        rfl
    · exact .inl ⟨hend, hfail⟩

theorem inevitably_finished (h : Inv s) :
    handOver.Inevitable (fun _ a => a.spurious = false) State.finished s := by
  refine System.Inevitable.of_measure State.rank ?_ ?_ h
  · intro u hu hd
    rcases step_enabled hu (hu.unfinished hd) with ⟨t, ht⟩ | ⟨t, ht⟩
    · exact ⟨t, .main, rfl, ht⟩
    · exact ⟨t, .t1, rfl, ht⟩
  · rintro u t hu - ⟨a, ha, hn⟩
    constructor
    · rcases next_move hn with hm | hm
      · exact inv_main hu hm
      · exact inv_t1 hu hm
    · exact next_rank hu ha hn

/-- In this order: operations are on what is there; whoever destroys is `t1` and is the last to use
the object; the same for the block; all this once, and at the end of every run; `t1` works after
the go-ahead; some step is always possible. -/
theorem hand_over {s : State} (hr : handOver.Reachable s) :
    (∀ τ, (∀ o ∈ (s.op τ).objects, s.live o = true) ∧
      ((s.op τ).accesses = true → s.allocated = true)) ∧
    (∀ τ o, s.op τ = .destroy o → τ = .t1 ∧ s.data.mutex = none ∧ o ∉ (s.op .main).objects ∧
      ∀ t, s.next .t1 = some t → Abandoned o t) ∧
    (∀ τ, s.op τ = .free → τ = .t1 ∧ ∀ t, s.next .t1 = some t →
      ∀ u, handOver.PathWhile (fun _ _ => True) t u → ∀ τ', (u.op τ').accesses = false) ∧
    ((∀ o, s.destroys o ≤ 1) ∧ s.frees ≤ 1) ∧
    handOver.Inevitable (fun _ a => a.spurious = false) State.finished s ∧
    (s.t1.working = true → s.data.t1ToProceed = true) ∧ (∀ v ∈ s.printed, v = 42) ∧
    (s.unfinished → ∃ a t, a.spurious = false ∧ s.next a = some t) := by
  have h := inv_reachable hr
  refine ⟨h.uses, ?_, ?_, ⟨?_, ?_⟩, inevitably_finished h, fun hw => (h.past_of_working hw).1, h.printed, ?_⟩
  · intro τ o hop
    obtain ⟨hτ, hm, -, hobj, hlast⟩ := destroy_last hr hop
    exact ⟨hτ, hm, hobj, hlast⟩
  · intro τ hop
    obtain ⟨hτ, -, hlast⟩ := free_last hr hop
    exact ⟨hτ, hlast⟩
  · intro o
    rw [h.ledger.destroys]
    exact Bool.toNat_le _
  · rw [h.ledger.frees]
    exact Bool.toNat_le _
  · intro hu
    rcases step_enabled h hu with ⟨t, ht⟩ | ⟨t, ht⟩
    · exact ⟨.main, t, rfl, ht⟩
    · exact ⟨.t1, t, rfl, ht⟩

def runs (n : ℕ) (a : Action) : List Action := List.replicate n a

theorem hand_over_destroy : ∃ s : State, s.t1 = .destroyMutex ∧ s.data.mutex = none ∧
    s.data.t1ToProceed = true ∧ ∀ t, s.next .t1 = some t → Abandoned .mutex t := by
  have hrun : (handOver.run (.initial ⟨none, true, true, true, 0⟩)
      (runs 7 .main ++ runs 6 .t1 ++ [.spuriousT1] ++ runs 3 .t1 ++ runs 5 .main ++
        runs 6 .t1)).map State.t1 = some .destroyMutex := by decide +kernel
  obtain ⟨s, hs, hpc⟩ := Option.map_eq_some_iff.mp hrun
  have hr : handOver.Reachable s := .run _ (.init ⟨_, rfl⟩) hs
  obtain ⟨-, hdestroy, -, -, -, hwork, -⟩ := hand_over hr
  obtain ⟨-, hm, -, hlast⟩ := hdestroy .t1 .mutex (congrArg T1Pc.op hpc)
  refine ⟨s, hpc, hm, hwork ?_, hlast⟩
  rw [hpc]
  rfl

end LinuxSystemProgramming.HandOver
