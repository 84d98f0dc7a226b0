import LinuxSystemProgramming.Cancellation.Threads

namespace LinuxSystemProgramming.Cancellation

open Mutex Transition

inductive MainLocks : MainPc → MainPc → Prop
  | lockReady : MainLocks .lockReady .testReady
  | relockReady : MainLocks .relockReady .testReady
  | lockStop : MainLocks .lockStop .testStop
  | relockStop : MainLocks .relockStop .testStop

inductive MainUnlocks (stop : ℕ) (s : State) : MainPc → MainPc → Prop
  | waitReady (hr : s.t1Ready = false) : MainUnlocks stop s .testReady .waitReady
  | unlockContinue : MainUnlocks stop s .unlockContinue .lockStop
  | waitStop (hc : s.counter < stop) : MainUnlocks stop s .testStop .waitStop
  | unlockStop : MainUnlocks stop s .unlockStop .exiting

inductive MainGoes (stop : ℕ) (s : State) : MainPc → MainPc → Prop
  | detach : MainGoes stop s .detach .lockReady
  | ready (hr : s.t1Ready = true) : MainGoes stop s .testReady .setContinue
  | stop (hc : stop ≤ s.counter) : MainGoes stop s .testStop .cancel
  | exits : MainGoes stop s .exiting .terminated
  | spuriousReady : MainGoes stop s .waitReady .relockReady
  | spuriousStop : MainGoes stop s .waitStop .relockStop

inductive MainMove (stop : ℕ) (s : State) : State → Prop
  | creates (hpc : s.mainPc = .create) :
      MainMove stop s { s with t1 := .printfStarted, mainPc := .detach }
  | locks (pc : MainPc) (hl : MainLocks s.mainPc pc) (ho : s.mutex = none) :
      MainMove stop s { s with mutex := some .main, mainPc := pc }
  | unlocks (pc : MainPc) (hl : MainUnlocks stop s s.mainPc pc) (ho : s.mutex = some .main) :
      MainMove stop s { s with mutex := none, mainPc := pc }
  | continues (hpc : s.mainPc = .setContinue) :
      MainMove stop s { s with t1ToContinue := true, mainPc := .signalContinue }
  | signals (hpc : s.mainPc = .signalContinue) :
      MainMove stop s { s with t1 := s.wakeT1, mainPc := .unlockContinue }
  | cancels (hpc : s.mainPc = .cancel) :
      MainMove stop s { s with cancelRequested := true, mainPc := .unlockStop }
  | goes (pc : MainPc) (hg : MainGoes stop s s.mainPc pc) : MainMove stop s (s.goto pc)

inductive T1Locks : T1Pc → T1Pc → Prop
  | lockReady : T1Locks .lockReady .setReady
  | relockContinue : T1Locks .relockContinue .testContinue
  | lockCount (i : ℕ) : T1Locks (.lockCount i) (.cleanupPush i)

inductive T1Unlocks (s : State) : T1Pc → T1Pc → Prop
  | waitContinue (hc : s.t1ToContinue = false) : T1Unlocks s .testContinue .waitContinue
  | unlockContinue : T1Unlocks s .unlockContinue .printfStarting
  | unlockCount (i : ℕ) : T1Unlocks s (.unlockCount i) (.cleanupPop i)

inductive T1Goes (max : ℕ) (s : State) : T1Pc → T1Pc → Prop
  | started : T1Goes max s .printfStarted .lockReady
  | continues (hc : s.t1ToContinue = true) : T1Goes max s .testContinue .unlockContinue
  | starting : T1Goes max s .printfStarting (.loop max 0)
  | again (i : ℕ) (hr : s.cancelRequested = false) : T1Goes max s (.testcancel i) (.loop max (i + 1))
  | cancelled (i : ℕ) (hr : s.cancelRequested = true) : T1Goes max s (.testcancel i) .handlers
  | ended : T1Goes max s .printfEnded .exiting
  | exits : T1Goes max s .exiting .handlers
  | spurious : T1Goes max s .waitContinue .relockContinue

inductive T1Signals : T1Pc → T1Pc → Prop
  | ready : T1Signals .signalReady .testContinue
  | count (i : ℕ) : T1Signals (.signalCount i) (.unlockCount i)

inductive T1Move (max : ℕ) (s : State) : State → Prop
  | locks (pc : T1Pc) (hl : T1Locks s.t1 pc) (ho : s.mutex = none) :
      T1Move max s { s with mutex := some .t1, t1 := pc }
  | unlocks (pc : T1Pc) (hl : T1Unlocks s s.t1 pc) (ho : s.mutex = some .t1) :
      T1Move max s { s with mutex := none, t1 := pc }
  | ready (hpc : s.t1 = .setReady) : T1Move max s { s with t1Ready := true, t1 := .signalReady }
  | signals (pc : T1Pc) (hg : T1Signals s.t1 pc) :
      T1Move max s { s with mainPc := s.wakeMain, t1 := pc }
  | pushes (i : ℕ) (hpc : s.t1 = .cleanupPush i) :
      T1Move max s { s with handlers := s.handlers + 1, t1 := .count i }
  | counts (i : ℕ) (hpc : s.t1 = .count i) :
      T1Move max s { s with counter := s.counter + 1, t1 := .signalCount i }
  | pops (i : ℕ) (hpc : s.t1 = .cleanupPop i) :
      T1Move max s { s with handlers := s.handlers - 1, t1 := .testcancel i }
  | goes (pc : T1Pc) (hg : T1Goes max s s.t1 pc) : T1Move max s (s.gotoT1 pc)
  | cancelled (hr : s.cancelRequested = true) (hpc : s.t1 = .printfEnded ∨
      s.t1 = .printfStarted ∨ s.t1 = .printfStarting ∨ s.t1 = .testContinue) :
      T1Move max s (s.gotoT1 .handlers)
  | cancelledWaiting (hr : s.cancelRequested = true) (hpc : s.t1 = .waitContinue) :
      T1Move max s (s.gotoT1 .relockCancel)
  | relocksCancel (hpc : s.t1 = .relockCancel) (ho : s.mutex = none) :
      T1Move max s { s with mutex := some .t1, t1 := .handlers }
  | handles (hpc : s.t1 = .handlers) : T1Move max s s.runHandlers

variable {stop max : ℕ} {s t : State}

theorem acquireMain_move {pc : MainPc} (h : s.acquireMain pc = some t)
    (hl : MainLocks s.mainPc pc) : MainMove stop s t := by
  obtain ⟨m, hm, rfl⟩ := Option.map_eq_some_iff.mp h
  obtain ⟨ho, rfl⟩ := acquire_eq_some.mp hm
  exact .locks pc hl ho

theorem releaseMain_move {pc : MainPc} (h : s.releaseMain pc = some t)
    (hl : MainUnlocks stop s s.mainPc pc) : MainMove stop s t := by
  obtain ⟨m, hm, rfl⟩ := Option.map_eq_some_iff.mp h
  obtain ⟨ho, rfl⟩ := release_eq_some.mp hm
  exact .unlocks pc hl ho

theorem main_move (hm : s.main stop = some t) : MainMove stop s t := by
  cases hpc : s.mainPc <;> simp only [State.main, hpc, reduceCtorEq] at hm
  case create => exact Option.some.inj hm ▸ .creates hpc
  case detach => exact Option.some.inj hm ▸ .goes _ (hpc ▸ .detach)
  case lockReady => exact acquireMain_move hm (hpc ▸ .lockReady)
  case testReady =>
    split_ifs at hm with hr
    · exact Option.some.inj hm ▸ .goes _ (hpc ▸ .ready hr)
    · exact releaseMain_move hm (hpc ▸ .waitReady (eq_false_of_ne_true hr))
  case relockReady => exact acquireMain_move hm (hpc ▸ .relockReady)
  case setContinue => exact Option.some.inj hm ▸ .continues hpc
  case signalContinue => exact Option.some.inj hm ▸ .signals hpc
  case unlockContinue => exact releaseMain_move hm (hpc ▸ .unlockContinue)
  case lockStop => exact acquireMain_move hm (hpc ▸ .lockStop)
  case testStop =>
    split_ifs at hm with hc
    · exact releaseMain_move hm (hpc ▸ .waitStop hc)
    · exact Option.some.inj hm ▸ .goes _ (hpc ▸ .stop (not_lt.mp hc))
  case relockStop => exact acquireMain_move hm (hpc ▸ .relockStop)
  case cancel => exact Option.some.inj hm ▸ .cancels hpc
  case unlockStop => exact releaseMain_move hm (hpc ▸ .unlockStop)
  case exiting => exact Option.some.inj hm ▸ .goes _ (hpc ▸ .exits)

theorem acquireT1_move {pc : T1Pc} (h : s.acquireT1 pc = some t) (hl : T1Locks s.t1 pc) :
    T1Move max s t := by
  obtain ⟨m, hm, rfl⟩ := Option.map_eq_some_iff.mp h
  obtain ⟨ho, rfl⟩ := acquire_eq_some.mp hm
  exact .locks pc hl ho

theorem releaseT1_move {pc : T1Pc} (h : s.releaseT1 pc = some t) (hl : T1Unlocks s s.t1 pc) :
    T1Move max s t := by
  obtain ⟨m, hm, rfl⟩ := Option.map_eq_some_iff.mp h
  obtain ⟨ho, rfl⟩ := release_eq_some.mp hm
  exact .unlocks pc hl ho

theorem threadFunction_move (hm : s.threadFunction max = some t) : T1Move max s t := by
  cases hpc : s.t1 <;> simp only [State.threadFunction, hpc, reduceCtorEq] at hm
  case printfStarted => exact Option.some.inj hm ▸ .goes _ (hpc ▸ .started)
  case lockReady => exact acquireT1_move hm (hpc ▸ .lockReady)
  case setReady => exact Option.some.inj hm ▸ .ready hpc
  case signalReady => exact Option.some.inj hm ▸ .signals _ (hpc ▸ .ready)
  case testContinue =>
    split_ifs at hm with hc
    · exact Option.some.inj hm ▸ .goes _ (hpc ▸ .continues hc)
    · exact releaseT1_move hm (hpc ▸ .waitContinue (eq_false_of_ne_true hc))
  case relockContinue => exact acquireT1_move hm (hpc ▸ .relockContinue)
  case unlockContinue => exact releaseT1_move hm (hpc ▸ .unlockContinue)
  case printfStarting => exact Option.some.inj hm ▸ .goes _ (hpc ▸ .starting)
  case lockCount i => exact acquireT1_move hm (hpc ▸ .lockCount i)
  case cleanupPush i => exact Option.some.inj hm ▸ .pushes i hpc
  case count i => exact Option.some.inj hm ▸ .counts i hpc
  case signalCount i => exact Option.some.inj hm ▸ .signals _ (hpc ▸ .count i)
  case unlockCount i => exact releaseT1_move hm (hpc ▸ .unlockCount i)
  case cleanupPop i => exact Option.some.inj hm ▸ .pops i hpc
  case testcancel i =>
    split_ifs at hm with hr
    · exact Option.some.inj hm ▸ .goes _ (hpc ▸ .cancelled i hr)
    · exact Option.some.inj hm ▸ .goes _ (hpc ▸ .again i (eq_false_of_ne_true hr))
  case printfEnded => exact Option.some.inj hm ▸ .goes _ (hpc ▸ .ended)
  case exiting => exact Option.some.inj hm ▸ .goes _ (hpc ▸ .exits)
  case relockCancel =>
    obtain ⟨m, ha, rfl⟩ := Option.map_eq_some_iff.mp hm
    obtain ⟨ho, rfl⟩ := acquire_eq_some.mp ha
    exact .relocksCancel hpc ho
  case handlers => exact Option.some.inj hm ▸ .handles hpc

theorem t1Cancelled_move (hm : s.t1Cancelled = some t) : T1Move max s t := by
  obtain ⟨hr, hm⟩ := Option.ite_none_right_eq_some.mp hm
  cases hpc : s.t1 <;> simp only [hpc, reduceCtorEq] at hm
  case testContinue =>
    split_ifs at hm
    exact Option.some.inj hm ▸ .cancelled hr (by simp [hpc])
  case waitContinue => exact Option.some.inj hm ▸ .cancelledWaiting hr hpc
  all_goals exact Option.some.inj hm ▸ .cancelled hr (by simp [hpc])

theorem next_move {a : Action} (hn : s.next stop max a = some t) :
    MainMove stop s t ∨ T1Move max s t := by
  cases a with
  | main => exact .inl (main_move hn)
  | t1 => exact .inr (threadFunction_move hn)
  | t1Cancelled => exact .inr (t1Cancelled_move hn)
  | spuriousMain =>
    obtain ⟨hpc | hpc, ht⟩ := Option.ite_none_right_eq_some.mp hn
    · simp only [State.wakeMain, hpc] at ht
      exact .inl (Option.some.inj ht ▸ .goes _ (hpc ▸ .spuriousReady))
    · simp only [State.wakeMain, hpc] at ht
      exact .inl (Option.some.inj ht ▸ .goes _ (hpc ▸ .spuriousStop))
  | spuriousT1 =>
    obtain ⟨hpc, ht⟩ := Option.ite_none_right_eq_some.mp hn
    exact .inr (Option.some.inj ht ▸ .goes _ (hpc ▸ .spurious))

end LinuxSystemProgramming.Cancellation
