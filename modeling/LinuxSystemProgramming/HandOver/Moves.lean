import LinuxSystemProgramming.HandOver.Threads

namespace LinuxSystemProgramming.HandOver

open Mutex Transition

inductive MainInits : Object → MainPc → MainPc → Prop
  | mutex : MainInits .mutex .initMutex .initCondFromMain
  | condFromMain : MainInits .condFromMain .initCondFromMain .initCondFromT1
  | condFromT1 : MainInits .condFromT1 .initCondFromT1 .initFields

inductive MainLocks : MainPc → MainPc → Prop
  | lock : MainLocks .lock .testReady
  | relockReady : MainLocks .relockReady .testReady

inductive MainUnlocks : MainPc → MainPc → Prop
  | waitReady : MainUnlocks .waitReady .waitingReady
  | unlock : MainUnlocks .unlock .forget

inductive MainGoes (s : State) : MainPc → MainPc → Prop
  | detach : MainGoes s .detach .lock
  | ready (hr : s.data.t1Ready = true) : MainGoes s .testReady .setProceed
  | notReady (hr : s.data.t1Ready = false) : MainGoes s .testReady .waitReady
  | forget : MainGoes s .forget .exiting
  | exits : MainGoes s .exiting .terminated
  | spurious : MainGoes s .waitingReady .relockReady

inductive MainMove (s : State) : State → Prop
  | mallocs (hpc : s.mainPc = .malloc) :
      MainMove s { s with allocated := true, mainPc := .initMutex }
  | fails (hpc : s.mainPc = .malloc) : MainMove s (s.goto .failed)
  | inits (o : Object) (pc : MainPc) (hi : MainInits o s.mainPc pc) :
      MainMove s ((s.initObject o).goto pc)
  | fills (hpc : s.mainPc = .initFields) :
      MainMove s { s with data := ⟨s.data.mutex, false, false, false, 42⟩, mainPc := .create }
  | creates (hpc : s.mainPc = .create) : MainMove s { s with t1 := .started, mainPc := .detach }
  | locks (pc : MainPc) (hl : MainLocks s.mainPc pc) (ho : s.data.mutex = none) :
      MainMove s ((s.setMutex (some .main)).goto pc)
  | unlocks (pc : MainPc) (hl : MainUnlocks s.mainPc pc) (ho : s.data.mutex = some .main) :
      MainMove s ((s.setMutex none).goto pc)
  | proceeds (hpc : s.mainPc = .setProceed) :
      MainMove s { s with data := s.data.set .t1ToProceed, mainPc := .signalProceed }
  | signals (hpc : s.mainPc = .signalProceed) :
      MainMove s { s with t1 := s.t1.wake .condFromMain, mainPc := .unlock }
  | goes (pc : MainPc) (hg : MainGoes s s.mainPc pc) : MainMove s (s.goto pc)

inductive T1Locks : T1Pc → T1Pc → Prop
  | lock : T1Locks .lock .setReady
  | relockProceed : T1Locks .relockProceed .testProceed

inductive T1Unlocks : T1Pc → T1Pc → Prop
  | waitProceed : T1Unlocks .waitProceed .waitingProceed
  | unlock : T1Unlocks .unlock .received

inductive T1Destroys : Object → T1Pc → T1Pc → Prop
  | mutex : T1Destroys .mutex .destroyMutex .destroyCondFromMain
  | condFromMain : T1Destroys .condFromMain .destroyCondFromMain .destroyCondFromT1
  | condFromT1 : T1Destroys .condFromT1 .destroyCondFromT1 .free

inductive T1Goes (s : State) : T1Pc → T1Pc → Prop
  | started : T1Goes s .started .lock
  | proceeds (hp : s.data.t1ToProceed = true) : T1Goes s .testProceed .unlock
  | notYet (hp : s.data.t1ToProceed = false) : T1Goes s .testProceed .waitProceed
  | received : T1Goes s .received .printArg
  | workDone : T1Goes s .workDone .destroyMutex
  | exits : T1Goes s .exiting .terminated
  | spurious : T1Goes s .waitingProceed .relockProceed

inductive T1Move (s : State) : State → Prop
  | locks (pc : T1Pc) (hl : T1Locks s.t1 pc) (ho : s.data.mutex = none) :
      T1Move s ((s.setMutex (some .t1)).gotoT1 pc)
  | unlocks (pc : T1Pc) (hl : T1Unlocks s.t1 pc) (ho : s.data.mutex = some .t1) :
      T1Move s ((s.setMutex none).gotoT1 pc)
  | ready (hpc : s.t1 = .setReady) :
      T1Move s { s with data := s.data.set .t1Ready, t1 := .signalReady }
  | signals (hpc : s.t1 = .signalReady) :
      T1Move s { s with mainPc := s.mainPc.wake .condFromT1, t1 := .testProceed }
  | prints (hpc : s.t1 = .printArg) :
      T1Move s { s with printed := s.printed ++ [s.data.arg], t1 := .workDone }
  | destroys (o : Object) (pc : T1Pc) (hd : T1Destroys o s.t1 pc) :
      T1Move s { s with live := Function.update s.live o false
                        destroys := Function.update s.destroys o (s.destroys o + 1), t1 := pc }
  | frees (hpc : s.t1 = .free) :
      T1Move s { s with allocated := false, frees := s.frees + 1, t1 := .exiting }
  | goes (pc : T1Pc) (hg : T1Goes s s.t1 pc) : T1Move s (s.gotoT1 pc)

variable {s t : State}

theorem acquire_exec {τ : Tid} {f : State → State}
    (h : ((acquire s.data.mutex τ).map s.setMutex).map f = some t) :
    s.data.mutex = none ∧ t = f (s.setMutex (some τ)) := by
  obtain ⟨u, hu, rfl⟩ := Option.map_eq_some_iff.mp h
  obtain ⟨m, hm, rfl⟩ := Option.map_eq_some_iff.mp hu
  obtain ⟨ho, rfl⟩ := acquire_eq_some.mp hm
  exact ⟨ho, rfl⟩

theorem release_exec {τ : Tid} {f : State → State}
    (h : ((release s.data.mutex τ).map s.setMutex).map f = some t) :
    s.data.mutex = some τ ∧ t = f (s.setMutex none) := by
  obtain ⟨u, hu, rfl⟩ := Option.map_eq_some_iff.mp h
  obtain ⟨m, hm, rfl⟩ := Option.map_eq_some_iff.mp hu
  obtain ⟨ho, rfl⟩ := release_eq_some.mp hm
  exact ⟨ho, rfl⟩

theorem main_move (hm : s.main = some t) : MainMove s t := by
  unfold State.main at hm
  cases hpc : s.mainPc <;> rw [hpc] at hm
  case malloc => exact Option.some.inj hm ▸ .mallocs hpc
  case initMutex => exact Option.some.inj hm ▸ .inits .mutex .initCondFromMain (hpc ▸ .mutex)
  case initCondFromMain =>
    exact Option.some.inj hm ▸ .inits .condFromMain .initCondFromT1 (hpc ▸ .condFromMain)
  case initCondFromT1 => exact Option.some.inj hm ▸ .inits .condFromT1 .initFields (hpc ▸ .condFromT1)
  case initFields => exact Option.some.inj hm ▸ .fills hpc
  case create => exact Option.some.inj hm ▸ .creates hpc
  case detach => exact Option.some.inj hm ▸ .goes .lock (hpc ▸ .detach)
  case lock =>
    obtain ⟨ho, rfl⟩ := acquire_exec hm
    exact .locks .testReady (hpc ▸ .lock) ho
  case testReady =>
    cases hr : s.data.t1Ready <;>
      simp only [MainPc.op, MainPc.next, State.exec, SharedData.get, hr, Option.map_some] at hm
    · exact Option.some.inj hm ▸ .goes _ (hpc ▸ .notReady hr)
    · exact Option.some.inj hm ▸ .goes _ (hpc ▸ .ready hr)
  case waitReady =>
    obtain ⟨ho, rfl⟩ := release_exec hm
    exact .unlocks .waitingReady (hpc ▸ .waitReady) ho
  case relockReady =>
    obtain ⟨ho, rfl⟩ := acquire_exec hm
    exact .locks .testReady (hpc ▸ .relockReady) ho
  case setProceed => exact Option.some.inj hm ▸ .proceeds hpc
  case signalProceed => exact Option.some.inj hm ▸ .signals hpc
  case unlock =>
    obtain ⟨ho, rfl⟩ := release_exec hm
    exact .unlocks .forget (hpc ▸ .unlock) ho
  case forget => exact Option.some.inj hm ▸ .goes .exiting (hpc ▸ .forget)
  case exiting => exact Option.some.inj hm ▸ .goes .terminated (hpc ▸ .exits)
  case waitingReady | terminated | failed => cases hm

theorem threadFunction_move (hm : s.threadFunction = some t) : T1Move s t := by
  unfold State.threadFunction at hm
  cases hpc : s.t1 <;> rw [hpc] at hm
  case started => exact Option.some.inj hm ▸ .goes .lock (hpc ▸ .started)
  case lock =>
    obtain ⟨ho, rfl⟩ := acquire_exec hm
    exact .locks .setReady (hpc ▸ .lock) ho
  case setReady => exact Option.some.inj hm ▸ .ready hpc
  case signalReady => exact Option.some.inj hm ▸ .signals hpc
  case testProceed =>
    cases hp : s.data.t1ToProceed <;>
      simp only [T1Pc.op, T1Pc.next, State.exec, SharedData.get, hp, Option.map_some] at hm
    · exact Option.some.inj hm ▸ .goes _ (hpc ▸ .notYet hp)
    · exact Option.some.inj hm ▸ .goes _ (hpc ▸ .proceeds hp)
  case waitProceed =>
    obtain ⟨ho, rfl⟩ := release_exec hm
    exact .unlocks .waitingProceed (hpc ▸ .waitProceed) ho
  case relockProceed =>
    obtain ⟨ho, rfl⟩ := acquire_exec hm
    exact .locks .testProceed (hpc ▸ .relockProceed) ho
  case unlock =>
    obtain ⟨ho, rfl⟩ := release_exec hm
    exact .unlocks .received (hpc ▸ .unlock) ho
  case received => exact Option.some.inj hm ▸ .goes .printArg (hpc ▸ .received)
  case printArg => exact Option.some.inj hm ▸ .prints hpc
  case workDone => exact Option.some.inj hm ▸ .goes .destroyMutex (hpc ▸ .workDone)
  case destroyMutex => exact Option.some.inj hm ▸ .destroys .mutex .destroyCondFromMain (hpc ▸ .mutex)
  case destroyCondFromMain =>
    exact Option.some.inj hm ▸ .destroys .condFromMain .destroyCondFromT1 (hpc ▸ .condFromMain)
  case destroyCondFromT1 => exact Option.some.inj hm ▸ .destroys .condFromT1 .free (hpc ▸ .condFromT1)
  case free => exact Option.some.inj hm ▸ .frees hpc
  case exiting => exact Option.some.inj hm ▸ .goes .terminated (hpc ▸ .exits)
  case notCreated | waitingProceed | terminated => cases hm

theorem next_move {a : Action} (hn : s.next a = some t) : MainMove s t ∨ T1Move s t := by
  cases a with
  | main => exact .inl (main_move hn)
  | t1 => exact .inr (threadFunction_move hn)
  | mallocFails =>
    obtain ⟨hpc, ht⟩ := Option.ite_none_right_eq_some.mp hn
    exact .inl (Option.some.inj ht ▸ .fails hpc)
  | spuriousMain =>
    obtain ⟨hpc, ht⟩ := Option.ite_none_right_eq_some.mp hn
    exact .inl (Option.some.inj ht ▸ .goes _ (hpc ▸ .spurious))
  | spuriousT1 =>
    obtain ⟨hpc, ht⟩ := Option.ite_none_right_eq_some.mp hn
    exact .inr (Option.some.inj ht ▸ .goes _ (hpc ▸ .spurious))

end LinuxSystemProgramming.HandOver
