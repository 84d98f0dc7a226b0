import LinuxSystemProgramming.NamedSemaphore.Programs

namespace LinuxSystemProgramming.NamedSemaphore

open NamedObjects Semaphores

variable {V K : ℕ}

inductive P1Quiet (K : ℕ) : P1Pc → Attempt → P1Pc → Prop
  | openSem : P1Quiet K .openSem .fails (.openDoneCnt none)
  | openDoneCnt (sem : Option ℕ) : P1Quiet K (.openDoneCnt sem) .fails (.exited false)
  | wait (h : Handles) : P1Quiet K (.wait h) .fails (.critical h false)
  | post (h : Handles) (b : Bool) : P1Quiet K (.critical h b) .fails (.loop K h 0)
  | waitDoneCnt (h : Handles) (i : ℕ) : P1Quiet K (.waitDoneCnt h i) .fails (.exited false)
  | closeDoneCnt (h : Handles) (a : Attempt) : P1Quiet K (.closeDoneCnt h) a (.closeSem h)
  | closeSem (h : Handles) (a : Attempt) : P1Quiet K (.closeSem h) a .unlinkDoneCnt
  | unlinkDoneCnt : P1Quiet K .unlinkDoneCnt .fails .unlinkSem
  | unlinkSem : P1Quiet K .unlinkSem .fails (.exited true)
  | killed (pc : P1Pc) : P1Quiet K pc .killed .killed

inductive P1Move (V : ℕ) (s : State K) : Attempt → State K → Prop
  | opensSem (hpc : s.p1 = .openSem) :
      P1Move V s .run ((s.setSem (s.kernel.sem.openCreate (.init V)).1).goto
        (.openDoneCnt (some (s.kernel.sem.openCreate (.init V)).2)))
  | opensDoneCnt (sem : Option ℕ) (hpc : s.p1 = .openDoneCnt sem) :
      P1Move V s .run
        ((s.setDoneCnt (s.kernel.semDoneCnt.openCreate (.init semDoneCntInitialValue)).1).goto
          (.opened sem (some (s.kernel.semDoneCnt.openCreate (.init semDoneCntInitialValue)).2)))
  | enters (h : Handles) (x : Semaphore) (hpc : s.p1 = .wait h)
      (hw : (s.kernel.sem.object h.sem).wait = some x) :
      P1Move V s .run
        ((s.setSem (s.kernel.sem.modify h.sem (fun _ => x))).goto (.critical h true))
  | leaves (h : Handles) (b : Bool) (hpc : s.p1 = .critical h b) :
      P1Move V s .run ((s.semPost h).goto (.loop K h 0))
  | takes (h : Handles) (i : ℕ) (x : Semaphore) (hpc : s.p1 = .waitDoneCnt h i)
      (hw : (s.kernel.semDoneCnt.object h.semDoneCnt).wait = some x) :
      P1Move V s .run ((s.setDoneCnt (s.kernel.semDoneCnt.modify h.semDoneCnt (fun _ => x))).goto
        (.loop K h (i + 1)))
  | unlinksDoneCnt (hpc : s.p1 = .unlinkDoneCnt) :
      P1Move V s .run ((s.setDoneCnt s.kernel.semDoneCnt.unlink).goto .unlinkSem)
  | unlinksSem (hpc : s.p1 = .unlinkSem) :
      P1Move V s .run ((s.setSem s.kernel.sem.unlink).goto (.exited true))
  | quiet (a : Attempt) (pc : P1Pc) (hq : P1Quiet K s.p1 a pc) : P1Move V s a (s.goto pc)

theorem P1Pc.opened_none (sem : Option ℕ) : P1Pc.opened sem none = .exited false := by
  cases sem <;> rfl

theorem p1_move {s t : State K} {a : Attempt} (hm : s.p1Main V a = some t) : P1Move V s a t := by
  cases hpc : s.p1 <;> cases a <;> simp only [State.p1Main, hpc, reduceCtorEq] at hm
  case openSem.run => exact Option.some.inj hm ▸ .opensSem hpc
  case openDoneCnt.run sem => exact Option.some.inj hm ▸ .opensDoneCnt sem hpc
  case wait.run h =>
    obtain ⟨u, hu, rfl⟩ := Option.map_eq_some_iff.mp hm
    obtain ⟨x, hw, rfl⟩ := Option.map_eq_some_iff.mp hu
    exact .enters h x hpc hw
  case critical.run h b => exact Option.some.inj hm ▸ .leaves h b hpc
  case waitDoneCnt.run h i =>
    obtain ⟨u, hu, rfl⟩ := Option.map_eq_some_iff.mp hm
    obtain ⟨x, hw, rfl⟩ := Option.map_eq_some_iff.mp hu
    exact .takes h i x hpc hw
  case unlinkDoneCnt.run => exact Option.some.inj hm ▸ .unlinksDoneCnt hpc
  case unlinkSem.run => exact Option.some.inj hm ▸ .unlinksSem hpc
  case openDoneCnt.fails sem =>
    rw [P1Pc.opened_none] at hm
    exact Option.some.inj hm ▸ .quiet _ _ (hpc ▸ .openDoneCnt sem)
  all_goals exact Option.some.inj hm ▸ .quiet _ _ (hpc ▸ by constructor)

inductive JoinerQuiet (k : Kernel) : JoinerPc → Attempt → JoinerPc → Prop
  | openSem : JoinerQuiet k .openSem .run (.openDoneCnt k.sem.named)
  | openDoneCnt (sem : Option ℕ) :
      JoinerQuiet k (.openDoneCnt sem) .run (.opened sem k.semDoneCnt.named)
  | noSem : JoinerQuiet k .openSem .fails (.openDoneCnt none)
  | noDoneCnt (sem : Option ℕ) : JoinerQuiet k (.openDoneCnt sem) .fails (.exited false)
  | wait (h : Handles) : JoinerQuiet k (.wait h) .fails (.critical h false)
  | post (h : Handles) (b : Bool) : JoinerQuiet k (.critical h b) .fails (.postDoneCnt h)
  | postDoneCnt (h : Handles) : JoinerQuiet k (.postDoneCnt h) .fails (.closeDoneCnt h)
  | closeDoneCnt (h : Handles) (a : Attempt) : JoinerQuiet k (.closeDoneCnt h) a (.closeSem h)
  | closeSem (h : Handles) (a : Attempt) : JoinerQuiet k (.closeSem h) a (.exited true)
  | killed (pc : JoinerPc) : JoinerQuiet k pc .killed .killed

inductive JoinerMove (s : State K) (i : Fin K) : Attempt → State K → Prop
  | enters (h : Handles) (x : Semaphore) (hpc : s.joiners i = .wait h)
      (hw : (s.kernel.sem.object h.sem).wait = some x) :
      JoinerMove s i .run
        ((s.setSem (s.kernel.sem.modify h.sem (fun _ => x))).setJoiner i (.critical h true))
  | leaves (h : Handles) (b : Bool) (hpc : s.joiners i = .critical h b) :
      JoinerMove s i .run ((s.semPost h).setJoiner i (.postDoneCnt h))
  | posts (h : Handles) (hpc : s.joiners i = .postDoneCnt h) :
      JoinerMove s i .run ((s.postDoneCnt h i).setJoiner i (.closeDoneCnt h))
  | quiet (a : Attempt) (pc : JoinerPc) (hq : JoinerQuiet s.kernel (s.joiners i) a pc) :
      JoinerMove s i a (s.setJoiner i pc)

theorem JoinerPc.opened_none (sem : Option ℕ) : JoinerPc.opened sem none = .exited false := by
  cases sem <;> rfl

theorem joiner_move {s t : State K} {i : Fin K} {a : Attempt}
    (hm : s.joinerMain i a = some t) : JoinerMove s i a t := by
  cases hpc : s.joiners i <;> cases a <;> simp only [State.joinerMain, hpc, reduceCtorEq] at hm
  case wait.run h =>
    obtain ⟨u, hu, rfl⟩ := Option.map_eq_some_iff.mp hm
    obtain ⟨x, hw, rfl⟩ := Option.map_eq_some_iff.mp hu
    exact .enters h x hpc hw
  case critical.run h b => exact Option.some.inj hm ▸ .leaves h b hpc
  case postDoneCnt.run h => exact Option.some.inj hm ▸ .posts h hpc
  case openDoneCnt.fails sem =>
    rw [JoinerPc.opened_none] at hm
    exact Option.some.inj hm ▸ .quiet _ _ (hpc ▸ .noDoneCnt sem)
  all_goals exact Option.some.inj hm ▸ .quiet _ _ (hpc ▸ by constructor)

end LinuxSystemProgramming.NamedSemaphore
