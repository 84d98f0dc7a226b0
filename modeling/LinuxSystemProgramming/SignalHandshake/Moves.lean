import LinuxSystemProgramming.SignalHandshake.Programs

namespace LinuxSystemProgramming.SignalHandshake

open Signals Transition

inductive ParentHandles : Sig → ParentPc → ParentPc → Prop
  | usr1 : ParentHandles .usr1 .sigactionUsr1 .sigactionUsr2
  | usr2 : ParentHandles .usr2 .sigactionUsr2 .fork

inductive ParentSuspends : ParentPc → ParentPc → Prop
  | ready : ParentSuspends .suspendReady .suspendedReady
  | usr2 : ParentSuspends .suspendUsr2 .suspendedUsr2

inductive ParentResumes : ParentPc → ParentPc → Prop
  | ready : ParentResumes .returningReady .testReady
  | usr2 : ParentResumes .returningUsr2 .testUsr2

inductive ParentGoes (s : State) : ParentPc → ParentPc → Prop
  | ready (hf : s.childIsReady = true) : ParentGoes s .testReady .killChild
  | notReady (hf : s.childIsReady = false) : ParentGoes s .testReady .suspendReady
  | usr2 (hf : s.gotSigusr2 = true) : ParentGoes s .testUsr2 .waitpid
  | noUsr2 (hf : s.gotSigusr2 = false) : ParentGoes s .testUsr2 .suspendUsr2
  | waited (he : s.child.ended = true) : ParentGoes s .waitpid .exiting
  | exits : ParentGoes s .exiting (.exited 0)

inductive ParentMove (s : State) : State → Prop
  | blocks (hpc : s.parent = .sigprocmask) :
      ParentMove s { s with
        parentSig := s.parentSig.block (mask [.usr1, .usr2]), parent := .sigactionUsr1 }
  | handles (x : Sig) (pc : ParentPc) (hh : ParentHandles x s.parent pc) :
      ParentMove s { s with parentSig := s.parentSig.handle x, parent := pc }
  | forks (hpc : s.parent = .fork) :
      ParentMove s { s with parent := .testReady, child := .execl, childSig := s.parentSig.fork }
  | suspends (pc : ParentPc) (hs : ParentSuspends s.parent pc) :
      ParentMove s { s with parentSig := s.parentSig.suspend (mask []), parent := pc }
  | resumes (pc : ParentPc) (hr : ParentResumes s.parent pc) :
      ParentMove s { s with parentSig := s.parentSig.resume, parent := pc }
  | asks (hpc : s.parent = .killChild) :
      ParentMove s { s with
        childSig := s.childSig.send .usr1, asked := true, parent := .testUsr2 }
  | goes (pc : ParentPc) (hg : ParentGoes s s.parent pc) : ParentMove s (s.goto pc)
  | signalled (x : Sig) (he : s.parent.ended = false) (hd : s.parentSig.deliverable x = true)
      (hh : s.parentSig.handled x = true) :
      ParentMove s { s.parentHandler x with
        parentSig := s.parentSig.take x, parent := s.parent.wake }
  | dies (x : Sig) (he : s.parent.ended = false) (hd : s.parentSig.deliverable x = true)
      (hh : s.parentSig.handled x = false) :
      ParentMove s { s with parentSig := s.parentSig.take x, parent := .terminated x }

inductive ChildGoes (s : State) : ChildPc → ChildPc → Prop
  | asked (hf : s.gotSigusr1 = true) : ChildGoes s .testUsr1 .respond
  | notAsked (hf : s.gotSigusr1 = false) : ChildGoes s .testUsr1 .suspend
  | exits : ChildGoes s .exiting (.exited 0)
  | unnoticed : ChildGoes s .notify .testUsr1
  | execlFails : ChildGoes s .execl (.exited 1)
  | sigprocmaskFails : ChildGoes s .sigprocmask (.exited 1)
  | sigactionFails : ChildGoes s .sigaction (.exited 1)
  | respondFails : ChildGoes s .respond (.exited 1)
  | killed (pc : ChildPc) (he : pc.ended = false) (hnew : pc ≠ .notForked) :
      ChildGoes s pc .killed

inductive ChildMove (s : State) : State → Prop
  | execs (hpc : s.child = .execl) :
      ChildMove s { s with childSig := s.childSig.exec, child := .sigprocmask }
  | blocks (hpc : s.child = .sigprocmask) :
      ChildMove s { s with childSig := s.childSig.block (mask [.usr1]), child := .sigaction }
  | handles (hpc : s.child = .sigaction) :
      ChildMove s { s with childSig := s.childSig.handle .usr1, child := .notify }
  | notifies (hpc : s.child = .notify) :
      ChildMove s { s.signalParent .usr1 with notified := true, child := .testUsr1 }
  | suspends (hpc : s.child = .suspend) :
      ChildMove s { s with childSig := s.childSig.suspend (mask []), child := .suspended }
  | resumes (hpc : s.child = .returning) :
      ChildMove s { s with childSig := s.childSig.resume, child := .testUsr1 }
  | responds (hpc : s.child = .respond) :
      ChildMove s { s.signalParent .usr2 with responded := true, child := .exiting }
  | goes (pc : ChildPc) (hg : ChildGoes s s.child pc) : ChildMove s (s.gotoChild pc)
  | signalled (x : Sig) (he : s.child.ended = false) (hnew : s.child ≠ .notForked)
      (hd : s.childSig.deliverable x = true) (hh : s.childSig.handled x = true) :
      ChildMove s { s.childHandler x with childSig := s.childSig.take x, child := s.child.wake }
  | dies (x : Sig) (he : s.child.ended = false) (hnew : s.child ≠ .notForked)
      (hd : s.childSig.deliverable x = true) (hh : s.childSig.handled x = false) :
      ChildMove s { s with childSig := s.childSig.take x, child := .terminated x }

def Unaided : Action → Prop
  | .parent o => o = .run
  | .outsider _ => False
  | _ => True

def Orderly (s : State) : Action → Prop
  | .parent o => o = .run
  | .outsider _ => s.parent ≠ .sigprocmask
  | _ => True

variable {s t : State}

theorem parentRun_move (hn : s.parentRun = some t) : ParentMove s t := by
  unfold State.parentRun at hn
  cases hpc : s.parent <;> simp only [hpc, reduceCtorEq] at hn
  case sigprocmask => exact Option.some.inj hn ▸ .blocks hpc
  case sigactionUsr1 => exact Option.some.inj hn ▸ .handles .usr1 .sigactionUsr2 (hpc ▸ .usr1)
  case sigactionUsr2 => exact Option.some.inj hn ▸ .handles .usr2 .fork (hpc ▸ .usr2)
  case fork => exact Option.some.inj hn ▸ .forks hpc
  case testReady =>
    cases hf : s.childIsReady <;> rw [hf] at hn
    · exact Option.some.inj hn ▸ .goes .suspendReady (hpc ▸ .notReady hf)
    · exact Option.some.inj hn ▸ .goes .killChild (hpc ▸ .ready hf)
  case suspendReady => exact Option.some.inj hn ▸ .suspends .suspendedReady (hpc ▸ .ready)
  case returningReady => exact Option.some.inj hn ▸ .resumes .testReady (hpc ▸ .ready)
  case killChild => exact Option.some.inj hn ▸ .asks hpc
  case testUsr2 =>
    cases hf : s.gotSigusr2 <;> rw [hf] at hn
    · exact Option.some.inj hn ▸ .goes .suspendUsr2 (hpc ▸ .noUsr2 hf)
    · exact Option.some.inj hn ▸ .goes .waitpid (hpc ▸ .usr2 hf)
  case suspendUsr2 => exact Option.some.inj hn ▸ .suspends .suspendedUsr2 (hpc ▸ .usr2)
  case returningUsr2 => exact Option.some.inj hn ▸ .resumes .testUsr2 (hpc ▸ .usr2)
  case waitpid =>
    obtain ⟨he, ht⟩ := Option.ite_none_right_eq_some.mp hn
    exact Option.some.inj ht ▸ .goes .exiting (hpc ▸ .waited he)
  case exiting => exact Option.some.inj hn ▸ .goes (.exited 0) (hpc ▸ .exits)

theorem parentSignal_move {x : Sig} (hn : s.parentSignal x = some t) : ParentMove s t := by
  obtain ⟨⟨he, hd⟩, hn⟩ := Option.ite_none_right_eq_some.mp hn
  cases hh : s.parentSig.handled x <;> rw [hh] at hn
  · exact Option.some.inj hn ▸ .dies x he hd hh
  · exact Option.some.inj hn ▸ .signalled x he hd hh

theorem childRun_move (hn : s.childRun = some t) : ChildMove s t := by
  unfold State.childRun at hn
  cases hpc : s.child <;> simp only [hpc, reduceCtorEq] at hn
  case execl => exact Option.some.inj hn ▸ .execs hpc
  case sigprocmask => exact Option.some.inj hn ▸ .blocks hpc
  case sigaction => exact Option.some.inj hn ▸ .handles hpc
  case notify => exact Option.some.inj hn ▸ .notifies hpc
  case testUsr1 =>
    cases hf : s.gotSigusr1 <;> rw [hf] at hn
    · exact Option.some.inj hn ▸ .goes .suspend (hpc ▸ .notAsked hf)
    · exact Option.some.inj hn ▸ .goes .respond (hpc ▸ .asked hf)
  case suspend => exact Option.some.inj hn ▸ .suspends hpc
  case returning => exact Option.some.inj hn ▸ .resumes hpc
  case respond => exact Option.some.inj hn ▸ .responds hpc
  case exiting => exact Option.some.inj hn ▸ .goes (.exited 0) (hpc ▸ .exits)

theorem childFails_move (hn : s.child.fails.map s.gotoChild = some t) : ChildMove s t := by
  obtain ⟨pc, hpc, rfl⟩ := Option.map_eq_some_iff.mp hn
  apply ChildMove.goes
  generalize s.child = p at hpc
  cases p <;> simp only [ChildPc.fails, reduceCtorEq] at hpc
  case execl => exact Option.some.inj hpc ▸ .execlFails
  case sigprocmask => exact Option.some.inj hpc ▸ .sigprocmaskFails
  case sigaction => exact Option.some.inj hpc ▸ .sigactionFails
  case notify => exact Option.some.inj hpc ▸ .unnoticed
  case respond => exact Option.some.inj hpc ▸ .respondFails

theorem childSignal_move {x : Sig} (hn : s.childSignal x = some t) : ChildMove s t := by
  obtain ⟨⟨he, hnew, hd⟩, hn⟩ := Option.ite_none_right_eq_some.mp hn
  cases hh : s.childSig.handled x <;> rw [hh] at hn
  · exact Option.some.inj hn ▸ .dies x he hnew hd hh
  · exact Option.some.inj hn ▸ .signalled x he hnew hd hh

theorem unaided_move {a : Action} (hc : Unaided a) (hn : s.next a = some t) :
    ParentMove s t ∨ ChildMove s t := by
  cases a with
  | parent o =>
    cases hc
    exact .inl (parentRun_move hn)
  | parentSignal x => exact .inl (parentSignal_move hn)
  | child o =>
    cases o with
    | run => exact .inr (childRun_move hn)
    | fails => exact .inr (childFails_move hn)
  | childSignal x => exact .inr (childSignal_move hn)
  | childKilled =>
    obtain ⟨⟨he, hnew⟩, ht⟩ := Option.ite_none_right_eq_some.mp hn
    exact .inr (Option.some.inj ht ▸ .goes .killed (.killed _ he hnew))
  | outsider => exact hc.elim

theorem next_move {a : Action} (hc : Orderly s a) (hn : s.next a = some t) :
    ParentMove s t ∨ ChildMove s t ∨ (s.parent ≠ .sigprocmask ∧ ∃ x, t = s.signalParent x) := by
  have hmove (hu : Unaided a) : ParentMove s t ∨ ChildMove s t ∨
      (s.parent ≠ .sigprocmask ∧ ∃ x, t = s.signalParent x) := by
    rcases unaided_move hu hn with hm | hm
    · exact .inl hm
    · exact .inr (.inl hm)
  cases a with
  | outsider x => exact .inr (.inr ⟨hc, x, (Option.some.inj hn).symm⟩)
  | parent => exact hmove hc
  | _ => exact hmove trivial

end LinuxSystemProgramming.SignalHandshake
