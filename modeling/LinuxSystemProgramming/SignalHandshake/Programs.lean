import LinuxSystemProgramming.Lib.Signals
import LinuxSystemProgramming.Lib.Transition

/-!
The programs 9_3: the parent (`Program_1`) and the child, which goes on in `Program_2`. A step is one
system call with the code up to the next one, one test of a flag, or the delivery of a signal. A
delivery runs the handler, or ends the process where there is none; in `sigsuspend` it makes the
call return, and before the old mask is back another signal may follow. A signal goes to the parent
as long as it has not ended, and the end of the child (`SIGCHLD`) wakes nobody. Output has no step.
-/

namespace LinuxSystemProgramming.SignalHandshake

open Signals Transition

inductive Sig
  | usr1
  | usr2
  deriving DecidableEq

inductive ParentPc
  | sigprocmask
  | sigactionUsr1
  | sigactionUsr2
  | fork
  | testReady
  | suspendReady
  | suspendedReady
  | returningReady
  | killChild
  | testUsr2
  | suspendUsr2
  | suspendedUsr2
  | returningUsr2
  | waitpid
  | exiting
  | exited (status : ℕ)
  | terminated (x : Sig)
  deriving DecidableEq

inductive ChildPc
  | notForked
  | execl
  | sigprocmask
  | sigaction
  | notify
  | testUsr1
  | suspend
  | suspended
  | returning
  | respond
  | exiting
  | exited (status : ℕ)
  | killed
  | terminated (x : Sig)
  deriving DecidableEq

/-- `asked`, `notified` and `responded` record the successful `kill` calls: `SIGUSR1` to the child,
and `SIGUSR1` and `SIGUSR2` to the parent. -/
structure State where
  parent : ParentPc
  parentSig : SigState Sig
  childIsReady : Bool
  gotSigusr2 : Bool
  child : ChildPc
  childSig : SigState Sig
  gotSigusr1 : Bool
  asked : Bool
  notified : Bool
  responded : Bool

inductive Outcome
  | run
  | fails
  deriving DecidableEq

/-- `outsider` is a signal to the parent from neither of the two; `childKilled` ends the child where
it is. -/
inductive Action
  | parent (o : Outcome)
  | parentSignal (x : Sig)
  | child (o : Outcome)
  | childSignal (x : Sig)
  | childKilled
  | outsider (x : Sig)
  deriving DecidableEq

def ParentPc.ended : ParentPc → Bool
  | .exited _ | .terminated _ => true
  | _ => false

def ChildPc.ended : ChildPc → Bool
  | .exited _ | .killed | .terminated _ => true
  | _ => false

namespace ParentPc

def wake : ParentPc → ParentPc
  | .suspendedReady => .returningReady
  | .suspendedUsr2 => .returningUsr2
  | pc => pc

def fails : ParentPc → Option ParentPc
  | .sigprocmask | .sigactionUsr1 | .sigactionUsr2 | .fork | .killChild | .waitpid =>
      some (.exited 1)
  | _ => none

end ParentPc

namespace ChildPc

def wake : ChildPc → ChildPc
  | .suspended => .returning
  | pc => pc

-- The result of the first `kill` is not looked at.
def fails : ChildPc → Option ChildPc
  | .execl | .sigprocmask | .sigaction | .respond => some (.exited 1)
  | .notify => some .testUsr1
  | _ => none

end ChildPc

namespace State

def initial : State where
  parent := .sigprocmask
  parentSig := .initial
  childIsReady := false
  gotSigusr2 := false
  child := .notForked
  childSig := .initial
  gotSigusr1 := false
  asked := false
  notified := false
  responded := false

def goto (s : State) (pc : ParentPc) : State := { s with parent := pc }

def gotoChild (s : State) (pc : ChildPc) : State := { s with child := pc }

def signalParent (s : State) (x : Sig) : State :=
  if s.parent.ended then s else { s with parentSig := s.parentSig.send x }

def parentRun (s : State) : Option State :=
  match s.parent with
  | .sigprocmask => some { s with
      parentSig := s.parentSig.block (mask [.usr1, .usr2]), parent := .sigactionUsr1 }
  | .sigactionUsr1 => some { s with parentSig := s.parentSig.handle .usr1, parent := .sigactionUsr2 }
  | .sigactionUsr2 => some { s with parentSig := s.parentSig.handle .usr2, parent := .fork }
  | .fork => some { s with parent := .testReady, child := .execl, childSig := s.parentSig.fork }
  | .testReady => some (s.goto (if s.childIsReady then .killChild else .suspendReady))
  | .suspendReady => some { s with
      parentSig := s.parentSig.suspend (mask []), parent := .suspendedReady }
  | .suspendedReady => none
  | .returningReady => some { s with parentSig := s.parentSig.resume, parent := .testReady }
  | .killChild => some { s with
      childSig := s.childSig.send .usr1, asked := true, parent := .testUsr2 }
  | .testUsr2 => some (s.goto (if s.gotSigusr2 then .waitpid else .suspendUsr2))
  | .suspendUsr2 => some { s with
      parentSig := s.parentSig.suspend (mask []), parent := .suspendedUsr2 }
  | .suspendedUsr2 => none
  | .returningUsr2 => some { s with parentSig := s.parentSig.resume, parent := .testUsr2 }
  | .waitpid => if s.child.ended then some (s.goto .exiting) else none
  | .exiting => some (s.goto (.exited 0))
  | .exited _ => none
  | .terminated _ => none

def parentHandler (s : State) : Sig → State
  | .usr1 => { s with childIsReady := true }
  | .usr2 => { s with gotSigusr2 := true }

def parentSignal (s : State) (x : Sig) : Option State :=
  if s.parent.ended = false ∧ s.parentSig.deliverable x = true then
    if s.parentSig.handled x then
      some { s.parentHandler x with parentSig := s.parentSig.take x, parent := s.parent.wake }
    else some { s with parentSig := s.parentSig.take x, parent := .terminated x }
  else none

def childRun (s : State) : Option State :=
  match s.child with
  | .notForked => none
  | .execl => some { s with childSig := s.childSig.exec, child := .sigprocmask }
  | .sigprocmask => some { s with childSig := s.childSig.block (mask [.usr1]), child := .sigaction }
  | .sigaction => some { s with childSig := s.childSig.handle .usr1, child := .notify }
  | .notify => some { s.signalParent .usr1 with notified := true, child := .testUsr1 }
  | .testUsr1 => some (s.gotoChild (if s.gotSigusr1 then .respond else .suspend))
  | .suspend => some { s with childSig := s.childSig.suspend (mask []), child := .suspended }
  | .suspended => none
  | .returning => some { s with childSig := s.childSig.resume, child := .testUsr1 }
  | .respond => some { s.signalParent .usr2 with responded := true, child := .exiting }
  | .exiting => some (s.gotoChild (.exited 0))
  | .exited _ => none
  | .killed => none
  | .terminated _ => none

-- Before `execl` it is the handler of `Program_1`, on the child's own copies of the flags.
def childHandler (s : State) (x : Sig) : State :=
  if s.child = .execl then s
  else match x with
    | .usr1 => { s with gotSigusr1 := true }
    | .usr2 => s

def childSignal (s : State) (x : Sig) : Option State :=
  if s.child.ended = false ∧ s.child ≠ .notForked ∧ s.childSig.deliverable x = true then
    if s.childSig.handled x then
      some { s.childHandler x with childSig := s.childSig.take x, child := s.child.wake }
    else some { s with childSig := s.childSig.take x, child := .terminated x }
  else none

def next (s : State) : Action → Option State
  | .parent .run => s.parentRun
  | .parent .fails => s.parent.fails.map s.goto
  | .parentSignal x => s.parentSignal x
  | .child .run => s.childRun
  | .child .fails => s.child.fails.map s.gotoChild
  | .childSignal x => s.childSignal x
  | .childKilled =>
    if s.child.ended = false ∧ s.child ≠ .notForked then some (s.gotoChild .killed) else none
  | .outsider x => some (s.signalParent x)

end State

def handshake : System State Action where
  init s := s = State.initial
  next := State.next

end LinuxSystemProgramming.SignalHandshake
