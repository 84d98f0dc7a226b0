import LinuxSystemProgramming.Lib.Children
import LinuxSystemProgramming.Lib.Transition

/-!
The program 7_5: the parent forks two children, polls them with `WNOHANG` and sleeps between two polls.
A process is at a point of `main`, the same program for the parent and the children. A child may end at
any time, by its `exit` or by a signal.
-/

namespace LinuxSystemProgramming.ChildMonitor

open Children Transition

inductive Name
  | c1
  | c2
  deriving DecidableEq

instance : Fintype Name where
  elems := {.c1, .c2}
  complete c := by cases c <;> decide

inductive Pc
  | fork1
  | fork2
  | c1
  | c2
  | whileHead
  | waitpid
  | sleep
  | exited (status : ℕ)
  deriving DecidableEq

inductive ForkResult
  | failed
  | child
  | parent
  deriving DecidableEq

def switch1 : ForkResult → Pc
  | .failed => .exited 255
  | .child => .c1
  | .parent => .fork2

-- No `break` ends `case -1`.
def switch2 : ForkResult → Pc
  | .failed => .c2
  | .child => .c2
  | .parent => .whileHead

inductive Report
  | stillActive (count : ℕ)
  | reaped (child : Name) (status count : ℕ)
  deriving DecidableEq

structure State where
  parent : Pc
  countActiveChilds : ℕ
  child : Name → Life Pc
  reports : List Report

def Pc.exitCode : Pc → Option ℕ
  | .c1 => some 2
  | .c2 => some 1
  | _ => none

inductive Action
  | fork (ok : Bool)
  | run
  | waitpid (r : WaitResult Name)
  | childExits (c : Name)
  | childKilled (c : Name) (signal : ℕ)
  deriving DecidableEq

namespace State

def initial : State where
  parent := .fork1
  countActiveChilds := 0
  child _ := .notCreated
  reports := []

def fork (s : State) (c : Name) (switch : ForkResult → Pc) (ok : Bool) : State :=
  if ok then
    { s with
      parent := switch .parent, countActiveChilds := s.countActiveChilds + 1,
      child := Function.update s.child c (.running (switch .child)) }
  else { s with parent := switch .failed }

def waited (s : State) : WaitResult Name → State
  | .failed => { s with parent := .exited 255 }
  | .none => { s with parent := .sleep, reports := s.reports ++ [.stillActive s.countActiveChilds] }
  | .child c status =>
    { s with
      parent := .whileHead, countActiveChilds := s.countActiveChilds - 1,
      child := Function.update s.child c .reaped,
      reports := s.reports ++ [.reaped c status (s.countActiveChilds - 1)] }

def run (s : State) : Option State :=
  match s.parent with
  | .c1 | .c2 => s.parent.exitCode.map (fun code => { s with parent := .exited code })
  | .whileHead =>
    some { s with parent := if s.countActiveChilds ≠ 0 then .waitpid else .exited 0 }
  | .sleep => some { s with parent := .whileHead }
  | _ => none

def ends (s : State) (c : Name) (status : ℕ) : State :=
  { s with child := Function.update s.child c (.zombie status) }

def next (s : State) : Action → Option State
  | .fork ok =>
    match s.parent with
    | .fork1 => some (s.fork .c1 switch1 ok)
    | .fork2 => some (s.fork .c2 switch2 ok)
    | _ => none
  | .run => s.run
  | .waitpid r => if s.parent = .waitpid ∧ Waits s.child r then some (s.waited r) else none
  | .childExits c =>
    match s.child c with
    | .running pc => pc.exitCode.map (fun code => s.ends c (code * 256))
    | _ => none
  | .childKilled c signal =>
    match s.child c with
    | .running _ => some (s.ends c signal)
    | _ => none

end State

def monitor : System State Action where
  init s := s = State.initial
  next := State.next

end LinuxSystemProgramming.ChildMonitor
