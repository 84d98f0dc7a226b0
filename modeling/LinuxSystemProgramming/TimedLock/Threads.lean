import LinuxSystemProgramming.Lib.Mutex
import LinuxSystemProgramming.Lib.Transition
import Mathlib.Data.Nat.Basic

/-!
The program 10_6: t1 locks the mutex and loops for ever, t2 asks for it with
`pthread_mutex_timedlock`. The clock counts from the start and a second has `second` ticks.
-/

namespace LinuxSystemProgramming.TimedLock

open Transition

inductive Tid
  | t1
  | t2
  deriving DecidableEq

inductive Call
  | createT1
  | detachT1
  | createT2
  | detachT2
  deriving DecidableEq

def Call.msg : Call → String
  | .createT1 => "Error creating t1"
  | .detachT1 => "Error detaching t1"
  | .createT2 => "Error creating t2"
  | .detachT2 => "Error detaching t2"

def lockMsg : String := "--T2 : Error locking mutex"

def etimedout : ℕ := 110

def exitFailure : ℕ := 1

-- CHECK_ERR makes a call that has failed `again`, for the text of the error, and then exits.
inductive MainPc
  | call (c : Call)
  | again (c : Call)
  | dying
  | sleep
  | asleep (wake : ℕ)
  | exiting
  | ended
  deriving DecidableEq

def Call.after : Call → MainPc
  | .createT1 => .call .detachT1
  | .detachT1 => .sleep
  | .createT2 => .call .detachT2
  | .detachT2 => .exiting

-- `spin` is `while (1)`, in which t1 takes no step that anyone could see.
inductive T1Pc
  | notCreated
  | lock
  | spin
  deriving DecidableEq

inductive T2Pc
  | notCreated
  | getTime
  | timedlock (deadline : ℕ)
  | again (deadline : ℕ)
  | dying
  | unlock
  | exiting
  | ended
  deriving DecidableEq

/-- `errors` has the message of each line on stderr and the number whose text follows it. -/
structure State where
  main : MainPc
  t1 : T1Pc
  t2 : T2Pc
  owner : Option Tid
  clock : ℕ
  errors : List (String × ℕ)
  exited : Option ℕ

-- `main err` is a step of the main thread in which the call, if there is one, returns `err`.
inductive Action
  | main (err : ℕ)
  | t1
  | t2
  | tick
  deriving DecidableEq

namespace State

def initial : State where
  main := .call .createT1
  t1 := .notCreated
  t2 := .notCreated
  owner := none
  clock := 0
  errors := []
  exited := none

def called (s : State) : Call → State
  | .createT1 => { s with t1 := .lock }
  | .createT2 => { s with t2 := .getTime }
  | .detachT1 | .detachT2 => s

def report (s : State) (msg : String) (err : ℕ) : State :=
  { s with errors := s.errors ++ [(msg, err)] }

def runMain (second : ℕ) (s : State) (err : ℕ) : Option State :=
  match s.main with
  | .call c =>
    some (if err = 0 then { s.called c with main := c.after } else { s with main := .again c })
  | .again c =>
    some { (if err = 0 then s.called c else s).report c.msg err with main := .dying }
  | .dying => some { s with exited := some exitFailure }
  | .sleep => some { s with main := .asleep (s.clock + second) }
  | .asleep wake => if wake ≤ s.clock then some { s with main := .call .createT2 } else none
  | .exiting => some { s with main := .ended }
  | .ended => none

def threadFuncT1 (s : State) : Option State :=
  match s.t1 with
  | .lock => (Mutex.acquire s.owner .t1).map fun owner => { s with owner, t1 := .spin }
  | .notCreated | .spin => none

/-- A free mutex is taken even after the deadline; `none` while the call blocks. -/
def timedlock (s : State) (deadline : ℕ) : Option (Option Tid × ℕ) :=
  match Mutex.acquire s.owner .t2 with
  | some owner => some (owner, 0)
  | none => if deadline ≤ s.clock then some (s.owner, etimedout) else none

def threadFuncT2 (second : ℕ) (s : State) : Option State :=
  match s.t2 with
  | .getTime => some { s with t2 := .timedlock (s.clock + 2 * second) }
  | .timedlock deadline => (s.timedlock deadline).map fun (owner, err) =>
    { s with owner, t2 := if err = 0 then .unlock else .again deadline }
  | .again deadline => (s.timedlock deadline).map fun (owner, err) =>
    { s.report lockMsg err with owner, t2 := .dying }
  | .dying => some { s with exited := some exitFailure }
  | .unlock => (Mutex.release s.owner .t2).map fun owner => { s with owner, t2 := .exiting }
  | .exiting => some { s with t2 := .ended }
  | .notCreated | .ended => none

def next (second : ℕ) (s : State) (a : Action) : Option State :=
  match s.exited with
  | some _ => none
  | none =>
    match a with
    | .main err => s.runMain second err
    | .t1 => s.threadFuncT1
    | .t2 => s.threadFuncT2 second
    | .tick => some { s with clock := s.clock + 1 }

def idle (second : ℕ) (s : State) : Bool :=
  (s.runMain second 0).isNone && s.threadFuncT1.isNone && (s.threadFuncT2 second).isNone

end State

def system (second : ℕ) : System State Action where
  init s := s = State.initial
  next := State.next second

end LinuxSystemProgramming.TimedLock
