import LinuxSystemProgramming.Lib.Mutex
import LinuxSystemProgramming.Lib.Transition

/-!
The program 10_5: `main` and the detached thread `t1`, which counts to `MAX_COUNT` and is cancelled
once `counter` has reached `COUNT_TO_STOP`. A step is one `pthread` call with the code up to the next
one, or one test or update of shared data. A signal wakes the one thread that waits and is lost where
none does. A cancel request stays pending until `t1` acts on it, which it may at a `printf` or in
`pthread_cond_wait` and does at `pthread_testcancel`: it then runs its cleanup handlers, after it
has taken the mutex again if it was waiting. No call fails; the output of `main` has no step.
-/

namespace LinuxSystemProgramming.Cancellation

open Mutex Transition

def maxCount : ℕ := 150

def countToStop : ℕ := 50

inductive Tid
  | main
  | t1
  deriving DecidableEq

inductive MainPc
  | create
  | detach
  | lockReady
  | testReady
  | waitReady
  | relockReady
  | setContinue
  | signalContinue
  | unlockContinue
  | lockStop
  | testStop
  | waitStop
  | relockStop
  | cancel
  | unlockStop
  | exiting
  | terminated
  deriving DecidableEq

/-- From `lockCount` to `testcancel` the thread is in the round `i` of its loop; `handlers` and
`relockCancel` are the ways out of it, `pthread_exit` and a cancel request. -/
inductive T1Pc
  | notCreated
  | printfStarted
  | lockReady
  | setReady
  | signalReady
  | testContinue
  | waitContinue
  | relockContinue
  | unlockContinue
  | printfStarting
  | lockCount (i : ℕ)
  | cleanupPush (i : ℕ)
  | count (i : ℕ)
  | signalCount (i : ℕ)
  | unlockCount (i : ℕ)
  | cleanupPop (i : ℕ)
  | testcancel (i : ℕ)
  | printfEnded
  | exiting
  | relockCancel
  | handlers
  | terminated
  deriving DecidableEq

/-- `handlers` is the number of times `cleanup_mutex` is registered; `badUnlock` records that it
has unlocked a mutex that `t1` did not hold. -/
structure State where
  mainPc : MainPc
  t1 : T1Pc
  mutex : Option Tid
  t1Ready : Bool
  t1ToContinue : Bool
  counter : ℕ
  cancelRequested : Bool
  handlers : ℕ
  badUnlock : Bool
  deriving DecidableEq

/-- `t1Cancelled` is `t1` acting on a request where it need not. -/
inductive Action
  | main
  | t1
  | t1Cancelled
  | spuriousMain
  | spuriousT1
  deriving DecidableEq

namespace State

def initial : State where
  mainPc := .create
  t1 := .notCreated
  mutex := none
  t1Ready := false
  t1ToContinue := false
  counter := 0
  cancelRequested := false
  handlers := 0
  badUnlock := false

def goto (s : State) (pc : MainPc) : State := { s with mainPc := pc }

def gotoT1 (s : State) (pc : T1Pc) : State := { s with t1 := pc }

def acquireMain (s : State) (pc : MainPc) : Option State :=
  (acquire s.mutex .main).map (fun m => { s with mutex := m, mainPc := pc })

def releaseMain (s : State) (pc : MainPc) : Option State :=
  (release s.mutex .main).map (fun m => { s with mutex := m, mainPc := pc })

def acquireT1 (s : State) (pc : T1Pc) : Option State :=
  (acquire s.mutex .t1).map (fun m => { s with mutex := m, t1 := pc })

def releaseT1 (s : State) (pc : T1Pc) : Option State :=
  (release s.mutex .t1).map (fun m => { s with mutex := m, t1 := pc })

-- Both waits of `main` are on `cond_from_t1`.
def wakeMain (s : State) : MainPc :=
  match s.mainPc with
  | .waitReady => .relockReady
  | .waitStop => .relockStop
  | pc => pc

def wakeT1 (s : State) : T1Pc := if s.t1 = .waitContinue then .relockContinue else s.t1

def main (stop : ℕ) (s : State) : Option State :=
  match s.mainPc with
  | .create => some { s with t1 := .printfStarted, mainPc := .detach }
  | .detach => some (s.goto .lockReady)
  | .lockReady => s.acquireMain .testReady
  | .testReady => if s.t1Ready then some (s.goto .setContinue) else s.releaseMain .waitReady
  | .waitReady => none
  | .relockReady => s.acquireMain .testReady
  | .setContinue => some { s with t1ToContinue := true, mainPc := .signalContinue }
  | .signalContinue => some { s with t1 := s.wakeT1, mainPc := .unlockContinue }
  | .unlockContinue => s.releaseMain .lockStop
  | .lockStop => s.acquireMain .testStop
  | .testStop => if s.counter < stop then s.releaseMain .waitStop else some (s.goto .cancel)
  | .waitStop => none
  | .relockStop => s.acquireMain .testStop
  | .cancel => some { s with cancelRequested := true, mainPc := .unlockStop }
  | .unlockStop => s.releaseMain .exiting
  | .exiting => some (s.goto .terminated)
  | .terminated => none

end State

def T1Pc.loop (max i : ℕ) : T1Pc := if i < max then .lockCount i else .printfEnded

namespace State

def cleanupMutex (s : State) : State :=
  match release s.mutex .t1 with
  | some m => { s with mutex := m }
  | none => { s with badUnlock := true }

def runHandlers (s : State) : State :=
  match s.handlers with
  | 0 => s.gotoT1 .terminated
  | n + 1 => { s.cleanupMutex with handlers := n }

def threadFunction (max : ℕ) (s : State) : Option State :=
  match s.t1 with
  | .notCreated => none
  | .printfStarted => some (s.gotoT1 .lockReady)
  | .lockReady => s.acquireT1 .setReady
  | .setReady => some { s with t1Ready := true, t1 := .signalReady }
  | .signalReady => some { s with mainPc := s.wakeMain, t1 := .testContinue }
  | .testContinue =>
    if s.t1ToContinue then some (s.gotoT1 .unlockContinue) else s.releaseT1 .waitContinue
  | .waitContinue => none
  | .relockContinue => s.acquireT1 .testContinue
  | .unlockContinue => s.releaseT1 .printfStarting
  | .printfStarting => some (s.gotoT1 (.loop max 0))
  | .lockCount i => s.acquireT1 (.cleanupPush i)
  | .cleanupPush i => some { s with handlers := s.handlers + 1, t1 := .count i }
  | .count i => some { s with counter := s.counter + 1, t1 := .signalCount i }
  | .signalCount i => some { s with mainPc := s.wakeMain, t1 := .unlockCount i }
  | .unlockCount i => s.releaseT1 (.cleanupPop i)
  | .cleanupPop i => some { s with handlers := s.handlers - 1, t1 := .testcancel i }
  | .testcancel i => some (s.gotoT1 (if s.cancelRequested then .handlers else .loop max (i + 1)))
  | .printfEnded => some (s.gotoT1 .exiting)
  | .exiting => some (s.gotoT1 .handlers)
  | .relockCancel => s.acquireT1 .handlers
  | .handlers => some s.runHandlers
  | .terminated => none

def t1Cancelled (s : State) : Option State :=
  if s.cancelRequested then
    match s.t1 with
    | .printfStarted | .printfStarting | .printfEnded => some (s.gotoT1 .handlers)
    | .testContinue => if s.t1ToContinue then none else some (s.gotoT1 .handlers)
    | .waitContinue => some (s.gotoT1 .relockCancel)
    | _ => none
  else none

def next (stop max : ℕ) (s : State) : Action → Option State
  | .main => s.main stop
  | .t1 => s.threadFunction max
  | .t1Cancelled => s.t1Cancelled
  | .spuriousMain =>
    if s.mainPc = .waitReady ∨ s.mainPc = .waitStop then some (s.goto s.wakeMain) else none
  | .spuriousT1 => if s.t1 = .waitContinue then some (s.gotoT1 .relockContinue) else none

end State

def cancelling (stop max : ℕ) : System State Action where
  init s := s = State.initial
  next := State.next stop max

end LinuxSystemProgramming.Cancellation
