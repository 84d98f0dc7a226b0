import LinuxSystemProgramming.Lib.Mutex
import LinuxSystemProgramming.Lib.Transition
import Mathlib.Logic.Function.Basic

/-!
The program 10_7: `main` makes a block on the heap with a mutex and two condition variables, hands
it over to the detached thread `t1` and forgets it; `t1` destroys and frees it. Each program point
has one operation on the block and one successor. A signal wakes the thread that waits and is lost
where none does. `malloc` may fail, `pthread` calls do not.
-/

namespace LinuxSystemProgramming.HandOver

open Mutex Transition

inductive Tid
  | main
  | t1
  deriving DecidableEq

inductive Object
  | mutex
  | condFromMain
  | condFromT1
  deriving DecidableEq

inductive Flag
  | t1Ready
  | t1ToProceed
  deriving DecidableEq

structure SharedData where
  mutex : Option Tid
  t1Ready : Bool
  t1ToProceed : Bool
  t1Done : Bool
  arg : ℤ
  deriving DecidableEq

def SharedData.get (d : SharedData) : Flag → Bool
  | .t1Ready => d.t1Ready
  | .t1ToProceed => d.t1ToProceed

def SharedData.set (d : SharedData) : Flag → SharedData
  | .t1Ready => { d with t1Ready := true }
  | .t1ToProceed => { d with t1ToProceed := true }

/-- A `pthread_cond_wait` is `wait`, then `blocked` until a wake-up, then `relock`. -/
inductive Op
  | malloc
  | init (o : Object)
  | initFields
  | create
  | lock
  | unlock
  | wait (c : Object)
  | blocked (c : Object)
  | relock (c : Object)
  | signal (c : Object)
  | load (f : Flag)
  | store (f : Flag)
  | loadArg
  | destroy (o : Object)
  | free
  | skip
  | ended
  deriving DecidableEq

namespace Op

def objects : Op → List Object
  | .lock | .unlock => [.mutex]
  | .wait c | .blocked c | .relock c => [c, .mutex]
  | .signal c => [c]
  | .destroy o => [o]
  | _ => []

def accesses : Op → Bool
  | .malloc | .create | .skip | .ended => false
  | _ => true

end Op

inductive MainPc
  | malloc
  | initMutex
  | initCondFromMain
  | initCondFromT1
  | initFields
  | create
  | detach
  | lock
  | testReady
  | waitReady
  | waitingReady
  | relockReady
  | setProceed
  | signalProceed
  | unlock
  | forget
  | exiting
  | terminated
  | failed
  deriving DecidableEq

namespace MainPc

def op : MainPc → Op
  | .malloc => .malloc
  | .initMutex => .init .mutex
  | .initCondFromMain => .init .condFromMain
  | .initCondFromT1 => .init .condFromT1
  | .initFields => .initFields
  | .create => .create
  | .detach => .skip
  | .lock => .lock
  | .testReady => .load .t1Ready
  | .waitReady => .wait .condFromT1
  | .waitingReady => .blocked .condFromT1
  | .relockReady => .relock .condFromT1
  | .setProceed => .store .t1ToProceed
  | .signalProceed => .signal .condFromMain
  | .unlock => .unlock
  | .forget => .skip
  | .exiting => .skip
  | .terminated => .ended
  | .failed => .ended

def next (d : SharedData) : MainPc → MainPc
  | .malloc => .initMutex
  | .initMutex => .initCondFromMain
  | .initCondFromMain => .initCondFromT1
  | .initCondFromT1 => .initFields
  | .initFields => .create
  | .create => .detach
  | .detach => .lock
  | .lock => .testReady
  | .testReady => if d.get .t1Ready then .setProceed else .waitReady
  | .waitReady => .waitingReady
  | .waitingReady => .relockReady
  | .relockReady => .testReady
  | .setProceed => .signalProceed
  | .signalProceed => .unlock
  | .unlock => .forget
  | .forget => .exiting
  | .exiting => .terminated
  | .terminated => .terminated
  | .failed => .failed

def wake (c : Object) : MainPc → MainPc
  | .waitingReady => if c = .condFromT1 then .relockReady else .waitingReady
  | pc => pc

end MainPc

inductive T1Pc
  | notCreated
  | started
  | lock
  | setReady
  | signalReady
  | testProceed
  | waitProceed
  | waitingProceed
  | relockProceed
  | unlock
  | received
  | printArg
  | workDone
  | destroyMutex
  | destroyCondFromMain
  | destroyCondFromT1
  | free
  | exiting
  | terminated
  deriving DecidableEq

namespace T1Pc

def op : T1Pc → Op
  | .notCreated => .ended
  | .started => .skip
  | .lock => .lock
  | .setReady => .store .t1Ready
  | .signalReady => .signal .condFromT1
  | .testProceed => .load .t1ToProceed
  | .waitProceed => .wait .condFromMain
  | .waitingProceed => .blocked .condFromMain
  | .relockProceed => .relock .condFromMain
  | .unlock => .unlock
  | .received => .skip
  | .printArg => .loadArg
  | .workDone => .skip
  | .destroyMutex => .destroy .mutex
  | .destroyCondFromMain => .destroy .condFromMain
  | .destroyCondFromT1 => .destroy .condFromT1
  | .free => .free
  | .exiting => .skip
  | .terminated => .ended

def next (d : SharedData) : T1Pc → T1Pc
  | .notCreated => .notCreated
  | .started => .lock
  | .lock => .setReady
  | .setReady => .signalReady
  | .signalReady => .testProceed
  | .testProceed => if d.get .t1ToProceed then .unlock else .waitProceed
  | .waitProceed => .waitingProceed
  | .waitingProceed => .relockProceed
  | .relockProceed => .testProceed
  | .unlock => .received
  | .received => .printArg
  | .printArg => .workDone
  | .workDone => .destroyMutex
  | .destroyMutex => .destroyCondFromMain
  | .destroyCondFromMain => .destroyCondFromT1
  | .destroyCondFromT1 => .free
  | .free => .exiting
  | .exiting => .terminated
  | .terminated => .terminated

def wake (c : Object) : T1Pc → T1Pc
  | .waitingProceed => if c = .condFromMain then .relockProceed else .waitingProceed
  | pc => pc

end T1Pc

/-- `live` says which objects are initialised and not destroyed, `allocated` whether the block is
there; `destroys`, `frees` and `printed` record what `t1` has done. -/
structure State where
  mainPc : MainPc
  t1 : T1Pc
  data : SharedData
  allocated : Bool
  live : Object → Bool
  destroys : Object → ℕ
  frees : ℕ
  printed : List ℤ

inductive Action
  | main
  | t1
  | mallocFails
  | spuriousMain
  | spuriousT1
  deriving DecidableEq

namespace State

-- The memory that `malloc` will give holds anything.
def initial (d : SharedData) : State where
  mainPc := .malloc
  t1 := .notCreated
  data := d
  allocated := false
  live _ := false
  destroys _ := 0
  frees := 0
  printed := []

def op (s : State) : Tid → Op
  | .main => s.mainPc.op
  | .t1 => s.t1.op

def setMutex (s : State) (m : Option Tid) : State := { s with data := { s.data with mutex := m } }

def initObject (s : State) : Object → State
  | .mutex => { s.setMutex none with live := Function.update s.live .mutex true }
  | o => { s with live := Function.update s.live o true }

def exec (s : State) (τ : Tid) : Op → Option State
  | .malloc => some { s with allocated := true }
  | .init o => some (s.initObject o)
  | .initFields => some { s with data := ⟨s.data.mutex, false, false, false, 42⟩ }
  | .create => some { s with t1 := .started }
  | .lock | .relock _ => (acquire s.data.mutex τ).map s.setMutex
  | .unlock | .wait _ => (release s.data.mutex τ).map s.setMutex
  | .signal c => some { s with mainPc := s.mainPc.wake c, t1 := s.t1.wake c }
  | .load _ | .skip => some s
  | .store f => some { s with data := s.data.set f }
  | .loadArg => some { s with printed := s.printed ++ [s.data.arg] }
  | .destroy o => some { s with
      live := Function.update s.live o false
      destroys := Function.update s.destroys o (s.destroys o + 1) }
  | .free => some { s with allocated := false, frees := s.frees + 1 }
  | .blocked _ | .ended => none

def goto (s : State) (pc : MainPc) : State := { s with mainPc := pc }

def gotoT1 (s : State) (pc : T1Pc) : State := { s with t1 := pc }

def main (s : State) : Option State :=
  (s.exec .main s.mainPc.op).map (fun t => t.goto (s.mainPc.next s.data))

def threadFunction (s : State) : Option State :=
  (s.exec .t1 s.t1.op).map (fun t => t.gotoT1 (s.t1.next s.data))

def next (s : State) : Action → Option State
  | .main => s.main
  | .t1 => s.threadFunction
  | .mallocFails => if s.mainPc = .malloc then some (s.goto .failed) else none
  | .spuriousMain => if s.mainPc = .waitingReady then some (s.goto .relockReady) else none
  | .spuriousT1 => if s.t1 = .waitingProceed then some (s.gotoT1 .relockProceed) else none

end State

def handOver : System State Action where
  init s := ∃ d, s = State.initial d
  next := State.next

end LinuxSystemProgramming.HandOver
