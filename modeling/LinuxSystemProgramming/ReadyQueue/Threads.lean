import LinuxSystemProgramming.Lib.Mutex
import LinuxSystemProgramming.Lib.RingBuffer
import LinuxSystemProgramming.Lib.Transition

/-!
The program 10_9 with `N` threads: `main` and the threads that run `thread_handler`. A step is one
`pthread` call with the code up to the next one, or one test or update of shared data;
`pthread_create` takes the initialisation of the thread's data with it. A signal wakes the one
thread that waits and is lost where none does; nobody waits on `cond_from_t` or `cond_g_to_t`. A
mutex that cannot be taken or given back leaves no step; output and `sleep` have none either.
-/

namespace LinuxSystemProgramming.ReadyQueue

open Mutex RingBuffer Transition

inductive Tid
  | main
  | worker (i : ℕ)
  deriving DecidableEq

structure ThreadData where
  mutex : Option Tid
  ready : Bool
  toProceed : Bool
  id : ℕ
  deriving DecidableEq

inductive Object
  | mutex
  | condToT
  | condFromT
  deriving DecidableEq

inductive MainPc
  | create (i : ℕ)
  | collect
  | lockG
  | testEmpty
  | waitG
  | relockG
  | pop
  | unlockPopped (id : ℕ)
  | lockT (id : ℕ)
  | testT (id : ℕ)
  | countReady (id : ℕ)
  | proceed (id : ℕ)
  | signalT (id : ℕ)
  | unlockT (id : ℕ)
  | relockPop
  | unlockG
  | joinTest
  | joinLoop (i : ℕ)
  | tryjoin (i : ℕ)
  | destroy (i : ℕ) (object : Object)
  | usleep
  | exiting
  | terminated
  deriving DecidableEq

inductive WorkerPc
  | notCreated
  | lockReady
  | signalReady
  | unlockReady
  | lockPush
  | push
  | signalMain
  | unlockPush
  | lockProceed
  | testProceed
  | waiting
  | relock
  | unlockProceed
  | exiting
  | terminated
  deriving DecidableEq

/-- `t i` is whether `t[i]` still names a thread. The last five fields record the history: the ids
pushed, popped and counted, whether a push has overflowed, and what has been destroyed. -/
structure State (N : ℕ) where
  mainPc : MainPc
  pc : ℕ → WorkerPc
  tData : ℕ → ThreadData
  mutexGSync : Option Tid
  readyQueue : Ring ℕ N
  countOfReadyThreads : ℕ
  t : ℕ → Bool
  finishedThreads : ℕ
  pushed : List ℕ
  popped : List ℕ
  counted : List ℕ
  overflowed : Bool
  destroyed : List (ℕ × Object)

def setMutex (d : ℕ → ThreadData) (i : ℕ) (m : Option Tid) : ℕ → ThreadData :=
  Function.update d i { d i with mutex := m }

def setReady (d : ℕ → ThreadData) (i : ℕ) : ℕ → ThreadData :=
  Function.update d i { d i with ready := true }

def setToProceed (d : ℕ → ThreadData) (i : ℕ) : ℕ → ThreadData :=
  Function.update d i { d i with toProceed := true }

def initData (d : ℕ → ThreadData) (i : ℕ) : ℕ → ThreadData :=
  Function.update d i ⟨none, false, false, i⟩

namespace State

variable {N : ℕ}

def initial (N : ℕ) : State N where
  mainPc := .create 0
  pc _ := .notCreated
  tData _ := ⟨none, false, false, 0⟩
  mutexGSync := none
  readyQueue := .empty 0
  countOfReadyThreads := 0
  t _ := false
  finishedThreads := 0
  pushed := []
  popped := []
  counted := []
  overflowed := false
  destroyed := []

def goto (s : State N) (pc : MainPc) : State N := { s with mainPc := pc }

def acquireG (s : State N) (pc : MainPc) : Option (State N) :=
  (acquire s.mutexGSync .main).map (fun m => { s with mutexGSync := m, mainPc := pc })

def releaseG (s : State N) (pc : MainPc) : Option (State N) :=
  (release s.mutexGSync .main).map (fun m => { s with mutexGSync := m, mainPc := pc })

def wake (s : State N) (i : ℕ) : ℕ → WorkerPc :=
  if s.pc i = .waiting then Function.update s.pc i .relock else s.pc

def wakeMain (s : State N) : MainPc := if s.mainPc = .waitG then .relockG else s.mainPc

def afterDestroy (i : ℕ) : Object → MainPc
  | .mutex => .destroy i .condToT
  | .condToT => .destroy i .condFromT
  | .condFromT => .joinLoop (i + 1)

def main (s : State N) : Option (State N) :=
  match s.mainPc with
  | .create i =>
    if i < N then
      some { s with
        tData := initData s.tData i, pc := Function.update s.pc i .lockReady,
        t := Function.update s.t i true, mainPc := .create (i + 1) }
    else some (s.goto .collect)
  | .collect => some (s.goto (if s.countOfReadyThreads < N then .lockG else .joinTest))
  | .lockG => s.acquireG .testEmpty
  | .testEmpty =>
    if s.readyQueue.head = s.readyQueue.tail then s.releaseG .waitG else some (s.goto .pop)
  | .waitG => none
  | .relockG => s.acquireG .testEmpty
  | .pop =>
    match s.readyQueue.pop with
    | none => some (s.goto .unlockG)
    | some (id, q) =>
      some { s with readyQueue := q, popped := s.popped ++ [id], mainPc := .unlockPopped id }
  | .unlockPopped id => s.releaseG (.lockT id)
  | .lockT id =>
    if id < N then
      (acquire (s.tData id).mutex .main).map (fun m =>
        { s with tData := setMutex s.tData id m, mainPc := .testT id })
    else none
  | .testT id => some (s.goto (if (s.tData id).toProceed then .unlockT id else .countReady id))
  | .countReady id =>
    some { s with
      countOfReadyThreads := s.countOfReadyThreads + 1, counted := s.counted ++ [id],
      mainPc := .proceed id }
  | .proceed id => some { s with tData := setToProceed s.tData id, mainPc := .signalT id }
  | .signalT id => some { s with pc := s.wake id, mainPc := .unlockT id }
  | .unlockT id =>
    (release (s.tData id).mutex .main).map (fun m =>
      { s with tData := setMutex s.tData id m, mainPc := .relockPop })
  | .relockPop => s.acquireG .pop
  | .unlockG => s.releaseG .collect
  | .joinTest => some (s.goto (if s.finishedThreads < N then .joinLoop 0 else .exiting))
  | .joinLoop i =>
    some (s.goto (if i < N then if s.t i then .tryjoin i else .joinLoop (i + 1) else .usleep))
  | .tryjoin i =>
    if s.pc i = .terminated then
      some { s with
        t := Function.update s.t i false, finishedThreads := s.finishedThreads + 1,
        mainPc := .destroy i .mutex }
    else some (s.goto (.joinLoop (i + 1)))
  | .destroy i object =>
    some { s with destroyed := s.destroyed ++ [(i, object)], mainPc := afterDestroy i object }
  | .usleep => some (s.goto .joinTest)
  | .exiting => some (s.goto .terminated)
  | .terminated => none

def setPc (s : State N) (i : ℕ) (pc : WorkerPc) : State N :=
  { s with pc := Function.update s.pc i pc }

def acquireOwn (s : State N) (i : ℕ) (pc : WorkerPc) : Option (State N) :=
  (acquire (s.tData i).mutex (.worker i)).map (fun m =>
    { s with tData := setMutex s.tData i m, pc := Function.update s.pc i pc })

def releaseOwn (s : State N) (i : ℕ) (pc : WorkerPc) : Option (State N) :=
  (release (s.tData i).mutex (.worker i)).map (fun m =>
    { s with tData := setMutex s.tData i m, pc := Function.update s.pc i pc })

def readyQueuePush (s : State N) (id : ℕ) : State N :=
  match s.readyQueue.push id with
  | none => { s with overflowed := true }
  | some q => { s with readyQueue := q, pushed := s.pushed ++ [id] }

def threadHandler (s : State N) (i : ℕ) : Option (State N) :=
  match s.pc i with
  | .notCreated => none
  | .lockReady => s.acquireOwn i .signalReady
  | .signalReady => some ({ s with tData := setReady s.tData i }.setPc i .unlockReady)
  | .unlockReady => s.releaseOwn i .lockPush
  | .lockPush =>
    (acquire s.mutexGSync (.worker i)).map (fun m => { s with mutexGSync := m }.setPc i .push)
  | .push => some ((s.readyQueuePush (s.tData i).id).setPc i .signalMain)
  | .signalMain => some ({ s with mainPc := s.wakeMain }.setPc i .unlockPush)
  | .unlockPush =>
    (release s.mutexGSync (.worker i)).map (fun m => { s with mutexGSync := m }.setPc i .lockProceed)
  | .lockProceed => s.acquireOwn i .testProceed
  | .testProceed =>
    if (s.tData i).toProceed then some (s.setPc i .unlockProceed) else s.releaseOwn i .waiting
  | .waiting => none
  | .relock => s.acquireOwn i .testProceed
  | .unlockProceed => s.releaseOwn i .exiting
  | .exiting => some (s.setPc i .terminated)
  | .terminated => none

end State

inductive Action
  | main
  | worker (i : ℕ)
  | spuriousMain
  | spuriousWorker (i : ℕ)
  deriving DecidableEq

def State.next {N : ℕ} (s : State N) : Action → Option (State N)
  | .main => s.main
  | .worker i => s.threadHandler i
  | .spuriousMain => if s.mainPc = .waitG then some (s.goto .relockG) else none
  | .spuriousWorker i => if s.pc i = .waiting then some (s.setPc i .relock) else none

def readyQueue (N : ℕ) : System (State N) Action where
  init s := s = State.initial N
  next := State.next

end LinuxSystemProgramming.ReadyQueue
