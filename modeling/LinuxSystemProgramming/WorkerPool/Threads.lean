import LinuxSystemProgramming.Lib.Counting
import LinuxSystemProgramming.Lib.Mutex
import LinuxSystemProgramming.Lib.Semaphore
import LinuxSystemProgramming.Lib.Transition

/-!
The program 12_2_1 with `T` threads, a semaphore of `V` units and `L` rounds of the counting loop. A
step is one call with the code up to the next one, one round of a loop, or one load or store of
`glob`; output has none. `fails` is a semaphore or thread call that gives an error; `lock` and
`unlock` of the mutex do not fail. When `main` has ended, so have all threads.
-/

namespace LinuxSystemProgramming.WorkerPool

open Mutex Semaphores Transition

def loopCount : ℕ := 1000000

def svalInitial : ℕ := 2

abbrev cntThreads : ℕ := 3

def intMax : ℕ := 2147483647

inductive MainPc
  | semInit
  | create (i : ℕ)
  | join (i : ℕ)
  | semDestroy
  | mutexDestroy
  | exited (success : Bool)
  deriving DecidableEq

/-- `store` has loaded `glob` into `g`; `fault` is the overflow of an `int`. -/
inductive ThreadPc
  | notCreated
  | semWait
  | loop (j local' : ℕ)
  | lock (local' : ℕ)
  | load (local' : ℕ)
  | store (local' g : ℕ)
  | unlock
  | semPost
  | returning
  | terminated
  | fault
  deriving DecidableEq

inductive Attempt
  | run
  | fails
  deriving DecidableEq

inductive Action (T : ℕ)
  | main (a : Attempt)
  | thread (i : Fin T) (a : Attempt)
  deriving DecidableEq

/-- `acquired` records the threads whose `sem_wait` has taken a unit. -/
structure State (T : ℕ) where
  glob : ℕ
  sem : Semaphore
  mtx : Option (Fin T)
  mtxDestroyed : Bool
  main : MainPc
  threads : Fin T → ThreadPc
  acquired : Fin T → Bool

def joinLoop (T i : ℕ) : MainPc := if i < T then .join i else .semDestroy

def createLoop (T i : ℕ) : MainPc := if i < T then .create i else joinLoop T 0

namespace State

variable {T : ℕ}

def initial (T : ℕ) : State T where
  glob := 0
  sem := .zero
  mtx := none
  mtxDestroyed := false
  main := .semInit
  threads _ := .notCreated
  acquired _ := false

def goto (s : State T) (pc : MainPc) : State T := { s with main := pc }

def setThread (s : State T) (i : Fin T) (pc : ThreadPc) : State T :=
  { s with threads := Function.update s.threads i pc }

def mainMain (V : ℕ) (s : State T) (a : Attempt) : Option (State T) :=
  match s.main, a with
  | .semInit, .run => some ({ s with sem := .init V }.goto (createLoop T 0))
  | .create i, .run =>
    if h : i < T then some ((s.setThread ⟨i, h⟩ .semWait).goto (createLoop T (i + 1))) else none
  | .join i, .run =>
    if h : i < T then
      if s.threads ⟨i, h⟩ = .terminated then some (s.goto (joinLoop T (i + 1))) else none
    else none
  | .semDestroy, _ => some ({ s with sem := s.sem.destroy }.goto .mutexDestroy)
  | .mutexDestroy, _ => some ({ s with mtxDestroyed := true }.goto (.exited true))
  | .exited _, _ => none
  | _, .fails => some (s.goto (.exited false))

def store (s : State T) (i : Fin T) (local' g : ℕ) : State T :=
  if g + local' ≤ intMax then { s with glob := g + local' }.setThread i .unlock
  else s.setThread i .fault

def loop (L : ℕ) (s : State T) (i : Fin T) (j local' : ℕ) : State T :=
  if j < L then
    if local' + 1 ≤ intMax ∧ j + 1 ≤ intMax then s.setThread i (.loop (j + 1) (local' + 1))
    else s.setThread i .fault
  else s.setThread i (.lock local')

-- A failed `sem_wait` or `sem_post` is only printed.
def threadFunc (L : ℕ) (s : State T) (i : Fin T) (a : Attempt) : Option (State T) :=
  match s.threads i, a with
  | .semWait, .run => s.sem.wait.map (fun sem =>
    { s with sem := sem, acquired := Function.update s.acquired i true }.setThread i (.loop 0 0))
  | .semWait, .fails => some (s.setThread i (.loop 0 0))
  | .loop j local', .run => some (s.loop L i j local')
  | .lock local', .run =>
    (acquire s.mtx i).map (fun m => { s with mtx := m }.setThread i (.load local'))
  | .load local', .run => some (s.setThread i (.store local' s.glob))
  | .store local' g, .run => some (s.store i local' g)
  | .unlock, .run => (release s.mtx i).map (fun m => { s with mtx := m }.setThread i .semPost)
  | .semPost, .run => some ({ s with sem := s.sem.post }.setThread i .returning)
  | .semPost, .fails => some (s.setThread i .returning)
  | .returning, .run => some (s.setThread i .terminated)
  | _, _ => none

def next (V L : ℕ) (s : State T) : Action T → Option (State T)
  | .main a => s.mainMain V a
  | .thread i a =>
    match s.main with
    | .exited _ => none
    | _ => s.threadFunc L i a

end State

def pool (T V L : ℕ) : System (State T) (Action T) where
  init s := s = State.initial T
  next := State.next V L

end LinuxSystemProgramming.WorkerPool
