import LinuxSystemProgramming.Lib.NamedObjects
import LinuxSystemProgramming.Lib.Semaphore
import LinuxSystemProgramming.Lib.Transition

/-!
The programs of 12_1 on the named semaphores `/sem1` and `/sem_done_cnt`: P1, which creates and
unlinks them, and `K` joiners, which run the program that P2 and P3 share. A step is one call with
the code up to the next one; output, `sleep` and `sem_getvalue`, whose value is only printed, have
none. `fails` is a call that gives an error; the `sem_open` of a name that is not there fails by
itself. Every process may be killed between two calls.
-/

namespace LinuxSystemProgramming.NamedSemaphore

open NamedObjects Semaphores Transition

def semInitialValue : ℕ := 2

def semDoneCntInitialValue : ℕ := 0

abbrev cntJoinersExpected : ℕ := 2

structure Kernel where
  sem : Store Semaphore
  semDoneCnt : Store Semaphore

structure Handles where
  sem : ℕ
  semDoneCnt : ℕ
  deriving DecidableEq

/-- `critical` keeps whether `sem_wait` has taken a unit, which P1 does not look at. -/
inductive P1Pc
  | openSem
  | openDoneCnt (sem : Option ℕ)
  | wait (h : Handles)
  | critical (h : Handles) (acquired : Bool)
  | waitDoneCnt (h : Handles) (i : ℕ)
  | closeDoneCnt (h : Handles)
  | closeSem (h : Handles)
  | unlinkDoneCnt
  | unlinkSem
  | exited (success : Bool)
  | killed
  deriving DecidableEq

/-- `acquired` is `ret == 0`, which P2 and P3 only print. -/
inductive JoinerPc
  | openSem
  | openDoneCnt (sem : Option ℕ)
  | wait (h : Handles)
  | critical (h : Handles) (acquired : Bool)
  | postDoneCnt (h : Handles)
  | closeDoneCnt (h : Handles)
  | closeSem (h : Handles)
  | exited (success : Bool)
  | killed
  deriving DecidableEq

inductive Attempt
  | run
  | fails
  | killed
  deriving DecidableEq

inductive Action (K : ℕ)
  | p1 (a : Attempt)
  | joiner (i : Fin K) (a : Attempt)
  deriving DecidableEq

/-- `posted` records the joiners that have posted `sem_done_cnt`. -/
structure State (K : ℕ) where
  kernel : Kernel
  p1 : P1Pc
  joiners : Fin K → JoinerPc
  posted : Fin K → Bool

def Kernel.empty : Kernel := ⟨.empty .zero, .empty .zero⟩

namespace State

variable {K : ℕ}

def start (K : ℕ) (k : Kernel) : State K := ⟨k, .openSem, fun _ => .openSem, fun _ => false⟩

def goto (s : State K) (pc : P1Pc) : State K := { s with p1 := pc }

def setJoiner (s : State K) (i : Fin K) (pc : JoinerPc) : State K :=
  { s with joiners := Function.update s.joiners i pc }

def setSem (s : State K) (sem : Store Semaphore) : State K :=
  { s with kernel := { s.kernel with sem := sem } }

def setDoneCnt (s : State K) (sem : Store Semaphore) : State K :=
  { s with kernel := { s.kernel with semDoneCnt := sem } }

def semPost (s : State K) (h : Handles) : State K :=
  s.setSem (s.kernel.sem.modify h.sem Semaphore.post)

def semWait (s : State K) (h : Handles) : Option (State K) :=
  (s.kernel.sem.object h.sem).wait.map (fun sem =>
    s.setSem (s.kernel.sem.modify h.sem (fun _ => sem)))

def postDoneCnt (s : State K) (h : Handles) (i : Fin K) : State K :=
  { s.setDoneCnt (s.kernel.semDoneCnt.modify h.semDoneCnt Semaphore.post) with
    posted := Function.update s.posted i true }

def waitDoneCnt (s : State K) (h : Handles) : Option (State K) :=
  (s.kernel.semDoneCnt.object h.semDoneCnt).wait.map (fun sem =>
    s.setDoneCnt (s.kernel.semDoneCnt.modify h.semDoneCnt (fun _ => sem)))

end State

def P1Pc.opened : Option ℕ → Option ℕ → P1Pc
  | some sem, some semDoneCnt => .wait ⟨sem, semDoneCnt⟩
  | _, _ => .exited false

def P1Pc.loop (K : ℕ) (h : Handles) (i : ℕ) : P1Pc :=
  if i < K then .waitDoneCnt h i else .closeDoneCnt h

def JoinerPc.opened : Option ℕ → Option ℕ → JoinerPc
  | some sem, some semDoneCnt => .wait ⟨sem, semDoneCnt⟩
  | _, _ => .exited false

namespace State

variable {K : ℕ}

def p1Main (V : ℕ) (s : State K) (a : Attempt) : Option (State K) :=
  match s.p1, a with
  | .exited _, _ => none
  | .killed, _ => none
  | _, .killed => some (s.goto .killed)
  | .openSem, .run =>
    let opened := s.kernel.sem.openCreate (.init V)
    some ((s.setSem opened.1).goto (.openDoneCnt (some opened.2)))
  | .openSem, .fails => some (s.goto (.openDoneCnt none))
  | .openDoneCnt sem, .run =>
    let opened := s.kernel.semDoneCnt.openCreate (.init semDoneCntInitialValue)
    some ((s.setDoneCnt opened.1).goto (.opened sem (some opened.2)))
  | .openDoneCnt sem, .fails => some (s.goto (.opened sem none))
  | .wait h, .run => (s.semWait h).map (fun t => t.goto (.critical h true))
  | .wait h, .fails => some (s.goto (.critical h false))
  | .critical h _, .run => some ((s.semPost h).goto (.loop K h 0))
  | .critical h _, .fails => some (s.goto (.loop K h 0))
  | .waitDoneCnt h i, .run => (s.waitDoneCnt h).map (fun t => t.goto (.loop K h (i + 1)))
  | .waitDoneCnt _ _, .fails => some (s.goto (.exited false))
  | .closeDoneCnt h, _ => some (s.goto (.closeSem h))
  | .closeSem _, _ => some (s.goto .unlinkDoneCnt)
  | .unlinkDoneCnt, .run => some ((s.setDoneCnt s.kernel.semDoneCnt.unlink).goto .unlinkSem)
  | .unlinkDoneCnt, .fails => some (s.goto .unlinkSem)
  | .unlinkSem, .run => some ((s.setSem s.kernel.sem.unlink).goto (.exited true))
  | .unlinkSem, .fails => some (s.goto (.exited true))

def joinerMain (s : State K) (i : Fin K) (a : Attempt) : Option (State K) :=
  match s.joiners i, a with
  | .exited _, _ => none
  | .killed, _ => none
  | _, .killed => some (s.setJoiner i .killed)
  | .openSem, .run => some (s.setJoiner i (.openDoneCnt s.kernel.sem.named))
  | .openSem, .fails => some (s.setJoiner i (.openDoneCnt none))
  | .openDoneCnt sem, .run => some (s.setJoiner i (.opened sem s.kernel.semDoneCnt.named))
  | .openDoneCnt sem, .fails => some (s.setJoiner i (.opened sem none))
  | .wait h, .run => (s.semWait h).map (fun t => t.setJoiner i (.critical h true))
  | .wait h, .fails => some (s.setJoiner i (.critical h false))
  | .critical h _, .run => some ((s.semPost h).setJoiner i (.postDoneCnt h))
  | .critical h _, .fails => some (s.setJoiner i (.postDoneCnt h))
  | .postDoneCnt h, .run => some ((s.postDoneCnt h i).setJoiner i (.closeDoneCnt h))
  | .postDoneCnt h, .fails => some (s.setJoiner i (.closeDoneCnt h))
  | .closeDoneCnt h, _ => some (s.setJoiner i (.closeSem h))
  | .closeSem _, _ => some (s.setJoiner i (.exited true))

def next (V : ℕ) (s : State K) : Action K → Option (State K)
  | .p1 a => s.p1Main V a
  | .joiner i a => s.joinerMain i a

end State

def runOf (V K : ℕ) (k : Kernel) : System (State K) (Action K) where
  init s := s = State.start K k
  next := State.next V

end LinuxSystemProgramming.NamedSemaphore
