import LinuxSystemProgramming.Lib.Children
import LinuxSystemProgramming.Lib.Transition
import Mathlib.Data.Finset.Union
import Mathlib.Data.Fintype.Defs

/-!
Programs of `fork`, `wait`, `waitpid` and `exec` without loops. The code of a process is what it has
still to do. A child may be killed at any time; the children of a parent that has ended go on.
-/

namespace LinuxSystemProgramming.ForkWait

open Children Transition

def exitCode (n : ℤ) : ℕ := (n % 256).toNat

structure Kill where
  signal : ℕ
  core : Bool
  pos : 0 < signal
  lt : signal < 127
  deriving DecidableEq

inductive End
  | exited (n : ℤ)
  | killed (k : Kill)
  deriving DecidableEq

def End.status : End → ℕ
  | .exited n => exitCode n * 256
  | .killed k => k.signal + if k.core then 128 else 0

inductive Body (α : Type*)
  | exit (n : ℤ)
  | act (a : α) (next : Body α)
  | exec (failed done : Body α)
  deriving DecidableEq

/-- `next` is the code after a call that succeeds; `running` is for a child that `WNOHANG` finds at
work. -/
inductive Code (ι α : Type*)
  | exit (n : ℤ)
  | act (a : α) (next : Code ι α)
  | exec (failed done : Code ι α)
  | fork (c : ι) (failed next : Code ι α)
  | wait (failed next : Code ι α)
  | waitpid (c : ι) (failed next : Code ι α)
  | poll (c : ι) (failed running next : Code ι α)
  deriving DecidableEq

variable {ι α : Type*}

def Body.code : Body α → Code ι α
  | .exit n => .exit n
  | .act a next => .act a next.code
  | .exec failed done => .exec failed.code done.code

def Body.endings : Body α → List (List α × ℤ)
  | .exit n => [([], n)]
  | .act a next => next.endings.map (fun x => (a :: x.1, x.2))
  | .exec failed done => failed.endings ++ done.endings

inductive Parent (ι α : Type*)
  | runs (code : Code ι α)
  | exited (status : ℕ)
  deriving DecidableEq

/-- `fate` records how a child has ended, and `reports` what the successful waits have given. -/
structure State (ι α : Type*) where
  parent : Parent ι α
  child : ι → Life (Body α)
  fate : ι → Option End
  lines : List α
  childLines : ι → List α
  reports : List (ι × ℕ)

inductive Action (ι : Type*)
  | run
  | exec (ok : Bool)
  | fork (ok : Bool)
  | wait (r : WaitResult ι)
  | child (c : ι) (ok : Bool)
  | kill (c : ι) (k : Kill)
  deriving DecidableEq

structure Ending (ι α : Type*) where
  lines : List α
  status : ℕ
  left : Finset ι
  deriving DecidableEq

def Ending.after (l : List α) (e : Ending ι α) : Ending ι α := { e with lines := l ++ e.lines }

variable [DecidableEq ι] [DecidableEq α]

def Code.fresh : Code ι α → Finset ι → Bool
  | .exit _, _ => true
  | .act _ next, used => next.fresh used
  | .exec failed done, used => failed.fresh used && done.fresh used
  | .fork c failed next, used =>
    decide (c ∉ used) && failed.fresh used && next.fresh (insert c used)
  | .wait failed next, used => failed.fresh used && next.fresh used
  | .waitpid _ failed next, used => failed.fresh used && next.fresh used
  | .poll _ failed running next, used =>
    failed.fresh used && running.fresh used && next.fresh used

def Code.endings : Code ι α → Finset ι → Finset (Ending ι α)
  | .exit n, own => {⟨[], exitCode n, own⟩}
  | .act a next, own => (next.endings own).image (Ending.after [a])
  | .exec failed done, own => failed.endings own ∪ done.endings own
  | .fork c failed next, own => failed.endings own ∪ next.endings (insert c own)
  | .wait failed next, own =>
    if own = ∅ then failed.endings own else own.biUnion (fun c => next.endings (own.erase c))
  | .waitpid c failed next, own =>
    if c ∈ own then next.endings (own.erase c) else failed.endings own
  | .poll c failed running next, own =>
    if c ∈ own then running.endings own ∪ next.endings (own.erase c) else failed.endings own

structure Program (ι α : Type*) [DecidableEq ι] where
  code : Code ι α
  body : ι → Body α
  fresh : code.fresh ∅ = true

variable [Fintype ι]

/-- Where the code goes on after a wait that gives `r`; `none` where it cannot give `r`. -/
def Code.waited (child : ι → Life (Body α)) : Code ι α → WaitResult ι → Option (Code ι α)
  | .wait failed _, .failed => if unreaped child = ∅ then some failed else none
  | .wait _ next, .child c status => if child c = .zombie status then some next else none
  | .waitpid c failed _, .failed => if (child c).unreaped = false then some failed else none
  | .waitpid c _ next, .child d status =>
    if d = c ∧ child c = .zombie status then some next else none
  | .poll c failed _ _, .failed => if (child c).unreaped = false then some failed else none
  | .poll c _ running _, .none =>
    if (child c).unreaped = true ∧ (child c).ended = false then some running else none
  | .poll c _ _ next, .child d status =>
    if d = c ∧ child c = .zombie status then some next else none
  | _, _ => none

namespace State

def reap (s : State ι α) (code : Code ι α) : WaitResult ι → State ι α
  | .child c status => { s with
    parent := .runs code, child := Function.update s.child c .reaped
    reports := s.reports ++ [(c, status)] }
  | _ => { s with parent := .runs code }

def ends (s : State ι α) (c : ι) (e : End) : State ι α := { s with
  child := Function.update s.child c (.zombie e.status)
  fate := Function.update s.fate c (some e) }

def go (s : State ι α) (c : ι) (body : Body α) : State ι α :=
  { s with child := Function.update s.child c (.running body) }

def stepChild (s : State ι α) (c : ι) (ok : Bool) : Body α → State ι α
  | .exit n => s.ends c (.exited n)
  | .act a next =>
    { s.go c next with childLines := Function.update s.childLines c (s.childLines c ++ [a]) }
  | .exec failed done => s.go c (if ok then done else failed)

def ending (s : State ι α) : Option (Ending ι α) :=
  match s.parent with
  | .runs _ => none
  | .exited status => some ⟨s.lines, status, unreaped s.child⟩

end State

namespace Program

def initial (P : Program ι α) : State ι α where
  parent := .runs P.code
  child _ := .notCreated
  fate _ := none
  lines := []
  childLines _ := []
  reports := []

def next (P : Program ι α) (s : State ι α) : Action ι → Option (State ι α)
  | .run =>
    match s.parent with
    | .runs (.exit n) => some { s with parent := .exited (exitCode n) }
    | .runs (.act a next) => some { s with parent := .runs next, lines := s.lines ++ [a] }
    | _ => none
  | .exec ok =>
    match s.parent with
    | .runs (.exec failed done) => some { s with parent := .runs (if ok then done else failed) }
    | _ => none
  | .fork ok =>
    match s.parent with
    | .runs (.fork c failed next) =>
      some (if ok then { s.go c (P.body c) with parent := .runs next }
        else { s with parent := .runs failed })
    | _ => none
  | .wait r =>
    match s.parent with
    | .runs code => (code.waited s.child r).map (fun next => s.reap next r)
    | .exited _ => none
  | .child c ok =>
    match s.child c with
    | .running body => some (s.stepChild c ok body)
    | _ => none
  | .kill c k =>
    match s.child c with
    | .running _ => some (s.ends c (.killed k))
    | _ => none

def system (P : Program ι α) : System (State ι α) (Action ι) where
  init s := s = P.initial
  next := P.next

end Program

variable {P : Program ι α} {s s' : State ι α} {c : ι}

inductive Waited (child : ι → Life (Body α)) : Code ι α → WaitResult ι → Code ι α → Prop
  | noChild {failed next : Code ι α} (h : unreaped child = ∅) :
    Waited child (.wait failed next) .failed failed
  | anyChild {c : ι} {status : ℕ} {failed next : Code ι α} (h : child c = .zombie status) :
    Waited child (.wait failed next) (.child c status) next
  | notMine {c : ι} {failed next : Code ι α} (h : c ∉ unreaped child) :
    Waited child (.waitpid c failed next) .failed failed
  | one {c : ι} {status : ℕ} {failed next : Code ι α} (h : child c = .zombie status) :
    Waited child (.waitpid c failed next) (.child c status) next
  | pollNotMine {c : ι} {failed running next : Code ι α} (h : c ∉ unreaped child) :
    Waited child (.poll c failed running next) .failed failed
  | pollRunning {c : ι} {failed running next : Code ι α} (h : c ∈ unreaped child) :
    Waited child (.poll c failed running next) .none running
  | pollOne {c : ι} {status : ℕ} {failed running next : Code ι α} (h : child c = .zombie status) :
    Waited child (.poll c failed running next) (.child c status) next

theorem waited_cases {child : ι → Life (Body α)} {code next : Code ι α} {r : WaitResult ι}
    (h : code.waited child r = some next) : Waited child code r next := by
  unfold Code.waited at h
  split at h
  next =>
    obtain ⟨hnone, hn⟩ := Option.ite_none_right_eq_some.mp h
    cases hn
    exact .noChild hnone
  next =>
    obtain ⟨hc, hn⟩ := Option.ite_none_right_eq_some.mp h
    cases hn
    exact .anyChild hc
  next =>
    obtain ⟨hc, hn⟩ := Option.ite_none_right_eq_some.mp h
    cases hn
    exact .notMine (not_mem_unreaped.mpr hc)
  next =>
    obtain ⟨⟨rfl, hc⟩, hn⟩ := Option.ite_none_right_eq_some.mp h
    cases hn
    exact .one hc
  next =>
    obtain ⟨hc, hn⟩ := Option.ite_none_right_eq_some.mp h
    cases hn
    exact .pollNotMine (not_mem_unreaped.mpr hc)
  next =>
    obtain ⟨hc, hn⟩ := Option.ite_none_right_eq_some.mp h
    cases hn
    exact .pollRunning (mem_unreaped.mpr hc.1)
  next =>
    obtain ⟨⟨rfl, hc⟩, hn⟩ := Option.ite_none_right_eq_some.mp h
    cases hn
    exact .pollOne hc
  next => cases h

inductive Step (P : Program ι α) (s : State ι α) : State ι α → Prop
  | exits {n : ℤ} (hp : s.parent = .runs (.exit n)) :
    Step P s { s with parent := .exited (exitCode n) }
  | acts {a : α} {next : Code ι α} (hp : s.parent = .runs (.act a next)) :
    Step P s { s with parent := .runs next, lines := s.lines ++ [a] }
  | execs {failed done next : Code ι α} (hp : s.parent = .runs (.exec failed done))
    (hn : next = failed ∨ next = done) : Step P s { s with parent := .runs next }
  | forks {c : ι} {failed next : Code ι α} (hp : s.parent = .runs (.fork c failed next)) :
    Step P s { s.go c (P.body c) with parent := .runs next }
  | forkFails {c : ι} {failed next : Code ι α} (hp : s.parent = .runs (.fork c failed next)) :
    Step P s { s with parent := .runs failed }
  | waits {code next : Code ι α} {r : WaitResult ι} (hp : s.parent = .runs code)
    (hw : Waited s.child code r next) : Step P s (s.reap next r)
  | child {c : ι} {ok : Bool} {body : Body α} (hc : s.child c = .running body) :
    Step P s (s.stepChild c ok body)
  | kill {c : ι} {k : Kill} {body : Body α} (hc : s.child c = .running body) :
    Step P s (s.ends c (.killed k))

theorem step_of_next {a : Action ι} (hs : P.next s a = some s') : Step P s s' := by
  cases a with
  | run =>
    simp only [Program.next] at hs
    split at hs
    next hp => cases hs; exact .exits hp
    next hp => cases hs; exact .acts hp
    next => cases hs
  | exec ok =>
    simp only [Program.next] at hs
    split at hs
    next hp =>
      cases hs
      apply Step.execs hp
      cases ok
      · exact .inl rfl
      · exact .inr rfl
    next => cases hs
  | fork ok =>
    simp only [Program.next] at hs
    split at hs
    next hp =>
      cases hs
      cases ok
      · exact .forkFails hp
      · exact .forks hp
    next => cases hs
  | wait r =>
    simp only [Program.next] at hs
    split at hs
    next hp =>
      obtain ⟨next, hw, rfl⟩ := Option.map_eq_some_iff.mp hs
      exact .waits hp (waited_cases hw)
    next => cases hs
  | child c ok =>
    simp only [Program.next] at hs
    split at hs
    next hc => cases hs; exact .child hc
    next => cases hs
  | kill c k =>
    simp only [Program.next] at hs
    split at hs
    next hc => cases hs; exact .kill hc
    next => cases hs

end LinuxSystemProgramming.ForkWait
