import LinuxSystemProgramming.Lib.ParentRuns

/-!
The programs of 7_Process_Monitor that fork and wait without a loop, and 8_4. A line is one `printf`
or `perror`, with a terminal as output; the lines that tell what a wait has given stand with the
reports. `sleep` takes no step.
-/

namespace LinuxSystemProgramming.WaitingParents

open Children Transition ForkWait

inductive Name
  | c1
  | c2
  deriving DecidableEq

instance : Fintype Name where
  elems := {.c1, .c2}
  complete c := by cases c <;> decide

inductive Line (ν : Type*)
  | beforeFork
  | forkFailed (c : ν)
  | started (c : ν)
  | wokeUp (c : ν)
  | parentStarted
  | waitingFor (c : ν)
  | waitFailed
  | notExitedYet (c : ν)
  | parentWokeUp
  | runPs
  | parentExiting
  | beforeExecl
  | notPrinted
  | newProcess
  | passedArguments
  | argv (i : ℕ) (text : String)
  | waitDone
  deriving DecidableEq

def sleeper {ν : Type*} (c : ν) (n : ℤ) : Body (Line ν) :=
  .act (.started c) (.act (.wokeUp c) (.exit n))

def waitAndExit : Program Unit (Line Unit) where
  code := .fork () (.exit (-1)) (.act .parentStarted
    (.wait (.act .waitFailed (.exit (-1))) (.act .parentExiting (.exit 0))))
  body c := sleeper c 3
  fresh := by decide

def multipleProcesses : Program Name (Line Name) where
  code := .fork .c1 (.act (.forkFailed .c1) (.exit (-1)))
    (.fork .c2 (.act (.forkFailed .c2) (.exit (-1))) (.act .parentStarted
      (.wait (.act .waitFailed (.exit (-1))) (.wait (.act .waitFailed (.exit (-1)))
        (.act .parentExiting (.exit 0))))))
  body
    | .c1 => sleeper .c1 1
    | .c2 => sleeper .c2 2
  fresh := by decide

def sleepers : Name → Body (Line Name)
  | .c1 => sleeper .c1 0
  | .c2 => sleeper .c2 1

-- The second `switch` of 7_3 and of 7_4: no `break` ends its `case -1`.
def switch2 (parent : Code Name (Line Name)) : Code Name (Line Name) :=
  .fork .c2 (.act (.forkFailed .c2) (sleepers .c2).code) parent

def waitpid : Program Name (Line Name) where
  code := .fork .c1 (.act (.forkFailed .c1) (.exit (-1))) (switch2 (.act (.waitingFor .c1)
    (.waitpid .c1 (.act .waitFailed (.exit (-1))) (.act (.waitingFor .c2)
      (.waitpid .c2 (.act .waitFailed (.exit (-1))) (.act .parentExiting (.exit 0)))))))
  body := sleepers
  fresh := by decide

def watch (c : Name) (next : Code Name (Line Name)) : Code Name (Line Name) :=
  .act (.waitingFor c)
    (.poll c (.act .waitFailed (.exit (-1))) (.act (.notExitedYet c) next) next)

def nonBlocking : Program Name (Line Name) where
  code := .fork .c1 (.act (.forkFailed .c1) (.exit (-1)))
    (switch2 (watch .c1 (watch .c2 (.act .parentExiting (.exit 0)))))
  body := sleepers
  fresh := by decide

def orphan : Program Unit (Line Unit) where
  code := .fork () (.act (.forkFailed ()) (.exit (-1)))
    (.act .parentStarted (.act .parentExiting (.exit 0)))
  body c := sleeper c 2
  fresh := by decide

def zombie : Program Unit (Line Unit) where
  code := .act .beforeFork (.fork () (.act (.forkFailed ()) (.exit (-1)))
    (.act .parentWokeUp (.act .parentExiting (.exit 0))))
  body c := sleeper c 2
  fresh := by decide

-- 7_8, where nothing looks at what `waitpid` returns
def removingZombie : Program Unit (Line Unit) where
  code := .act .beforeFork (.fork () (.act (.forkFailed ()) (.exit (-1)))
    (.act .parentWokeUp (.act .runPs (.waitpid () (.act .parentExiting (.exit 0))
      (.act .parentExiting (.exit 0))))))
  body c := sleeper c 2
  fresh := by decide

def newProgram : Body (Line Unit) :=
  .act .newProcess (.act .passedArguments
    (.act (.argv 0 "arg1") (.act (.argv 1 "arg2") (.exit 5))))

def forkAndExec : Program Unit (Line Unit) where
  code := .fork () (.act (.forkFailed ()) (.exit (-1)))
    (.act .parentStarted (.wait (.act .waitDone (.exit 0)) (.act .waitDone (.exit 0))))
  body _ := .act .beforeExecl (.exec (.act .notPrinted (.exit 0)) newProgram)
  fresh := by decide

/-- 7_2 reaps both children in any order of their ends; when the second `fork` fails it leaves the
first child unreaped. -/
theorem multipleProcesses_ends : multipleProcesses.EndsIn
    {⟨[.forkFailed .c1], 255, ∅⟩, ⟨[.forkFailed .c2], 255, {.c1}⟩,
      ⟨[.parentStarted, .parentExiting], 0, ∅⟩} :=
  endsIn_of_endings (by decide)

/-- 7_3 waits for the children in their order and reaps both; when the second `fork` fails the
parent runs the code of the second child, exits as it does and leaves the first unreaped. -/
theorem waitpid_ends : waitpid.EndsIn
    {⟨[.forkFailed .c1], 255, ∅⟩, ⟨[.forkFailed .c2, .started .c2, .wokeUp .c2], 1, {.c1}⟩,
      ⟨[.waitingFor .c1, .waitingFor .c2, .parentExiting], 0, ∅⟩} :=
  endsIn_of_endings (by decide)

/-- 7_4 looks once for each child: each that it finds at work it leaves unreaped. -/
theorem nonBlocking_ends : nonBlocking.EndsIn
    {⟨[.forkFailed .c1], 255, ∅⟩, ⟨[.forkFailed .c2, .started .c2, .wokeUp .c2], 1, {.c1}⟩,
      ⟨[.waitingFor .c1, .waitingFor .c2, .parentExiting], 0, ∅⟩,
      ⟨[.waitingFor .c1, .notExitedYet .c1, .waitingFor .c2, .parentExiting], 0, {.c1}⟩,
      ⟨[.waitingFor .c1, .waitingFor .c2, .notExitedYet .c2, .parentExiting], 0, {.c2}⟩,
      ⟨[.waitingFor .c1, .notExitedYet .c1, .waitingFor .c2, .notExitedYet .c2, .parentExiting], 0,
        {.c2, .c1}⟩} :=
  endsIn_of_endings (by decide)

/-- Nobody waits in 7_6 and 7_7 and the child is always left, to another parent or as a zombie; 7_8
differs from 7_7 in the one wait, which reaps it in every run. -/
theorem zombie_ends :
    orphan.EndsIn {⟨[.forkFailed ()], 255, ∅⟩, ⟨[.parentStarted, .parentExiting], 0, {()}⟩} ∧
      zombie.EndsIn {⟨[.beforeFork, .forkFailed ()], 255, ∅⟩,
        ⟨[.beforeFork, .parentWokeUp, .parentExiting], 0, {()}⟩} ∧
      removingZombie.EndsIn {⟨[.beforeFork, .forkFailed ()], 255, ∅⟩,
        ⟨[.beforeFork, .parentWokeUp, .runPs, .parentExiting], 0, ∅⟩} :=
  ⟨endsIn_of_endings (by decide), endsIn_of_endings (by decide), endsIn_of_endings (by decide)⟩

inductive WaitLine (ν : Type*)
  | done (c : ν) (status : ℕ)
  | killedBySignal (c : ν)
  deriving DecidableEq

def waitLines {ν : Type*} (x : ν × ℕ) : List (WaitLine ν) :=
  .done x.1 x.2 :: if x.2 ≠ 0 ∧ x.2 < 256 then [.killedBySignal x.1] else []

theorem status_killed_iff (e : End) : e.status ≠ 0 ∧ e.status < 256 ↔ ∃ k, e = .killed k := by
  cases e with
  | exited n =>
    constructor
    · intro h
      simp only [End.status] at h
      omega
    · rintro ⟨k, ⟨⟩⟩
  | killed k =>
    have hpos := k.pos
    have hlt := k.lt
    refine iff_of_true ?_ ⟨k, rfl⟩
    simp only [End.status]
    split <;> omega

section WaitLines

variable {ν : Type*} [DecidableEq ν] [Fintype ν]
variable {P : Program ν (Line ν)} {s : State ν (Line ν)} {c : ν}

omit [DecidableEq ν] [Fintype ν] in
theorem done_mem {status : ℕ} :
    .done c status ∈ s.reports.flatMap waitLines ↔ (c, status) ∈ s.reports := by
  rw [List.mem_flatMap]
  constructor
  · rintro ⟨⟨d, v⟩, hmem, hd⟩
    simp only [waitLines] at hd
    split at hd
    · simp only [List.mem_cons, WaitLine.done.injEq, reduceCtorEq, List.not_mem_nil, or_false] at hd
      obtain ⟨rfl, rfl⟩ := hd
      exact hmem
    · simp only [List.mem_singleton, WaitLine.done.injEq] at hd
      obtain ⟨rfl, rfl⟩ := hd
      exact hmem
  · intro hmem
    exact ⟨_, hmem, List.mem_cons_self⟩

omit [DecidableEq ν] [Fintype ν] in
theorem killedBySignal_mem : .killedBySignal c ∈ s.reports.flatMap waitLines ↔
    ∃ status, (c, status) ∈ s.reports ∧ status ≠ 0 ∧ status < 256 := by
  rw [List.mem_flatMap]
  constructor
  · rintro ⟨⟨d, v⟩, hmem, hd⟩
    simp only [waitLines] at hd
    split at hd
    next hv =>
      simp only [List.mem_cons, reduceCtorEq, WaitLine.killedBySignal.injEq, List.not_mem_nil,
        or_false, false_or] at hd
      subst hd
      exact ⟨v, hmem, hv⟩
    next => simp at hd
  · rintro ⟨status, hmem, hv⟩
    refine ⟨_, hmem, ?_⟩
    simp only [waitLines, if_pos hv]
    simp

theorem killed_line_iff (h : P.system.Reachable s) :
    .killedBySignal c ∈ s.reports.flatMap waitLines ↔
      s.child c = .reaped ∧ ∃ k, s.fate c = some (.killed k) := by
  rw [killedBySignal_mem]
  constructor
  · rintro ⟨status, hmem, hv⟩
    obtain ⟨hreaped, e, he, rfl, _⟩ := (reports_fate h).2 c status hmem
    obtain ⟨k, rfl⟩ := (status_killed_iff e).mp hv
    exact ⟨hreaped, k, he⟩
  · rintro ⟨hreaped, k, hk⟩
    have hknown := (reported_reachable h).known c
    rw [hreaped] at hknown
    obtain ⟨e, he, hmem, _⟩ := hknown
    rw [hk] at he
    cases he
    exact ⟨_, hmem, (status_killed_iff _).mpr ⟨k, rfl⟩⟩

theorem sleeper_told {n : ℤ} {status : ℕ} (h : P.system.Reachable s) (hb : P.body c = sleeper c n)
    (hd : .done c status ∈ s.reports.flatMap waitLines) :
    (∃ k, s.fate c = some (.killed k)) ∨
      status = exitCode n * 256 ∧ s.childLines c = [.started c, .wokeUp c] := by
  obtain ⟨_, e, he, rfl, hlines⟩ := (reports_fate h).2 c status (done_mem.mp hd)
  cases e with
  | killed k => exact .inl ⟨k, he⟩
  | exited m =>
    have := hlines m rfl
    simp only [hb, sleeper, Body.endings, List.map_cons, List.map_nil, List.mem_singleton,
      Prod.mk.injEq] at this
    obtain ⟨hw, rfl⟩ := this
    exact .inr ⟨rfl, hw⟩

end WaitLines

/-- 7_1 says that the child is killed exactly when it was, whatever the signal and with a core dump
or without; a child that was not has written both its lines and is told with the status 768. -/
theorem waitAndExit_tells {s : State Unit (Line Unit)} (h : waitAndExit.system.Reachable s) :
    (.killedBySignal () ∈ s.reports.flatMap waitLines ↔
        s.child () = .reaped ∧ ∃ k, s.fate () = some (.killed k)) ∧
      ∀ status, .done () status ∈ s.reports.flatMap waitLines →
        (∃ k, s.fate () = some (.killed k)) ∨
          status = 768 ∧ s.childLines () = [.started (), .wokeUp ()] :=
  ⟨killed_line_iff h, fun _ hd => sleeper_told h rfl hd⟩

def sigkill : Kill where
  signal := 9
  core := false
  pos := by decide
  lt := by decide

def killedSample : List (Action Unit) :=
  [.fork true, .child () true, .run, .kill () sigkill, .wait (.child () 9)]

theorem killedSample_runs : ((waitAndExit.system.run waitAndExit.initial killedSample).map
    (fun s => (s.child (), s.fate (), s.reports))) =
      some (.reaped, some (.killed sigkill), [((), 9)]) := by
  decide

theorem waitAndExit_tells_killed :
    ∃ s, waitAndExit.system.run waitAndExit.initial killedSample = some s ∧
    .killedBySignal () ∈ s.reports.flatMap waitLines := by
  obtain ⟨s, hs, hx⟩ := Option.map_eq_some_iff.mp killedSample_runs
  simp only [Prod.mk.injEq] at hx
  have htells := waitAndExit_tells (.run killedSample (.init rfl) hs)
  exact ⟨s, hs, htells.1.mpr ⟨hx.1, sigkill, hx.2.1⟩⟩

/-- In 7_2 each wait tells of another child, and of each what is so. -/
theorem multipleProcesses_tells {s : State Name (Line Name)}
    (h : multipleProcesses.system.Reachable s) :
    (s.reports.map Prod.fst).Nodup ∧
      ∀ c, (.killedBySignal c ∈ s.reports.flatMap waitLines ↔
          s.child c = .reaped ∧ ∃ k, s.fate c = some (.killed k)) ∧
        ∀ status, .done c status ∈ s.reports.flatMap waitLines →
          (∃ k, s.fate c = some (.killed k)) ∨
            status = (if c = .c1 then 256 else 512) ∧ s.childLines c = [.started c, .wokeUp c] := by
  refine ⟨(reports_fate h).1, fun c => ⟨killed_line_iff h, fun status hd => ?_⟩⟩
  cases c with
  | c1 => exact sleeper_told h rfl hd
  | c2 => exact sleeper_told h rfl hd

def sigsegv : Kill where
  signal := 11
  core := true
  pos := by decide
  lt := by decide

def bothSample : List (Action Name) :=
  [.fork true, .fork true, .child .c2 true, .child .c2 true, .child .c2 true, .run,
    .wait (.child .c2 512), .kill .c1 sigsegv, .wait (.child .c1 139)]

theorem bothSample_runs : ((multipleProcesses.system.run multipleProcesses.initial bothSample).map
    (fun s => s.reports)) = some [(.c2, 512), (.c1, 139)] := by
  decide

theorem multipleProcesses_tells_both :
    ∃ s, multipleProcesses.system.run multipleProcesses.initial bothSample = some s ∧
      ∃ k, s.fate .c1 = some (.killed k) := by
  obtain ⟨s, hs, hx⟩ := Option.map_eq_some_iff.mp bothSample_runs
  refine ⟨s, hs, (((multipleProcesses_tells (.run bothSample (.init rfl) hs)).2 .c1).1.mp ?_).2⟩
  rw [hx]
  decide

/-- The status that 8_4 tells shows which program has ended: 1280 is that of P2, which has written
the arguments, 0 that of the copy of P1 in which `execl` failed, any other that of a killed child. -/
theorem forkAndExec_tells {s : State Unit (Line Unit)} (h : forkAndExec.system.Reachable s)
    {status : ℕ} (hr : ((), status) ∈ s.reports) :
    (status = 1280 → s.fate () = some (.exited 5) ∧ s.childLines () =
        [.beforeExecl, .newProcess, .passedArguments, .argv 0 "arg1", .argv 1 "arg2"]) ∧
      (status = 0 → s.fate () = some (.exited 0) ∧
        s.childLines () = [.beforeExecl, .notPrinted]) ∧
      (status ≠ 1280 → status ≠ 0 →
        ∃ k, s.fate () = some (.killed k) ∧ status = (End.killed k).status) := by
  obtain ⟨_, e, he, rfl, hlines⟩ := (reports_fate h).2 () status hr
  cases e with
  | killed k =>
    obtain ⟨hpos, hlt⟩ := (status_killed_iff (.killed k)).mpr ⟨k, rfl⟩
    exact ⟨fun h5 => absurd h5 (by omega), fun h0 => absurd h0 hpos, fun _ _ => ⟨k, he, rfl⟩⟩
  | exited n =>
    have := hlines n rfl
    simp only [forkAndExec, newProgram, Body.endings, List.map_cons, List.map_nil, List.cons_append,
      List.nil_append, List.mem_cons, List.not_mem_nil, or_false, Prod.mk.injEq] at this
    rcases this with ⟨hw, rfl⟩ | ⟨hw, rfl⟩
    · exact ⟨fun h5 => absurd h5 (by decide), fun _ => ⟨he, hw⟩, fun _ h0 => absurd rfl h0⟩
    · exact ⟨fun _ => ⟨he, hw⟩, fun h0 => absurd h0 (by decide), fun h5 => absurd rfl h5⟩

def execSample : List (Action Unit) :=
  [.fork true, .child () true, .child () true, .child () true, .child () true, .child () true, .run,
    .child () true, .child () true, .wait (.child () 1280)]

theorem execSample_runs : ((forkAndExec.system.run forkAndExec.initial execSample).map
    (fun s => s.reports)) = some [((), 1280)] := by
  decide

theorem forkAndExec_tells_exec :
    ∃ s, forkAndExec.system.run forkAndExec.initial execSample = some s ∧ s.childLines () =
      [.beforeExecl, .newProcess, .passedArguments, .argv 0 "arg1", .argv 1 "arg2"] := by
  obtain ⟨s, hs, hx⟩ := Option.map_eq_some_iff.mp execSample_runs
  have hr : ((), 1280) ∈ s.reports := by rw [hx]; decide
  exact ⟨s, hs, ((forkAndExec_tells (.run execSample (.init rfl) hs) hr).1 rfl).2⟩

end LinuxSystemProgramming.WaitingParents
