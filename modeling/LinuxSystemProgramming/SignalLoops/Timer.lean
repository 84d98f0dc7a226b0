import LinuxSystemProgramming.Lib.Signals
import LinuxSystemProgramming.Lib.Transition
import Mathlib.Data.List.Range

/-!
The program 9_2: it sleeps in `sigsuspend` until `alarm` sends SIGALRM, counts, sets the timer again
and ends at the threshold. A `tick` is a second of the timer and may fall at any place of the
program; `send` is a SIGALRM from another process.
-/

namespace LinuxSystemProgramming.SignalLoops.Timer

open Signals Transition

inductive Sig
  | alrm
  deriving DecidableEq

structure Settings where
  tInitial : ℕ
  tPeriodic : ℕ
  tEnd : ℕ
  initial_pos : 0 < tInitial
  periodic_pos : 0 < tPeriodic
  end_pos : 0 < tEnd

def timers : Settings where
  tInitial := 2
  tPeriodic := 1
  tEnd := 5
  initial_pos := by decide
  periodic_pos := by decide
  end_pos := by decide

def Settings.due (S : Settings) (n : ℕ) : ℕ := S.tInitial + n * S.tPeriodic

inductive Pc
  | sigprocmask
  | sigaction
  | alarmInitial
  | test
  | suspend
  | suspended
  | returning
  | report
  | alarmPeriodic
  | exiting
  | exited (status : ℕ)
  | terminated
  deriving DecidableEq

def Pc.ended : Pc → Bool
  | .exited _ | .terminated => true
  | _ => false

def Pc.wake : Pc → Pc
  | .suspended => .returning
  | pc => pc

/-- `timer` is what is left of the alarm, 0 when none is set; `clock` counts the seconds and `idle`
those in which no timer is set. `lines` has the counter in each line "Caught" and the time of it. -/
structure State where
  pc : Pc
  sig : SigState Sig
  caught : Bool
  counter : ℕ
  lines : List (ℕ × ℕ)
  timer : ℕ
  clock : ℕ
  idle : ℕ

inductive Action
  | run
  | fails
  | deliver
  | tick
  | send
  deriving DecidableEq

namespace State

def initial : State where
  pc := .sigprocmask
  sig := .initial
  caught := false
  counter := 0
  lines := []
  timer := 0
  clock := 0
  idle := 0

def alarm (s : State) (seconds : ℕ) : State := { s with timer := seconds }

def report (s : State) (tEnd : ℕ) : State := { s with
  lines := s.lines ++ [(s.counter, s.clock)]
  counter := s.counter + 1
  pc := if s.counter + 1 = tEnd then .exiting else .alarmPeriodic }

def main (S : Settings) (s : State) : Option State :=
  match s.pc with
  | .sigprocmask => some { s with sig := s.sig.block (mask [.alrm]), pc := .sigaction }
  | .sigaction => some { s with sig := s.sig.handle .alrm, pc := .alarmInitial }
  | .alarmInitial => some { s.alarm S.tInitial with pc := .test }
  | .test => some { s with pc := if s.caught then .exiting else .suspend }
  | .suspend => some { s with sig := s.sig.suspend (mask []), pc := .suspended }
  | .returning => some { s with sig := s.sig.resume, pc := .report }
  | .report => some (s.report S.tEnd)
  | .alarmPeriodic => some { s.alarm S.tPeriodic with caught := false, pc := .test }
  | .exiting => some { s with pc := .exited 0 }
  | .suspended | .exited _ | .terminated => none

def fails (s : State) : Option State :=
  match s.pc with
  | .sigprocmask | .sigaction => some { s with pc := .exited 1 }
  | _ => none

def signalHandler (s : State) : Sig → State
  | .alrm => { s with caught := true }

def deliver (s : State) : Option State :=
  if s.pc.ended = false ∧ s.sig.deliverable .alrm = true then
    if s.sig.handled .alrm then
      some { s.signalHandler .alrm with sig := s.sig.take .alrm, pc := s.pc.wake }
    else some { s with sig := s.sig.take .alrm, pc := .terminated }
  else none

def tick (s : State) : Option State :=
  if s.pc.ended then none
  else some { s with
    clock := s.clock + 1
    idle := if s.timer = 0 then s.idle + 1 else s.idle
    timer := s.timer - 1
    sig := if s.timer = 1 then s.sig.send .alrm else s.sig }

def send (s : State) : Option State :=
  if s.pc.ended then none else some { s with sig := s.sig.send .alrm }

def next (S : Settings) (s : State) : Action → Option State
  | .run => s.main S
  | .fails => s.fails
  | .deliver => s.deliver
  | .tick => s.tick
  | .send => s.send

end State

def system (S : Settings) : System State Action where
  init s := s = State.initial
  next := State.next S

abbrev All : Sig → Prop := fun _ => True

def SigInv (pc : Pc) (p : SigState Sig) : Prop :=
  match pc with
  | .sigprocmask | .terminated => p.blocked .alrm = false ∧ p.handled .alrm = false
  | .sigaction => Signals.Closed All p
  | .alarmInitial | .test | .suspend | .report | .alarmPeriodic | .exiting => Armed All p
  | .suspended | .returning => Waiting All p
  | .exited _ => True

-- While the loop waits the flag is down and something is on the way that will set it.
def LoopInv (S : Settings) (s : State) : Prop :=
  match s.pc with
  | .sigprocmask | .sigaction | .alarmInitial =>
    s.caught = false ∧ s.counter = 0 ∧ s.timer = 0
  | .test | .suspend | .suspended =>
    s.caught = false ∧ s.counter < S.tEnd ∧ (0 < s.timer ∨ s.sig.pending .alrm = true)
  | .returning | .report | .alarmPeriodic => s.caught = true ∧ s.counter < S.tEnd
  | .exiting => s.counter = S.tEnd
  | .exited status => status = 0 → s.counter = S.tEnd
  | .terminated => s.counter = 0

structure Inv (S : Settings) (s : State) : Prop where
  sig : SigInv s.pc s.sig
  loop : LoopInv S s
  lines : s.lines.map Prod.fst = List.range s.counter

variable {S : Settings} {s s' : State} {a : Action}

inductive MainStep (S : Settings) (s : State) : State → Prop
  | blocks (hp : s.pc = .sigprocmask) :
      MainStep S s { s with sig := s.sig.block (mask [.alrm]), pc := .sigaction }
  | handles (hp : s.pc = .sigaction) :
      MainStep S s { s with sig := s.sig.handle .alrm, pc := .alarmInitial }
  | sets (hp : s.pc = .alarmInitial) : MainStep S s { s.alarm S.tInitial with pc := .test }
  | leaves (hp : s.pc = .test) (hc : s.caught = true) : MainStep S s { s with pc := .exiting }
  | stays (hp : s.pc = .test) (hc : s.caught = false) : MainStep S s { s with pc := .suspend }
  | suspends (hp : s.pc = .suspend) :
      MainStep S s { s with sig := s.sig.suspend (mask []), pc := .suspended }
  | resumes (hp : s.pc = .returning) : MainStep S s { s with sig := s.sig.resume, pc := .report }
  | reports (hp : s.pc = .report) (hn : s.counter + 1 ≠ S.tEnd) :
      MainStep S s { s.report S.tEnd with pc := .alarmPeriodic }
  | reportsLast (hp : s.pc = .report) (hn : s.counter + 1 = S.tEnd) :
      MainStep S s { s.report S.tEnd with pc := .exiting }
  | resets (hp : s.pc = .alarmPeriodic) :
      MainStep S s { s.alarm S.tPeriodic with caught := false, pc := .test }
  | exits (hp : s.pc = .exiting) : MainStep S s { s with pc := .exited 0 }

theorem main_step (hs : s.main S = some s') : MainStep S s s' := by
  unfold State.main at hs
  split at hs
  next hp => cases hs; exact .blocks hp
  next hp => cases hs; exact .handles hp
  next hp => cases hs; exact .sets hp
  next hp =>
    cases hs
    split
    next hc => exact .leaves hp hc
    next hc => exact .stays hp (Bool.eq_false_iff.mpr hc)
  next hp => cases hs; exact .suspends hp
  next hp => cases hs; exact .resumes hp
  next hp =>
    cases hs
    by_cases hn : s.counter + 1 = S.tEnd
    · simpa [State.report, hn] using MainStep.reportsLast hp hn
    · simpa [State.report, hn] using MainStep.reports hp hn
  next hp => cases hs; exact .resets hp
  next hp => cases hs; exact .exits hp
  next => cases hs
  next => cases hs
  next => cases hs

theorem report_lines (h : s.lines.map Prod.fst = List.range s.counter) (n : ℕ) :
    (s.report n).lines.map Prod.fst = List.range (s.report n).counter := by
  simp [State.report, h, List.range_succ]

theorem inv_run (h : Inv S s) (hs : s.main S = some s') : Inv S s' := by
  obtain ⟨hsig, hloop, hlines⟩ := h
  unfold LoopInv at hloop
  cases main_step hs with
  | blocks hp =>
    simp only [hp] at hloop
    refine ⟨?_, hloop, hlines⟩
    apply Signals.Closed.of_block (fun _ _ => trivial)
    rintro ⟨⟩ _
    rfl
  | handles hp =>
    rw [hp] at hsig
    simp only [hp] at hloop
    refine ⟨⟨hsig.handle _, ?_⟩, hloop, hlines⟩
    rintro ⟨⟩ _
    exact SigState.handle_self _ _
  | sets hp =>
    rw [hp] at hsig
    simp only [hp] at hloop
    refine ⟨hsig, ⟨hloop.1, ?_, .inl S.initial_pos⟩, hlines⟩
    change s.counter < S.tEnd
    rw [hloop.2.1]
    exact S.end_pos
  | leaves hp hc =>
    simp only [hp] at hloop
    rw [hloop.1] at hc
    cases hc
  | stays hp hc =>
    rw [hp] at hsig
    simp only [hp] at hloop
    exact ⟨hsig, hloop, hlines⟩
  | suspends hp =>
    rw [hp] at hsig
    simp only [hp] at hloop
    exact ⟨hsig.suspend (fun _ _ => rfl), hloop, hlines⟩
  | resumes hp =>
    rw [hp] at hsig
    simp only [hp] at hloop
    exact ⟨hsig.resume, hloop, hlines⟩
  | reports hp hn =>
    rw [hp] at hsig
    simp only [hp] at hloop
    exact ⟨hsig, ⟨hloop.1, Nat.lt_of_le_of_ne hloop.2 hn⟩, report_lines hlines S.tEnd⟩
  | reportsLast hp hn =>
    rw [hp] at hsig
    exact ⟨hsig, hn, report_lines hlines S.tEnd⟩
  | resets hp =>
    rw [hp] at hsig
    simp only [hp] at hloop
    exact ⟨hsig, ⟨rfl, hloop.2, .inl S.periodic_pos⟩, hlines⟩
  | exits hp =>
    simp only [hp] at hloop
    exact ⟨trivial, fun _ => hloop, hlines⟩

theorem delivered_handled (h : Inv S s) (hp : s.pc ≠ .sigprocmask) (hend : s.pc.ended = false)
    (hd : s.sig.deliverable .alrm = true) :
    (s.sig.handled .alrm = true ∧ s.pc.wake = .returning) ∧
      Waiting All s.sig ∧ s.counter < S.tEnd := by
  have hclosed : ¬ Signals.Closed All s.sig := by
    intro hc
    rw [hc.not_deliverable .alrm] at hd
    cases hd
  have hsig := h.sig
  have hloop := h.loop
  unfold LoopInv at hloop
  cases hpc : s.pc <;> rw [hpc] at hsig <;> simp only [hpc] at hloop
  case sigprocmask => exact absurd hpc hp
  case suspended => exact ⟨⟨hsig.deliver hd, rfl⟩, hsig, hloop.2.1⟩
  case returning => exact ⟨⟨hsig.deliver hd, rfl⟩, hsig, hloop.2⟩
  case exited => rw [hpc] at hend; cases hend
  case terminated => rw [hpc] at hend; cases hend
  case sigaction => exact absurd hsig hclosed
  all_goals exact absurd hsig.toClosed hclosed

theorem inv_deliver (h : Inv S s) (hs : s.deliver = some s') : Inv S s' := by
  obtain ⟨⟨hend, hd⟩, hs⟩ := Option.ite_none_right_eq_some.mp hs
  by_cases hp : s.pc = .sigprocmask
  · have hsig := h.sig
    rw [hp] at hsig
    rw [if_neg (by simp [hsig.2])] at hs
    have hloop := h.loop
    simp only [LoopInv, hp] at hloop
    cases hs
    exact ⟨hsig, hloop.2.1, h.lines⟩
  · obtain ⟨⟨hhandled, hwake⟩, hwaits, hcount⟩ := delivered_handled h hp hend hd
    rw [if_pos hhandled] at hs
    cases hs
    simp only [hwake]
    exact ⟨hwaits.take _, ⟨rfl, hcount⟩, h.lines⟩

theorem sigInv_send {pc : Pc} {p : SigState Sig} (h : SigInv pc p) : SigInv pc (p.send .alrm) := by
  cases pc with
  | sigaction => exact Signals.Closed.send h trivial
  | alarmInitial | test | suspend | report | alarmPeriodic | exiting => exact Armed.send h trivial
  | suspended | returning => exact Waiting.send h trivial
  | sigprocmask | terminated | exited => exact h

theorem inv_send (h : Inv S s) (hs : s.send = some s') : Inv S s' := by
  obtain ⟨_, hs⟩ := Option.ite_none_left_eq_some.mp hs
  cases hs
  refine ⟨sigInv_send h.sig, ?_, h.lines⟩
  have hloop := h.loop
  unfold LoopInv at hloop ⊢
  cases hpc : s.pc <;> simp only [hpc] at hloop ⊢
  case test | suspend | suspended => exact ⟨hloop.1, hloop.2.1, .inr (SigState.send_self _ _)⟩
  all_goals exact hloop

theorem inv_tick (h : Inv S s) (hs : s.tick = some s') : Inv S s' := by
  obtain ⟨_, hs⟩ := Option.ite_none_left_eq_some.mp hs
  cases hs
  refine ⟨?_, ?_, h.lines⟩
  · dsimp only
    split
    · exact sigInv_send h.sig
    · exact h.sig
  · have hloop := h.loop
    have hrings : 0 < s.timer ∨ s.sig.pending .alrm = true →
        0 < s.timer - 1 ∨
          (if s.timer = 1 then s.sig.send .alrm else s.sig).pending .alrm = true := by
      rintro (ht | hpend)
      · by_cases h1 : s.timer = 1
        · right
          rw [if_pos h1]
          exact SigState.send_self _ _
        · left
          omega
      · right
        split
        · exact SigState.send_self _ _
        · exact hpend
    unfold LoopInv at hloop ⊢
    cases hpc : s.pc <;> simp only [hpc] at hloop ⊢
    case test | suspend | suspended => exact ⟨hloop.1, hloop.2.1, hrings hloop.2.2⟩
    case sigprocmask | sigaction | alarmInitial => exact ⟨hloop.1, hloop.2.1, by omega⟩
    all_goals exact hloop

theorem inv_fails (h : Inv S s) (hs : s.fails = some s') : Inv S s' := by
  unfold State.fails at hs
  split at hs <;> cases hs <;> exact ⟨trivial, (fun h0 => by cases h0), h.lines⟩

theorem inv_reachable (h : (system S).Reachable s) : Inv S s := by
  apply System.Reachable.induct (I := Inv S) ?_ ?_ h
  · rintro s rfl
    exact ⟨⟨rfl, rfl⟩, ⟨rfl, rfl, rfl⟩, rfl⟩
  · intro s a s' _ ih hs
    cases a with
    | run => exact inv_run ih hs
    | fails => exact inv_fails ih hs
    | deliver => exact inv_deliver ih hs
    | tick => exact inv_tick ih hs
    | send => exact inv_send ih hs

theorem not_terminated (h : Inv S s) (hend : s.pc.ended = false) (hs : s.next S a = some s')
    (hx : s'.pc = .terminated) : s.pc = .sigprocmask := by
  by_contra hp
  cases a with
  | run => cases main_step hs <;> cases hx
  | fails =>
    change s.fails = some s' at hs
    unfold State.fails at hs
    split at hs <;> cases hs <;> cases hx
  | deliver =>
    obtain ⟨⟨_, hd⟩, hs⟩ := Option.ite_none_right_eq_some.mp hs
    obtain ⟨⟨hhandled, hwake⟩, _⟩ := delivered_handled h hp hend hd
    rw [if_pos hhandled] at hs
    cases hs
    change s.pc.wake = .terminated at hx
    rw [hwake] at hx
    cases hx
  | tick | send =>
    obtain ⟨_, hs⟩ := Option.ite_none_left_eq_some.mp hs
    cases hs
    change s.pc = .terminated at hx
    rw [hx] at hend
    cases hend

/-- 9_2 with a SIGALRM from anyone at any time: only one that comes before the mask is set can end
it; the lines count from 0, at the exit up to the threshold; and no wake-up is lost: while it waits
a timer is set or a SIGALRM is pending, and such a signal can be delivered. -/
theorem rings (h : (system S).Reachable s) :
    (∀ a t, s.pc.ended = false → s.next S a = some t → t.pc = .terminated →
      s.pc = .sigprocmask) ∧
      (s.pc = .terminated → s.sig.blocked .alrm = false ∧ s.lines = []) ∧
      s.lines.map Prod.fst = List.range s.counter ∧
      (s.pc = .exited 0 → s.counter = S.tEnd) ∧
      (s.pc = .suspended → s.caught = false ∧ (0 < s.timer ∨
        s.sig.deliverable .alrm = true ∧ s.sig.handled .alrm = true)) := by
  obtain ⟨hsig, hloop, hlines⟩ := inv_reachable h
  unfold LoopInv at hloop
  refine ⟨fun a t hend hs => not_terminated (inv_reachable h) hend hs, fun hp => ?_, hlines, fun hp => ?_,
    fun hp => ?_⟩
  · rw [hp] at hsig
    simp only [hp] at hloop
    rw [hloop] at hlines
    exact ⟨hsig.1, List.map_eq_nil_iff.mp hlines⟩
  · simp only [hp] at hloop
    exact hloop trivial
  · rw [hp] at hsig
    simp only [hp] at hloop
    refine ⟨hloop.1, hloop.2.2.imp_right fun hpend => ?_⟩
    have hd := hsig.deliverable hpend
    exact ⟨hd, hsig.deliver hd⟩

def sample : List Action :=
  [.run, .run, .run, .run, .run, .tick, .tick, .deliver, .run, .run, .run, .run, .run, .send]

theorem sample_runs : (((system timers).run State.initial sample).map
    (fun s => (s.pc, s.timer, s.lines))) = some (.suspended, 1, [(0, 2)]) := by
  decide

theorem rings_sample : ∃ s, (system timers).run State.initial sample = some s ∧
    s.caught = false := by
  obtain ⟨s, hs, hx⟩ := Option.map_eq_some_iff.mp sample_runs
  simp only [Prod.mk.injEq] at hx
  exact ⟨s, hs, ((rings (.run sample (.init rfl) hs)).2.2.2.2 hx.1).1⟩

def Alone (_ : State) (a : Action) : Prop := a ≠ .send

def TimeInv (S : Settings) (s : State) : Prop :=
  match s.pc with
  | .sigprocmask | .sigaction | .alarmInitial =>
    s.timer = 0 ∧ s.sig.pending .alrm = false ∧ s.clock = s.idle
  | .test | .suspend | .suspended =>
    (s.sig.pending .alrm = true → s.timer = 0) ∧ s.clock + s.timer = S.due s.counter + s.idle
  | .returning | .report =>
    s.timer = 0 ∧ s.sig.pending .alrm = false ∧ s.clock = S.due s.counter + s.idle
  | .alarmPeriodic =>
    s.timer = 0 ∧ s.sig.pending .alrm = false ∧
      s.clock + S.tPeriodic = S.due s.counter + s.idle
  | _ => True

def LineTimes (S : Settings) (s : State) : Prop :=
  ∀ n t, (n, t) ∈ s.lines → S.due n ≤ t ∧ t ≤ S.due n + s.idle

theorem due_succ (n : ℕ) : S.due (n + 1) = S.due n + S.tPeriodic := by
  simp only [Settings.due, Nat.succ_mul]
  omega

theorem report_times (h : LineTimes S s) (ht : s.clock = S.due s.counter + s.idle) (n : ℕ) :
    LineTimes S (s.report n) := by
  intro m t hm
  rcases List.mem_append.mp hm with hm | hm
  · exact h m t hm
  · simp only [List.mem_singleton, Prod.mk.injEq] at hm
    obtain ⟨rfl, rfl⟩ := hm
    change S.due s.counter ≤ s.clock ∧ s.clock ≤ S.due s.counter + s.idle
    omega

theorem times_run (hinv : Inv S s) (h : TimeInv S s ∧ LineTimes S s) (hs : s.main S = some s') :
    TimeInv S s' ∧ LineTimes S s' := by
  obtain ⟨htime, hlines⟩ := h
  unfold TimeInv at htime
  cases main_step hs with
  | blocks hp | handles hp | stays hp | suspends hp | resumes hp =>
    simp only [hp] at htime
    exact ⟨htime, hlines⟩
  | sets hp =>
    have hloop := hinv.loop
    simp only [LoopInv, hp] at htime hloop
    obtain ⟨_, hpend, hclock⟩ := htime
    refine ⟨⟨fun hf => ?_, ?_⟩, hlines⟩
    · rw [State.alarm, hpend] at hf
      cases hf
    · change s.clock + S.tInitial = S.due s.counter + s.idle
      rw [hloop.2.1, Settings.due]
      omega
  | reportsLast hp =>
    simp only [hp] at htime
    exact ⟨trivial, report_times hlines htime.2.2 S.tEnd⟩
  | reports hp =>
    simp only [hp] at htime
    obtain ⟨htimer, hpend, hclock⟩ := htime
    refine ⟨⟨htimer, hpend, ?_⟩, report_times hlines hclock S.tEnd⟩
    change s.clock + S.tPeriodic = S.due (s.counter + 1) + s.idle
    rw [due_succ]
    omega
  | resets hp =>
    simp only [hp] at htime
    obtain ⟨_, hpend, hclock⟩ := htime
    refine ⟨⟨fun hf => ?_, hclock⟩, hlines⟩
    rw [State.alarm, hpend] at hf
    cases hf
  | leaves hp | exits hp => exact ⟨trivial, hlines⟩

theorem take_alrm (p : SigState Sig) : (p.take .alrm).pending .alrm = false := by
  simp [SigState.take]

theorem times_deliver (hinv : Inv S s) (h : TimeInv S s ∧ LineTimes S s)
    (hs : s.deliver = some s') : TimeInv S s' ∧ LineTimes S s' := by
  obtain ⟨⟨hend, hd⟩, hs⟩ := Option.ite_none_right_eq_some.mp hs
  have hpend := (SigState.deliverable_iff.mp hd).1
  split_ifs at hs with hh
  · have hp : s.pc ≠ .sigprocmask := by
      intro hp
      have hsig := hinv.sig
      rw [hp] at hsig
      rw [hsig.2] at hh
      cases hh
    obtain ⟨⟨_, hwake⟩, _⟩ := delivered_handled hinv hp hend hd
    have htime := h.1
    unfold TimeInv at htime
    cases hs
    refine ⟨?_, h.2⟩
    simp only [TimeInv, hwake]
    cases hpc : s.pc <;> rw [hpc] at hwake <;> simp only [hpc] at htime
    case suspended =>
      have ht := htime.1 hpend
      refine ⟨ht, take_alrm _, ?_⟩
      have := htime.2
      change s.clock = S.due s.counter + s.idle
      omega
    case returning =>
      rw [htime.2.1] at hpend
      cases hpend
    all_goals cases hwake
  · cases hs
    exact ⟨trivial, h.2⟩

theorem times_tick (h : TimeInv S s ∧ LineTimes S s) (hs : s.tick = some s') :
    TimeInv S s' ∧ LineTimes S s' := by
  obtain ⟨_, hs⟩ := Option.ite_none_left_eq_some.mp hs
  obtain ⟨htime, hlines⟩ := h
  cases hs
  constructor
  · unfold TimeInv at htime ⊢
    cases hpc : s.pc <;> simp only [hpc] at htime ⊢
    case test | suspend | suspended =>
      obtain ⟨hpend, hclock⟩ := htime
      refine ⟨fun hf => ?_, ?_⟩
      · by_cases h1 : s.timer = 1
        · omega
        · rw [if_neg h1] at hf
          rw [hpend hf]
      · split <;> omega
    all_goals
      obtain ⟨ht, hpend, hclock⟩ := htime
      rw [ht]
      refine ⟨rfl, hpend, ?_⟩
      simp only [if_true]
      omega
  · intro n t hm
    have := hlines n t hm
    dsimp only
    split <;> omega

theorem times_reachable (h : (system S).ReachableWhile Alone s) : TimeInv S s ∧ LineTimes S s := by
  apply System.ReachableWhile.induct (I := fun s => TimeInv S s ∧ LineTimes S s) ?_ ?_ h
  · rintro s rfl
    refine ⟨⟨rfl, rfl, rfl⟩, ?_⟩
    intro n t hm
    cases hm
  · intro s a s' hr ih ha hs
    have hinv := inv_reachable hr.reachable
    cases a with
    | run => exact times_run hinv ih hs
    | deliver => exact times_deliver hinv ih hs
    | tick => exact times_tick ih hs
    | send => exact absurd rfl ha
    | fails =>
      change s.fails = some s' at hs
      unfold State.fails at hs
      split at hs <;> cases hs <;> exact ⟨trivial, ih.2⟩

/-- Without a SIGALRM from outside line `n` is never printed early, and the clock of 9_2 is late by
no more than the seconds in which no timer was set. -/
theorem keeps_time (h : (system S).ReachableWhile Alone s) (n t : ℕ) (ht : (n, t) ∈ s.lines) :
    S.due n ≤ t ∧ t ≤ S.due n + s.idle :=
  (times_reachable h).2 n t ht

theorem keeps_time_sample : ∃ s, (system timers).run State.initial (sample.take 13) = some s ∧
    ∀ t, (0, t) ∈ s.lines → timers.due 0 ≤ t ∧ t ≤ timers.due 0 + s.idle := by
  have hrun : ((system timers).runWhile (fun _ a => a != .send) State.initial
      (sample.take 13)).isSome = true := by decide
  obtain ⟨s, hs⟩ := Option.isSome_iff_exists.mp hrun
  refine ⟨s, hs, fun t ht => keeps_time (.run ?_ _ (.init rfl) hs) 0 t ht⟩
  intro s a ha
  exact bne_iff_ne.mp ha

def Prompt (s : State) (a : Action) : Prop :=
  a = .run ∨ a = .deliver ∨ a = .tick ∧ s.timer ≠ 0

def Pc.rank : Pc → ℕ
  | .sigprocmask => 13
  | .sigaction => 12
  | .alarmInitial => 11
  | .alarmPeriodic => 10
  | .test => 9
  | .suspend => 8
  | .suspended => 7
  | .returning => 6
  | .report => 5
  | .exiting => 4
  | .exited _ | .terminated => 0

def Settings.coming (S : Settings) : Pc → ℕ
  | .sigprocmask | .sigaction | .alarmInitial => 3 * S.tInitial
  | .alarmPeriodic => 3 * S.tPeriodic
  | _ => 0

def rank (S : Settings) (s : State) : ℕ :=
  (S.tEnd - s.counter) * (3 * S.tPeriodic + 6) + S.coming s.pc + s.pc.rank + 3 * s.timer +
    2 * (s.sig.pending .alrm).toNat

theorem rank_run (h : Inv S s) (hs : s.main S = some s') : rank S s' < rank S s := by
  have hloop := h.loop
  unfold LoopInv at hloop
  cases main_step hs with
  | leaves hp hc =>
    simp only [hp] at hloop
    rw [hloop.1] at hc
    cases hc
  | reports hp | reportsLast hp =>
    simp only [hp] at hloop
    have hcount : S.tEnd - s.counter = (S.tEnd - (s.counter + 1)) + 1 := by omega
    simp only [rank, hp, Pc.rank, Settings.coming, State.report, hcount, Nat.succ_mul]
    omega
  | blocks hp | handles hp | sets hp | stays hp | suspends hp | resumes hp | resets hp
  | exits hp =>
    simp only [rank, hp, Pc.rank, Settings.coming, SigState.block, SigState.handle,
      SigState.suspend, SigState.resume, State.alarm]
    omega

theorem rank_deliver (hs : s.deliver = some s') : rank S s' < rank S s := by
  obtain ⟨⟨hend, hd⟩, hs⟩ := Option.ite_none_right_eq_some.mp hs
  have hpend := (SigState.deliverable_iff.mp hd).1
  have hwake : S.coming s.pc.wake + s.pc.wake.rank ≤ S.coming s.pc + s.pc.rank := by
    cases s.pc <;> simp [Pc.wake, Pc.rank, Settings.coming]
  split_ifs at hs
  · cases hs
    simp only [rank, hpend, take_alrm, State.signalHandler, Bool.toNat_true, Bool.toNat_false]
    omega
  · cases hs
    simp only [rank, hpend, take_alrm, Pc.rank, Settings.coming, Bool.toNat_true,
      Bool.toNat_false]
    omega

theorem rank_tick (ht : s.timer ≠ 0) (hs : s.tick = some s') : rank S s' < rank S s := by
  obtain ⟨_, hs⟩ := Option.ite_none_left_eq_some.mp hs
  cases hs
  have := Bool.toNat_le ((if s.timer = 1 then s.sig.send .alrm else s.sig).pending .alrm)
  simp only [rank]
  omega

theorem goes_on (h : Inv S s) (hend : s.pc.ended = false) :
    ∃ t, (system S).StepWhile Prompt s t := by
  by_cases hp : s.pc = .suspended
  · have hsig := h.sig
    have hloop := h.loop
    rw [hp] at hsig
    simp only [LoopInv, hp] at hloop
    rcases hloop.2.2 with ht | hpend
    · have hrun : s.tick.isSome = true := by simp [State.tick, hp, Pc.ended]
      obtain ⟨t, hs⟩ := Option.isSome_iff_exists.mp hrun
      exact ⟨t, .tick, .inr (.inr ⟨rfl, by omega⟩), hs⟩
    · have hd := hsig.deliverable hpend
      have hrun : s.deliver.isSome = true := by
        simp [State.deliver, hp, hd, hsig.deliver hd, Pc.ended]
      obtain ⟨t, hs⟩ := Option.isSome_iff_exists.mp hrun
      exact ⟨t, .deliver, .inr (.inl rfl), hs⟩
  · have hrun : (s.main S).isSome = true := by
      cases hpc : s.pc with
      | suspended => exact absurd hpc hp
      | exited => rw [hpc] at hend; cases hend
      | terminated => rw [hpc] at hend; cases hend
      | _ => simp [State.main, hpc]
    obtain ⟨t, hs⟩ := Option.isSome_iff_exists.mp hrun
    exact ⟨t, .run, .inl rfl, hs⟩

def Safe (s : State) : Prop :=
  s.pc = .exited 0 ∨
    s.pc.ended = false ∧ (s.pc = .sigprocmask → s.sig.pending .alrm = false)

theorem safe_run (hs : s.main S = some s') : Safe s' := by
  cases main_step hs with
  | exits hp => exact .inl rfl
  | blocks hp | handles hp | sets hp | leaves hp | stays hp | suspends hp | resumes hp
  | reports hp | reportsLast hp | resets hp => exact .inr ⟨rfl, fun hf => by cases hf⟩

theorem safe_deliver (hinv : Inv S s) (h : Safe s) (hs : s.deliver = some s') : Safe s' := by
  obtain ⟨⟨hend, hd⟩, hs⟩ := Option.ite_none_right_eq_some.mp hs
  have hp : s.pc ≠ .sigprocmask := by
    intro hp
    rcases h with hx | ⟨_, hpend⟩
    · rw [hp] at hx
      cases hx
    · rw [(SigState.deliverable_iff.mp hd).1] at hpend
      cases hpend hp
  obtain ⟨⟨hhandled, hwake⟩, _⟩ := delivered_handled hinv hp hend hd
  rw [if_pos hhandled] at hs
  cases hs
  right
  simp only [hwake]
  exact ⟨rfl, fun hf => by cases hf⟩

theorem safe_tick (hinv : Inv S s) (ht : s.timer ≠ 0) (hs : s.tick = some s') : Safe s' := by
  obtain ⟨hend, hs⟩ := Option.ite_none_left_eq_some.mp hs
  cases hs
  refine .inr ⟨Bool.eq_false_iff.mpr hend, fun hp => ?_⟩
  change s.pc = .sigprocmask at hp
  have hloop := hinv.loop
  simp only [LoopInv, hp] at hloop
  exact absurd hloop.2.2 ht

/-- With no second lost, 9_2 reaches the threshold from every state that has not ended and in which
no SIGALRM is pending before the mask is set, and exits with one line for each count. -/
theorem reaches_threshold (h : (system S).Reachable s) (hend : s.pc.ended = false)
    (hpend : s.pc = .sigprocmask → s.sig.pending .alrm = false) :
    (system S).Inevitable Prompt
      (fun t => t.pc = .exited 0 ∧ t.lines.map Prod.fst = List.range S.tEnd) s := by
  have hexits : (system S).Inevitable Prompt
      (fun t => (system S).Reachable t ∧ t.pc = .exited 0) s := by
    apply System.Inevitable.of_measure (I := fun t => (system S).Reachable t ∧ Safe t) (rank S)
      ?_ ?_ ⟨h, .inr ⟨hend, hpend⟩⟩
    · rintro s ⟨hr, hsafe⟩ hn
      rcases hsafe with hx | ⟨hend, _⟩
      · exact absurd ⟨hr, hx⟩ hn
      · exact goes_on (inv_reachable hr) hend
    · rintro s t ⟨hr, hsafe⟩ _ ⟨a, ha, hs⟩
      have hinv := inv_reachable hr
      rcases ha with rfl | rfl | ⟨rfl, ht⟩
      · exact ⟨⟨hr.step .run hs, safe_run hs⟩, rank_run hinv hs⟩
      · exact ⟨⟨hr.step .deliver hs, safe_deliver hinv hsafe hs⟩, rank_deliver hs⟩
      · exact ⟨⟨hr.step .tick hs, safe_tick hinv ht hs⟩, rank_tick ht hs⟩
  apply hexits.mono
  rintro t ⟨hr, hx⟩
  have hinv := inv_reachable hr
  have hloop := hinv.loop
  simp only [LoopInv, hx] at hloop
  refine ⟨hx, ?_⟩
  rw [hinv.lines, hloop trivial]

theorem reaches_threshold_sample : ∃ s, (system timers).run State.initial sample = some s ∧
    (system timers).Inevitable Prompt
      (fun t => t.pc = .exited 0 ∧ t.lines.map Prod.fst = List.range 5) s := by
  obtain ⟨s, hs, hx⟩ := Option.map_eq_some_iff.mp sample_runs
  simp only [Prod.mk.injEq] at hx
  refine ⟨s, hs, reaches_threshold (.run sample (.init rfl) hs) ?_ ?_⟩
  · rw [hx.1]
    rfl
  · rw [hx.1]
    rintro ⟨⟩

end LinuxSystemProgramming.SignalLoops.Timer
