import LinuxSystemProgramming.TimedLock.Safety

namespace LinuxSystemProgramming.TimedLock

open Transition

variable {second : ℕ} {s s' : State} {a : Action} {c : Call}

def Prompt (second : ℕ) (s : State) (a : Action) : Prop := a = .tick → s.idle second = true

-- t2 had the mutex before t1, which now loops for ever in a process without another thread.
def Stuck (s : State) : Prop := s.main = .ended ∧ s.t1 = .spin ∧ s.t2 = .ended

def Call.rank (second : ℕ) : Call → ℕ
  | .createT1 => 10 + second
  | .detachT1 => 8 + second
  | .createT2 => 4
  | .detachT2 => 3

def MainPc.rank (second clock : ℕ) : MainPc → ℕ
  | .call c => c.rank second
  | .sleep => 6 + second
  | .asleep wake => 5 + (wake - clock)
  | .exiting => 2
  | .again _ => 1
  | .dying | .ended => 0

def T1Pc.rank : T1Pc → ℕ
  | .notCreated => 2
  | .lock => 1
  | .spin => 0

def T2Pc.rank (second clock : ℕ) : T2Pc → ℕ
  | .notCreated => 7 + 2 * second
  | .getTime => 6 + 2 * second
  | .timedlock deadline => 5 + (deadline - clock)
  | .again _ => 4
  | .unlock => 3
  | .exiting => 2
  | .dying => 1
  | .ended => 0

def State.rank (second : ℕ) (s : State) : ℕ :=
  s.main.rank second s.clock + s.t1.rank + s.t2.rank second s.clock +
    if s.exited = none then 1 else 0

theorem rank_after (c : Call) (second clock : ℕ) :
    c.after.rank second clock < (MainPc.call c).rank second clock := by
  cases c <;> simp only [Call.after, MainPc.rank, Call.rank] <;> omega

theorem rank_again (c : Call) (second : ℕ) : 1 < c.rank second := by
  cases c <;> simp only [Call.rank] <;> omega

theorem rank_called (h : MainInv second s) (hc : Calling s c) :
    (s.called c).t1.rank ≤ s.t1.rank ∧
      (s.called c).t2.rank second s.clock ≤ s.t2.rank second s.clock := by
  obtain ⟨h1, h2, _⟩ := called_spec h hc
  constructor
  · rcases h1 with h1 | ⟨h1, h1'⟩
    · rw [h1]
    · rw [h1, h1']
      decide
  · rcases h2 with h2 | ⟨h2, h2', _⟩
    · rw [h2]
    · rw [h2, h2']
      simp only [T2Pc.rank]
      omega

theorem rank_main {err : ℕ} (h : Inv second s) (hex : s.exited = none)
    (hs : s.runMain second err = some s') : s'.rank second < s.rank second := by
  cases main_step hs with
  | @calls c hp =>
    obtain ⟨_, hclock, _, _, hexited⟩ := called_keeps s c
    have hcalled := rank_called h.main (.inl hp)
    have hafter := rank_after c second s.clock
    simp only [State.rank, hp, hclock, hexited]
    omega
  | @fails c hp =>
    have hagain := rank_again c second
    simp only [State.rank, hp, MainPc.rank]
    omega
  | @callsAgain c hp =>
    obtain ⟨_, hclock, _, _, hexited⟩ := called_keeps s c
    have hcalled := rank_called h.main (.inr hp)
    simp only [State.rank, State.report, hp, hclock, hexited, MainPc.rank]
    omega
  | dies hp => simp [State.rank, hex]
  | failsAgain hp | sleeps hp | wakes hp | ends hp =>
    simp only [State.rank, State.report, hp, MainPc.rank, Call.rank]
    omega

theorem rank_t1 (hs : s.threadFuncT1 = some s') : s'.rank second < s.rank second := by
  unfold State.threadFuncT1 at hs
  split at hs
  next hp =>
    obtain ⟨owner, _, rfl⟩ := Option.map_eq_some_iff.mp hs
    simp only [State.rank, hp, T1Pc.rank]
    omega
  next => cases hs
  next => cases hs

theorem rank_t2 (hex : s.exited = none) (hs : s.threadFuncT2 second = some s') :
    s'.rank second < s.rank second := by
  cases t2_step hs with
  | dies hp => simp [State.rank, hex]
  | getsTime hp | locks hp | timesOut hp | locksAgain hp | timesOutAgain hp | unlocks hp
  | ends hp =>
    simp only [State.rank, State.report, hp, T2Pc.rank]
    omega

theorem idle_waits (h : Inv second s) (hidle : s.idle second = true) (hn : ¬ Stuck s) :
    (∃ wake, s.main = .asleep wake ∧ s.clock < wake) ∨
      ∃ deadline, s.t2 = .timedlock deadline ∧ s.clock < deadline := by
  simp only [State.idle, Bool.and_eq_true, Option.isNone_iff_eq_none] at hidle
  obtain ⟨⟨hmain, ht1⟩, ht2⟩ := hidle
  have hcreated := h.main
  cases hm : s.main <;> simp [State.runMain, hm] at hmain
  case asleep wake => exact .inl ⟨wake, rfl, hmain⟩
  case ended =>
    right
    simp only [MainInv, hm] at hcreated
    have htime := h.t2
    cases hp : s.t2 <;> simp [State.threadFuncT2, hp] at ht2
    case notCreated => exact absurd hp hcreated.2
    case timedlock deadline => exact ⟨deadline, rfl, lt_of_blocked ht2⟩
    case again deadline =>
      simp only [T2Inv, hp] at htime
      exact absurd (lt_of_blocked ht2) (by omega)
    case unlock =>
      rw [(h.guards .t2).mp hp] at ht2
      cases ht2
    case ended =>
      exact absurd ⟨hm, spins_of_blocked h ht1 hcreated.1 (by simp [hp]), hp⟩ hn

theorem rank_tick (h : Inv second s) (hidle : s.idle second = true) (hn : ¬ Stuck s) :
    State.rank second { s with clock := s.clock + 1 } < s.rank second := by
  have hmain (pc : MainPc) : pc.rank second (s.clock + 1) ≤ pc.rank second s.clock := by
    cases pc <;> simp only [MainPc.rank] <;> omega
  have ht2 (pc : T2Pc) : pc.rank second (s.clock + 1) ≤ pc.rank second s.clock := by
    cases pc <;> simp only [T2Pc.rank] <;> omega
  have hmain' := hmain s.main
  have ht2' := ht2 s.t2
  rcases idle_waits h hidle hn with ⟨wake, hp, hlt⟩ | ⟨deadline, hp, hlt⟩
  · simp only [State.rank, hp, MainPc.rank]
    omega
  · simp only [State.rank, hp, T2Pc.rank]
    omega

theorem goes_on (hex : s.exited = none) : ∃ t, (system second).StepWhile (Prompt second) s t := by
  cases hidle : s.idle second with
  | true =>
    refine ⟨{ s with clock := s.clock + 1 }, .tick, fun _ => hidle, ?_⟩
    simp only [system, State.next, hex]
  | false =>
    have hgoes (a : Action) (ha : a ≠ .tick) (t : State) (hs : State.next second s a = some t) :
        ∃ t, (system second).StepWhile (Prompt second) s t := ⟨t, a, fun hf => absurd hf ha, hs⟩
    simp only [State.idle, Bool.and_eq_false_iff, Option.isNone_eq_false_iff,
      Option.isSome_iff_exists] at hidle
    rcases hidle with (⟨t, hs⟩ | ⟨t, hs⟩) | ⟨t, hs⟩
    · exact hgoes (.main 0) (by simp) t (by simpa only [State.next, hex] using hs)
    · exact hgoes .t1 (by simp) t (by simpa only [State.next, hex] using hs)
    · exact hgoes .t2 (by simp) t (by simpa only [State.next, hex] using hs)

theorem comes_to_end (h : (system second).Reachable s) :
    (system second).Inevitable (Prompt second)
      (fun t => t.exited = some exitFailure ∨ Stuck t) s := by
  have hlive (t : State) (hr : (system second).Reachable t)
      (hn : ¬ (t.exited = some exitFailure ∨ Stuck t)) : t.exited = none ∧ ¬ Stuck t := by
    obtain ⟨hne, hst⟩ := not_or.mp hn
    refine ⟨?_, hst⟩
    cases hex : t.exited with
    | none => rfl
    | some n => exact absurd (((inv_reachable hr).exited n hex).1 ▸ hex) hne
  apply System.Inevitable.of_measure (I := (system second).Reachable) (State.rank second) ?_ ?_ h
  · intro t hr hn
    exact goes_on (hlive t hr hn).1
  · rintro t u hr hn ⟨a, ha, hs⟩
    refine ⟨hr.step a hs, ?_⟩
    have hinv := inv_reachable hr
    obtain ⟨hex, ⟨_, _, hs⟩ | ⟨_, hs⟩ | ⟨_, hs⟩ | ⟨rfl, rfl⟩⟩ := next_cases hs
    · exact rank_main hinv hex hs
    · exact rank_t1 hs
    · exact rank_t2 hex hs
    · exact rank_tick hinv (ha rfl) (hlive t hr hn).2

structure PromptInv (second : ℕ) (s : State) : Prop where
  main : match s.main with
    | .call .createT1 | .again .createT1 | .call .detachT1 | .again .detachT1 | .sleep =>
      s.clock = 0
    | .asleep wake => wake = second ∧ s.clock ≤ second ∧ (s.clock = 0 ∨ s.t1 = .spin)
    | .call .createT2 | .again .createT2 => s.clock = second ∧ s.t1 = .spin
    | _ => True
  t2 : match s.t2 with
    | .notCreated => True
    | .getTime => s.clock = second ∧ s.t1 = .spin
    | .timedlock deadline => deadline = 3 * second ∧ s.clock ≤ deadline ∧ s.t1 = .spin
    | .again deadline => deadline = s.clock ∧ s.clock = 3 * second ∧ s.t1 = .spin
    | .dying => s.clock = 3 * second
    | .unlock | .exiting | .ended => False

theorem prompt_called (hinv : Inv second s) (h : PromptInv second s) (hc : Calling s c) :
    PromptInv second { s.called c with main := c.after } := by
  obtain ⟨hmain, ht2⟩ := h
  have hcreated := hinv.main
  unfold MainInv at hcreated
  rcases hc with hc | hc <;> cases c <;> simp only [hc] at hmain hcreated
  all_goals constructor <;> simp_all [State.called, Call.after]

theorem prompt_main {err : ℕ} (hpos : 0 < second) (hinv : Inv second s) (h : PromptInv second s)
    (hs : s.runMain second err = some s') : PromptInv second s' := by
  have hmain := h.main
  cases main_step hs with
  | calls hp => exact prompt_called hinv h (.inl hp)
  | @fails c hp =>
    refine ⟨?_, h.t2⟩
    rw [hp] at hmain
    cases c <;> exact hmain
  | callsAgain hp => exact ⟨trivial, (prompt_called hinv h (.inr hp)).t2⟩
  | dies hp => exact ⟨h.main, h.t2⟩
  | sleeps hp =>
    simp only [hp] at hmain
    exact ⟨⟨by simp [hmain], by simp [hmain], .inl hmain⟩, h.t2⟩
  | wakes hp hwake =>
    simp only [hp] at hmain
    obtain ⟨rfl, hle, hspin⟩ := hmain
    exact ⟨⟨by dsimp only; omega, hspin.resolve_left (by omega)⟩, h.t2⟩
  | failsAgain hp | ends hp => exact ⟨trivial, h.t2⟩

theorem prompt_t1 (h : PromptInv second s) (hs : s.threadFuncT1 = some s') :
    PromptInv second s' := by
  obtain ⟨hmain, ht2⟩ := h
  unfold State.threadFuncT1 at hs
  split at hs
  next hp =>
    obtain ⟨owner, _, rfl⟩ := Option.map_eq_some_iff.mp hs
    constructor
    · cases hm : s.main with
      | call c | again c => cases c <;> simp_all
      | _ => simp_all
    · cases hm : s.t2 <;> simp_all
  next => cases hs
  next => cases hs

theorem prompt_t2 (hinv : Inv second s) (h : PromptInv second s)
    (hs : s.threadFuncT2 second = some s') : PromptInv second s' := by
  obtain ⟨hmain, ht2⟩ := h
  have hheld (hspin : s.t1 = .spin) (hfree : s.owner = none) : False := by
    rw [(hinv.guards .t1).mp hspin] at hfree
    cases hfree
  cases t2_step hs with
  | getsTime hp =>
    simp only [hp] at ht2
    exact ⟨hmain, by omega, by dsimp only; omega, ht2.2⟩
  | locks hp hfree =>
    simp only [hp] at ht2
    exact (hheld ht2.2.2 hfree).elim
  | timesOut hp ho hle =>
    simp only [hp] at ht2
    exact ⟨hmain, by dsimp only; omega, by dsimp only; omega, ht2.2.2⟩
  | locksAgain hp hfree =>
    simp only [hp] at ht2
    exact (hheld ht2.2.2 hfree).elim
  | timesOutAgain hp =>
    simp only [hp] at ht2
    exact ⟨hmain, ht2.2.1⟩
  | dies hp => exact ⟨hmain, ht2⟩
  | unlocks hp | ends hp => simp only [hp] at ht2

theorem prompt_tick (hinv : Inv second s) (h : PromptInv second s) (hidle : s.idle second = true) :
    PromptInv second { s with clock := s.clock + 1 } := by
  obtain ⟨hmain, ht2⟩ := h
  have hcreated := hinv.main
  unfold MainInv at hcreated
  simp only [State.idle, Bool.and_eq_true, Option.isNone_iff_eq_none] at hidle
  obtain ⟨⟨hmain0, ht1⟩, ht20⟩ := hidle
  constructor
  · cases hm : s.main <;> simp [State.runMain, hm] at hmain0
    case ended => exact trivial
    case asleep wake =>
      simp only [hm] at hmain hcreated
      obtain ⟨rfl, _, _⟩ := hmain
      have hspin := spins_of_blocked hinv ht1 hcreated.1 (by simp [hcreated.2.1])
      exact ⟨rfl, hmain0, .inr hspin⟩
  · cases hp : s.t2 <;> simp [State.threadFuncT2, hp] at ht20 <;> simp only [hp] at ht2 ⊢
    case timedlock deadline =>
      exact ⟨ht2.1, lt_of_blocked ht20, ht2.2.2⟩
    case again deadline =>
      have := lt_of_blocked ht20
      omega

theorem promptInv_reachable (hpos : 0 < second)
    (h : (system second).ReachableWhile (Prompt second) s) :
    PromptInv second s := by
  apply System.ReachableWhile.induct (I := PromptInv second) ?_ ?_ h
  · rintro s rfl
    exact ⟨rfl, trivial⟩
  · intro s a s' hr ih ha hs
    have hinv := inv_reachable hr.reachable
    obtain ⟨_, ⟨_, _, hs⟩ | ⟨_, hs⟩ | ⟨_, hs⟩ | ⟨rfl, rfl⟩⟩ := next_cases hs
    · exact prompt_main hpos hinv ih hs
    · exact prompt_t1 ih hs
    · exact prompt_t2 hinv ih hs
    · exact prompt_tick hinv ih (ha rfl)

def TimedOut (second : ℕ) (s : State) : Prop :=
  s.owner = some .t1 ∧ s.clock = 3 * second ∧ s.errors = [(lockMsg, etimedout)]

theorem errors_of_no_main (h : Inv second s) (hm : s.main ≠ .dying) : s.errors = lockErrors s := by
  have hnone := h.mainErrors
  rw [if_neg hm, List.length_eq_zero_iff, mainErrors, List.filter_eq_nil_iff] at hnone
  symm
  apply List.filter_eq_self.mpr
  intro l hl
  simpa using hnone l hl

theorem times_out (hpos : 0 < second) (h : (system second).ReachableWhile (Prompt second) s) :
    (system second).Inevitable (Prompt second)
      (fun t => t.exited = some exitFailure ∧ (t.main = .dying ∨ TimedOut second t)) s := by
  have hkeeps := (comes_to_end h.reachable).keeps
    (I := (system second).ReachableWhile (Prompt second))
    (fun t u ht ⟨a, ha, hs⟩ => ht.step a ha hs) h
  apply hkeeps.mono
  rintro t ⟨hdone, hr⟩
  have hinv := inv_reachable hr.reachable
  have hprompt := (promptInv_reachable hpos hr).t2
  rcases hdone with hex | ⟨_, _, hp⟩
  · refine ⟨hex, ?_⟩
    by_cases hm : t.main = .dying
    · exact .inl hm
    · have hp := ((hinv.exited _ hex).2).resolve_left hm
      have ht2 := hinv.t2
      have hlock := hinv.lockErrors
      simp only [T2Inv, hp] at ht2
      simp only [hp] at hprompt
      rw [if_pos hp] at hlock
      refine .inr ⟨(hinv.guards .t1).mp ht2.2, hprompt, ?_⟩
      rw [errors_of_no_main hinv hm, hlock]
  · simp only [hp] at hprompt

/-- 10_6 at any speed of its threads: t2 reports at most one error of the lock, and that is the
time-out, three seconds after the start or later and with t1 in its loop, though CHECK_ERR asks
for the mutex twice; and the process ends only with EXIT_FAILURE after a reported error. From any
state on a slow clock brings it to such an end, or leaves t1 alone in its loop if t2 had the mutex
first; with a slow clock from the start t2 never has it and is refused after three seconds. -/
theorem gives_up (hpos : 0 < second) (h : (system second).Reachable s) :
    (lockErrors s = [] ∨ lockErrors s = [(lockMsg, etimedout)] ∧ s.owner = some .t1 ∧
        3 * second ≤ s.clock) ∧
      (∀ n, s.exited = some n → n = exitFailure ∧ s.errors ≠ []) ∧
      (system second).Inevitable (Prompt second)
        (fun t => t.exited = some exitFailure ∨ Stuck t) s ∧
      ((system second).ReachableWhile (Prompt second) s → s.owner ≠ some .t2 ∧
        (system second).Inevitable (Prompt second)
          (fun t => t.exited = some exitFailure ∧ (t.main = .dying ∨ TimedOut second t)) s) := by
  have hinv := inv_reachable h
  have hlock := hinv.lockErrors
  have hmain := hinv.mainErrors
  refine ⟨?_, fun n hn => ?_, comes_to_end h,
    fun hr => ⟨fun ho => ?_, times_out hpos hr⟩⟩
  · by_cases hp : s.t2 = .dying
    · have ht2 := hinv.t2
      simp only [T2Inv, hp] at ht2
      rw [if_pos hp] at hlock
      exact .inr ⟨hlock, (hinv.guards .t1).mp ht2.2, ht2.1⟩
    · rw [if_neg hp] at hlock
      exact .inl hlock
  · obtain ⟨hfail, hdie⟩ := hinv.exited n hn
    refine ⟨hfail, fun hnone => ?_⟩
    rcases hdie with hm | hp
    · rw [if_pos hm, mainErrors, hnone] at hmain
      cases hmain
    · rw [if_pos hp, lockErrors, hnone] at hlock
      cases hlock
  · have hprompt := (promptInv_reachable hpos hr).t2
    have hp : s.t2 = .unlock := (hinv.guards .t2).mpr ho
    simp only [hp] at hprompt

def prompt (second : ℕ) (s : State) (a : Action) : Bool := a ≠ .tick || s.idle second

def sample : List Action :=
  [.main 0, .main 0, .t1, .main 0, .tick, .main 0, .main 0, .t2]

theorem sample_runs : (((system 1).runWhile (prompt 1) State.initial sample).map
    (fun s => (s.main, s.t1, s.t2, s.clock))) =
      some (.call .detachT2, .spin, .timedlock 3, 1) := by
  decide

theorem gives_up_sample : ∃ s, (system 1).runWhile (prompt 1) State.initial sample = some s ∧
    s.t2 = .timedlock 3 ∧ (system 1).Inevitable (Prompt 1)
      (fun t => t.exited = some exitFailure ∧ (t.main = .dying ∨ TimedOut 1 t)) s := by
  obtain ⟨s, hs, hx⟩ := Option.map_eq_some_iff.mp sample_runs
  simp only [Prod.mk.injEq] at hx
  have hr : (system 1).ReachableWhile (Prompt 1) s := by
    apply System.ReachableWhile.run ?_ sample (.init rfl) hs
    intro s a hp ha
    simpa [prompt, ha] using hp
  exact ⟨s, hs, hx.2.2.1, ((gives_up Nat.one_pos hr.reachable).2.2.2 hr).2⟩

end LinuxSystemProgramming.TimedLock
