import LinuxSystemProgramming.TimedLock.Threads

namespace LinuxSystemProgramming.TimedLock

open Transition

def State.Inside (s : State) : Tid → Prop
  | .t1 => s.t1 = .spin
  | .t2 => s.t2 = .unlock

def MainInv (second : ℕ) (s : State) : Prop :=
  match s.main with
  | .call .createT1 | .again .createT1 => s.t1 = .notCreated ∧ s.t2 = .notCreated
  | .call .detachT1 | .again .detachT1 | .sleep => s.t1 ≠ .notCreated ∧ s.t2 = .notCreated
  | .asleep wake => s.t1 ≠ .notCreated ∧ s.t2 = .notCreated ∧ second ≤ wake
  | .call .createT2 | .again .createT2 =>
    s.t1 ≠ .notCreated ∧ s.t2 = .notCreated ∧ second ≤ s.clock
  | .call .detachT2 | .again .detachT2 | .exiting | .ended =>
    s.t1 ≠ .notCreated ∧ s.t2 ≠ .notCreated
  | .dying => True

-- t2 goes to `again` only with t1 in its loop, so that the second call fails as the first did.
def T2Inv (second : ℕ) (s : State) : Prop :=
  match s.t2 with
  | .getTime => second ≤ s.clock
  | .timedlock deadline => 3 * second ≤ deadline
  | .again deadline => 3 * second ≤ deadline ∧ deadline ≤ s.clock ∧ s.t1 = .spin
  | .dying => 3 * second ≤ s.clock ∧ s.t1 = .spin
  | .notCreated | .unlock | .exiting | .ended => True

def lockErrors (s : State) : List (String × ℕ) := s.errors.filter (fun l => l.1 = lockMsg)

def mainErrors (s : State) : List (String × ℕ) := s.errors.filter (fun l => l.1 ≠ lockMsg)

structure Inv (second : ℕ) (s : State) : Prop where
  guards : Mutex.Guards s.owner s.Inside
  main : MainInv second s
  t2 : T2Inv second s
  lockErrors : lockErrors s = if s.t2 = .dying then [(lockMsg, etimedout)] else []
  mainErrors : (mainErrors s).length = if s.main = .dying then 1 else 0
  exited : ∀ n, s.exited = some n → n = exitFailure ∧ (s.main = .dying ∨ s.t2 = .dying)

variable {second : ℕ} {s s' : State} {a : Action} {c : Call}

theorem msg_ne_lockMsg (c : Call) : c.msg ≠ lockMsg := by
  cases c <;> decide

theorem after_ne_dying (c : Call) : c.after ≠ .dying := by
  cases c <;> simp [Call.after]

def Calling (s : State) (c : Call) : Prop := s.main = .call c ∨ s.main = .again c

theorem called_spec (h : MainInv second s) (hc : Calling s c) :
    ((s.called c).t1 = s.t1 ∨ s.t1 = .notCreated ∧ (s.called c).t1 = .lock) ∧
      ((s.called c).t2 = s.t2 ∨
        s.t2 = .notCreated ∧ (s.called c).t2 = .getTime ∧ second ≤ s.clock) ∧
      ∀ main, main = c.after → MainInv second { s.called c with main } := by
  unfold MainInv at h
  rcases hc with hc | hc <;> cases c <;> simp only [hc] at h
  all_goals simp_all [State.called, MainInv, Call.after]

theorem mainInv_congr {t : State} (h : MainInv second s) (hm : t.main = s.main)
    (hclock : t.clock = s.clock) (h1 : t.t1 = .notCreated ↔ s.t1 = .notCreated)
    (h2 : t.t2 = .notCreated ↔ s.t2 = .notCreated) : MainInv second t := by
  unfold MainInv at h ⊢
  rw [hm, hclock]
  cases hp : s.main with
  | call c | again c => cases c <;> simpa only [hp, h1, h2, ne_eq] using h
  | dying => trivial
  | _ => simpa only [hp, h1, h2, ne_eq] using h

theorem called_keeps (s : State) (c : Call) : (s.called c).owner = s.owner ∧
    (s.called c).clock = s.clock ∧ (s.called c).errors = s.errors ∧
      (s.called c).main = s.main ∧ (s.called c).exited = s.exited := by
  cases c <;> exact ⟨rfl, rfl, rfl, rfl, rfl⟩

theorem called_guards (h : Inv second s) (hc : Calling s c) :
    Mutex.Guards (s.called c).owner (s.called c).Inside := by
  obtain ⟨h1, h2, _⟩ := called_spec h.main hc
  rw [(called_keeps s c).1]
  refine h.guards.congr fun t => ?_
  cases t with
  | t1 =>
    rcases h1 with h1 | ⟨h1, h1'⟩
    · simp [State.Inside, h1]
    · simp [State.Inside, h1, h1']
  | t2 =>
    rcases h2 with h2 | ⟨h2, h2', _⟩
    · simp [State.Inside, h2]
    · simp [State.Inside, h2, h2']

theorem called_t2 (h : Inv second s) (hc : Calling s c) : T2Inv second (s.called c) := by
  obtain ⟨h1, h2, _⟩ := called_spec h.main hc
  rcases h2 with h2 | ⟨_, h2, hclock⟩
  · have ht := h.t2
    unfold T2Inv at ht ⊢
    rw [h2, (called_keeps s c).2.1]
    rcases h1 with h1 | ⟨h1, _⟩
    · rwa [h1]
    · cases hp : s.t2 <;> simp only [hp, h1, reduceCtorEq, and_false] at ht ⊢
      all_goals exact ht
  · simp only [T2Inv, h2]
    rwa [(called_keeps s c).2.1]

theorem called_dying (h : MainInv second s) (hc : Calling s c) :
    (s.called c).t2 = .dying ↔ s.t2 = .dying := by
  rcases (called_spec h hc).2.1 with h2 | ⟨h2, h2', _⟩
  · rw [h2]
  · simp [h2, h2']

theorem inv_called (h : Inv second s) (hc : Calling s c) :
    Inv second { s.called c with main := c.after } := by
  obtain ⟨_, _, herr, _, hex⟩ := called_keeps s c
  have hd := called_dying h.main hc
  have hm : s.main ≠ .dying := by
    rcases hc with hc | hc <;> simp [hc]
  refine ⟨called_guards h hc, (called_spec h.main hc).2.2 _ rfl, called_t2 h hc, ?_, ?_, ?_⟩
  · simp only [lockErrors, herr, hd]
    exact h.lockErrors
  · have hmain := h.mainErrors
    rw [if_neg hm] at hmain
    simp only [mainErrors, herr, if_neg (after_ne_dying c)]
    exact hmain
  · intro n hn
    obtain ⟨hfail, hdie⟩ := h.exited n (hex ▸ hn)
    exact ⟨hfail, .inr (hd.mpr (hdie.resolve_left hm))⟩

theorem lockErrors_report (s : State) (c : Call) (err : ℕ) :
    lockErrors (s.report c.msg err) = lockErrors s := by
  simp [lockErrors, State.report, msg_ne_lockMsg]

theorem mainErrors_report (s : State) (c : Call) (err : ℕ) :
    mainErrors (s.report c.msg err) = mainErrors s ++ [(c.msg, err)] := by
  simp [mainErrors, State.report, msg_ne_lockMsg]

theorem lockErrors_lock (s : State) (err : ℕ) :
    lockErrors (s.report lockMsg err) = lockErrors s ++ [(lockMsg, err)] := by
  simp [lockErrors, State.report]

theorem mainErrors_lock (s : State) (err : ℕ) :
    mainErrors (s.report lockMsg err) = mainErrors s := by
  simp [mainErrors, State.report]

theorem inv_dying (h : Inv second s) (hm : s.main ≠ .dying) (err : ℕ) :
    Inv second { s.report c.msg err with main := .dying } := by
  have hmain := h.mainErrors
  rw [if_neg hm] at hmain
  refine ⟨h.guards, trivial, h.t2, ?_, ?_, fun n hn => ⟨(h.exited n hn).1, .inl rfl⟩⟩
  · exact (lockErrors_report s c err).trans h.lockErrors
  · rw [if_pos rfl, ← Nat.zero_add 1, ← hmain, ← List.length_singleton, ← List.length_append]
    exact congrArg List.length (mainErrors_report s c err)

inductive MainStep (second : ℕ) (s : State) (err : ℕ) : State → Prop
  | calls {c : Call} (hp : s.main = .call c) :
      MainStep second s err { s.called c with main := c.after }
  | fails {c : Call} (hp : s.main = .call c) :
      MainStep second s err { s with main := .again c }
  | callsAgain {c : Call} (hp : s.main = .again c) :
      MainStep second s err { (s.called c).report c.msg err with main := .dying }
  | failsAgain {c : Call} (hp : s.main = .again c) :
      MainStep second s err { s.report c.msg err with main := .dying }
  | dies (hp : s.main = .dying) : MainStep second s err { s with exited := some exitFailure }
  | sleeps (hp : s.main = .sleep) :
      MainStep second s err { s with main := .asleep (s.clock + second) }
  | wakes {wake} (hp : s.main = .asleep wake) (hwake : wake ≤ s.clock) :
      MainStep second s err { s with main := .call .createT2 }
  | ends (hp : s.main = .exiting) : MainStep second s err { s with main := .ended }

theorem main_step {err : ℕ} (hs : s.runMain second err = some s') :
    MainStep second s err s' := by
  unfold State.runMain at hs
  split at hs
  next hp =>
    cases hs
    split
    · exact .calls hp
    · exact .fails hp
  next hp =>
    cases hs
    split
    · exact .callsAgain hp
    · exact .failsAgain hp
  next hp => cases hs; exact .dies hp
  next hp => cases hs; exact .sleeps hp
  next hp =>
    obtain ⟨hwake, hs⟩ := Option.ite_none_right_eq_some.mp hs
    cases hs
    exact .wakes hp hwake
  next hp => cases hs; exact .ends hp
  next => cases hs

theorem inv_main_moves {pc : MainPc} (h : Inv second s) (hm : s.main ≠ .dying) (hpc : pc ≠ .dying)
    (hinv : MainInv second { s with main := pc }) : Inv second { s with main := pc } := by
  have hlines := h.mainErrors
  rw [if_neg hm] at hlines
  refine ⟨h.guards, hinv, h.t2, h.lockErrors, hlines.trans (if_neg hpc).symm, fun n hn => ?_⟩
  obtain ⟨hfail, hdie⟩ := h.exited n hn
  exact ⟨hfail, .inr (hdie.resolve_left hm)⟩

theorem inv_main {err : ℕ} (h : Inv second s) (hs : s.runMain second err = some s') :
    Inv second s' := by
  have hmain := h.main
  unfold MainInv at hmain
  cases main_step hs with
  | calls hp => exact inv_called h (.inl hp)
  | @fails c hp =>
    apply inv_main_moves h (by simp [hp]) (by simp)
    cases c <;> simpa [MainInv, hp] using hmain
  | callsAgain hp => exact inv_dying (inv_called h (.inr hp)) (after_ne_dying _) err
  | failsAgain hp => exact inv_dying h (by simp [hp]) err
  | dies hp =>
    refine ⟨h.guards, h.main, h.t2, h.lockErrors, h.mainErrors, fun n hn => ?_⟩
    cases hn
    exact ⟨rfl, .inl hp⟩
  | sleeps hp =>
    simp only [hp] at hmain
    exact inv_main_moves h (by simp [hp]) (by simp) ⟨hmain.1, hmain.2, Nat.le_add_left _ _⟩
  | wakes hp hwake =>
    simp only [hp] at hmain
    exact inv_main_moves h (by simp [hp]) (by simp) ⟨hmain.1, hmain.2.1, le_trans hmain.2.2 hwake⟩
  | ends hp =>
    simp only [hp] at hmain
    exact inv_main_moves h (by simp [hp]) (by simp) hmain

theorem inv_t1 (h : Inv second s) (hs : s.threadFuncT1 = some s') : Inv second s' := by
  unfold State.threadFuncT1 at hs
  split at hs
  next hp =>
    obtain ⟨owner, hacq, rfl⟩ := Option.map_eq_some_iff.mp hs
    obtain ⟨hfree, rfl⟩ := Mutex.acquire_eq_some.mp hacq
    have hguards := h.guards
    have ht2 := h.t2
    rw [hfree] at hguards
    refine ⟨?_, ?_, ?_, h.lockErrors, h.mainErrors, h.exited⟩
    · apply Mutex.Guards.acquire hguards
      · rfl
      · intro t ht
        cases t with
        | t1 => exact absurd rfl ht
        | t2 => exact Iff.rfl
    · exact mainInv_congr h.main rfl rfl (by simp [hp]) Iff.rfl
    · unfold T2Inv at ht2 ⊢
      cases ht : s.t2 <;> simp_all
  next => cases hs
  next => cases hs

theorem timedlock_cases {deadline err : ℕ} {owner : Option Tid}
    (hs : s.timedlock deadline = some (owner, err)) :
    s.owner = none ∧ owner = some .t2 ∧ err = 0 ∨
      s.owner ≠ none ∧ owner = s.owner ∧ err = etimedout ∧ deadline ≤ s.clock := by
  unfold State.timedlock at hs
  split at hs
  next hacq =>
    cases hs
    obtain ⟨hfree, rfl⟩ := Mutex.acquire_eq_some.mp hacq
    exact .inl ⟨hfree, rfl, rfl⟩
  next hacq =>
    obtain ⟨hle, hs⟩ := Option.ite_none_right_eq_some.mp hs
    cases hs
    exact .inr ⟨by simpa [Mutex.acquire] using hacq, rfl, rfl, hle⟩

inductive T2Step (second : ℕ) (s : State) : State → Prop
  | getsTime (hp : s.t2 = .getTime) :
      T2Step second s { s with t2 := .timedlock (s.clock + 2 * second) }
  | locks {deadline} (hp : s.t2 = .timedlock deadline) (hfree : s.owner = none) :
      T2Step second s { s with t2 := .unlock, owner := some .t2 }
  | timesOut {deadline} (hp : s.t2 = .timedlock deadline) (ho : s.owner ≠ none)
      (hle : deadline ≤ s.clock) : T2Step second s { s with t2 := .again deadline }
  | locksAgain {deadline} (hp : s.t2 = .again deadline) (hfree : s.owner = none) :
      T2Step second s { s.report lockMsg 0 with owner := some .t2, t2 := .dying }
  | timesOutAgain {deadline} (hp : s.t2 = .again deadline) (ho : s.owner ≠ none)
      (hle : deadline ≤ s.clock) :
      T2Step second s { s.report lockMsg etimedout with t2 := .dying }
  | dies (hp : s.t2 = .dying) : T2Step second s { s with exited := some exitFailure }
  | unlocks (hp : s.t2 = .unlock) (hmine : s.owner = some .t2) :
      T2Step second s { s with t2 := .exiting, owner := none }
  | ends (hp : s.t2 = .exiting) : T2Step second s { s with t2 := .ended }

theorem t2_step (hs : s.threadFuncT2 second = some s') : T2Step second s s' := by
  unfold State.threadFuncT2 at hs
  split at hs
  next hp => cases hs; exact .getsTime hp
  next hp =>
    obtain ⟨⟨owner, err⟩, hlock, rfl⟩ := Option.map_eq_some_iff.mp hs
    rcases timedlock_cases hlock with ⟨hfree, rfl, rfl⟩ | ⟨ho, rfl, rfl, hle⟩
    · exact .locks hp hfree
    · exact .timesOut hp ho hle
  next hp =>
    obtain ⟨⟨owner, err⟩, hlock, rfl⟩ := Option.map_eq_some_iff.mp hs
    rcases timedlock_cases hlock with ⟨hfree, rfl, rfl⟩ | ⟨ho, rfl, rfl, hle⟩
    · exact .locksAgain hp hfree
    · exact .timesOutAgain hp ho hle
  next hp => cases hs; exact .dies hp
  next hp =>
    obtain ⟨owner, hrel, rfl⟩ := Option.map_eq_some_iff.mp hs
    obtain ⟨hmine, rfl⟩ := Mutex.release_eq_some.mp hrel
    exact .unlocks hp hmine
  next hp => cases hs; exact .ends hp
  next => cases hs
  next => cases hs

theorem t1_of_owner (h : Inv second s) (ho : s.owner ≠ none) (ht : s.t2 ≠ .unlock) :
    s.owner = some .t1 ∧ s.t1 = .spin := by
  obtain ⟨t, hs⟩ := Option.ne_none_iff_exists'.mp ho
  cases t with
  | t1 => exact ⟨hs, (h.guards .t1).mpr hs⟩
  | t2 => exact absurd ((h.guards .t2).mpr hs) ht

theorem lt_of_blocked {deadline : ℕ} (hs : s.timedlock deadline = none) : s.clock < deadline := by
  unfold State.timedlock at hs
  split at hs
  · cases hs
  · simpa using hs

theorem spins_of_blocked (h : Inv second s) (hs : s.threadFuncT1 = none) (hc : s.t1 ≠ .notCreated)
    (ht : s.t2 ≠ .unlock) : s.t1 = .spin := by
  cases hp : s.t1 with
  | notCreated => exact absurd hp hc
  | spin => rfl
  | lock =>
    have ho : s.owner ≠ none := by
      intro ho
      simp [State.threadFuncT1, hp, ho, Mutex.acquire] at hs
    rw [← hp]
    exact (t1_of_owner h ho ht).2

theorem inv_t2_moves {p : T2Pc} {owner : Option Tid} (h : Inv second s) (hd : s.t2 ≠ .dying)
    (hc : s.t2 ≠ .notCreated) (hp : p ≠ .dying ∧ p ≠ .notCreated)
    (hg : Mutex.Guards owner (State.Inside { s with t2 := p, owner }))
    (ht : T2Inv second { s with t2 := p, owner }) : Inv second { s with t2 := p, owner } := by
  have hlock := h.lockErrors
  rw [if_neg hd] at hlock
  refine ⟨hg, ?_, ht, ?_, h.mainErrors, fun n hn => ?_⟩
  · exact mainInv_congr h.main rfl rfl Iff.rfl (by simp [hc, hp.2])
  · exact hlock.trans (if_neg hp.1).symm
  · obtain ⟨hfail, hdie⟩ := h.exited n hn
    exact ⟨hfail, .inl (hdie.resolve_right hd)⟩

theorem guards_t2 {p : T2Pc} (h : Inv second s) (hp : p = .unlock ↔ s.t2 = .unlock) :
    Mutex.Guards s.owner (State.Inside { s with t2 := p }) := by
  refine h.guards.congr fun t => ?_
  cases t with
  | t1 => exact Iff.rfl
  | t2 => exact hp

theorem inv_t2_dies {deadline : ℕ} (h : Inv second s) (hp : s.t2 = .again deadline)
    (ht : 3 * second ≤ s.clock ∧ s.t1 = .spin) :
    Inv second { s.report lockMsg etimedout with t2 := .dying } := by
  have hlines := h.lockErrors
  rw [if_neg (by simp [hp])] at hlines
  have hguards := guards_t2 (p := .dying) h (by simp [hp])
  refine ⟨hguards, ?_, ht, ?_, ?_, fun n hn => ⟨(h.exited n hn).1, .inr rfl⟩⟩
  · exact mainInv_congr h.main rfl rfl Iff.rfl (by simp [hp])
  · change lockErrors (s.report lockMsg etimedout) = _
    rw [lockErrors_lock, hlines]
    rfl
  · change (mainErrors (s.report lockMsg etimedout)).length = _
    rw [mainErrors_lock]
    exact h.mainErrors

theorem inv_t2 (h : Inv second s) (hs : s.threadFuncT2 second = some s') : Inv second s' := by
  have ht2 := h.t2
  unfold T2Inv at ht2
  cases t2_step hs with
  | getsTime hp =>
    simp only [hp] at ht2
    apply inv_t2_moves h (by simp [hp]) (by simp [hp]) (by simp) (guards_t2 h (by simp [hp]))
    change 3 * second ≤ s.clock + 2 * second
    omega
  | locks hp hfree =>
    have hguards := h.guards
    rw [hfree] at hguards
    apply inv_t2_moves h (by simp [hp]) (by simp [hp]) (by simp)
    · apply Mutex.Guards.acquire hguards
      · rfl
      · intro t ht
        cases t with
        | t1 => exact Iff.rfl
        | t2 => exact absurd rfl ht
    · exact trivial
  | timesOut hp ho hle =>
    simp only [hp] at ht2
    have hspin := (t1_of_owner h ho (by simp [hp])).2
    exact inv_t2_moves h (by simp [hp]) (by simp [hp]) (by simp) (guards_t2 h (by simp [hp]))
      ⟨ht2, hle, hspin⟩
  | locksAgain hp hfree =>
    simp only [hp] at ht2
    rw [(h.guards .t1).mp ht2.2.2] at hfree
    cases hfree
  | timesOutAgain hp ho hle =>
    simp only [hp] at ht2
    exact inv_t2_dies h hp ⟨le_trans ht2.1 ht2.2.1, ht2.2.2⟩
  | dies hp =>
    refine ⟨h.guards, h.main, h.t2, h.lockErrors, h.mainErrors, fun n hn => ?_⟩
    cases hn
    exact ⟨rfl, .inr hp⟩
  | unlocks hp hmine =>
    have hguards := h.guards
    rw [hmine] at hguards
    apply inv_t2_moves h (by simp [hp]) (by simp [hp]) (by simp)
    · apply Mutex.Guards.release hguards
      · simp [State.Inside]
      · intro t ht
        cases t with
        | t1 => exact Iff.rfl
        | t2 => exact absurd rfl ht
    · exact trivial
  | ends hp =>
    apply inv_t2_moves h (by simp [hp]) (by simp [hp]) (by simp) (guards_t2 h (by simp [hp]))
    exact trivial

theorem inv_tick (h : Inv second s) : Inv second { s with clock := s.clock + 1 } := by
  have hmain := h.main
  have ht2 := h.t2
  refine ⟨h.guards, ?_, ?_, h.lockErrors, h.mainErrors, h.exited⟩
  · unfold MainInv at hmain ⊢
    cases hm : s.main with
    | call c | again c => cases c <;> simp only [hm] at hmain ⊢ <;> grind
    | _ => simp only [hm] at hmain ⊢ <;> exact hmain
  · unfold T2Inv at ht2 ⊢
    cases ht : s.t2 <;> simp only [ht] at ht2 ⊢ <;> grind

theorem next_cases (hs : s.next second a = some s') : s.exited = none ∧
    ((∃ err, a = .main err ∧ s.runMain second err = some s') ∨
      a = .t1 ∧ s.threadFuncT1 = some s' ∨ a = .t2 ∧ s.threadFuncT2 second = some s' ∨
        a = .tick ∧ s' = { s with clock := s.clock + 1 }) := by
  unfold State.next at hs
  cases hex : s.exited with
  | some n => simp [hex] at hs
  | none =>
    refine ⟨rfl, ?_⟩
    simp only [hex] at hs
    cases a with
    | main err => exact .inl ⟨err, rfl, hs⟩
    | t1 => exact .inr (.inl ⟨rfl, hs⟩)
    | t2 => exact .inr (.inr (.inl ⟨rfl, hs⟩))
    | tick =>
      cases hs
      exact .inr (.inr (.inr ⟨rfl, rfl⟩))

theorem inv_reachable (h : (system second).Reachable s) : Inv second s := by
  apply System.Reachable.induct (I := Inv second) ?_ ?_ h
  · rintro s rfl
    refine ⟨?_, ⟨rfl, rfl⟩, trivial, rfl, rfl, fun n hn => by cases hn⟩
    intro t
    cases t <;> simp [State.Inside, State.initial]
  · intro s a s' _ ih hs
    obtain ⟨_, ⟨_, _, hs⟩ | ⟨_, hs⟩ | ⟨_, hs⟩ | ⟨_, rfl⟩⟩ := next_cases hs
    · exact inv_main ih hs
    · exact inv_t1 ih hs
    · exact inv_t2 ih hs
    · exact inv_tick ih

end LinuxSystemProgramming.TimedLock
