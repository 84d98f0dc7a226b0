import LinuxSystemProgramming.Lib.Signals
import LinuxSystemProgramming.Lib.Transition

/-!
The program 9_1: it blocks SIGINT and SIGTERM, installs its handler and waits in `sigsuspend` for
signals that may come at any time. It reports every SIGINT and exits on SIGTERM.
-/

namespace LinuxSystemProgramming.SignalLoops.Catching

open Signals Transition

inductive Sig
  | int
  | term
  deriving DecidableEq

inductive Pc
  | sigprocmask
  | sigactionInt
  | sigactionTerm
  | test
  | suspend
  | suspended
  | returning
  | reportInt
  | reportTerm
  | exiting
  | exited (status : ℕ)
  | terminated (x : Sig)
  deriving DecidableEq

def Pc.ended : Pc → Bool
  | .exited _ | .terminated _ => true
  | _ => false

def Pc.wake : Pc → Pc
  | .suspended => .returning
  | pc => pc

/-- `caught` is `caught_sigint` and `caught_sigterm`, `reports` has the lines "Caught", and `owed` is
a signal that has come since the block and has not been reported since. -/
structure State where
  pc : Pc
  sig : SigState Sig
  caught : Sig → Bool
  reports : List Sig
  owed : Sig → Bool

inductive Action
  | run
  | fails
  | deliver (x : Sig)
  | send (x : Sig)
  deriving DecidableEq

namespace State

def initial : State where
  pc := .sigprocmask
  sig := .initial
  caught _ := false
  reports := []
  owed _ := false

def report (s : State) (x : Sig) : State := { s with
  caught := Function.update s.caught x false
  reports := s.reports ++ [x]
  owed := Function.update s.owed x false }

def main (s : State) : Option State :=
  match s.pc with
  | .sigprocmask => some { s with sig := s.sig.block (mask [.int, .term]), pc := .sigactionInt }
  | .sigactionInt => some { s with sig := s.sig.handle .int, pc := .sigactionTerm }
  | .sigactionTerm => some { s with sig := s.sig.handle .term, pc := .test }
  | .test => some { s with pc := if s.caught .int || s.caught .term then .exiting else .suspend }
  | .suspend => some { s with sig := s.sig.suspend (mask []), pc := .suspended }
  | .returning => some { s with sig := s.sig.resume, pc := .reportInt }
  | .reportInt =>
    some (if s.caught .int then { s.report .int with pc := .reportTerm }
      else { s with pc := .reportTerm })
  | .reportTerm =>
    some (if s.caught .term then { s.report .term with pc := .exiting } else { s with pc := .test })
  | .exiting => some { s with pc := .exited 0 }
  | .suspended | .exited _ | .terminated _ => none

def fails (s : State) : Option State :=
  match s.pc with
  | .sigprocmask | .sigactionInt | .sigactionTerm => some { s with pc := .exited 1 }
  | _ => none

def signalHandler (s : State) (x : Sig) : State :=
  { s with caught := Function.update s.caught x true }

def deliver (s : State) (x : Sig) : Option State :=
  if s.pc.ended = false ∧ s.sig.deliverable x = true then
    if s.sig.handled x then some { s.signalHandler x with sig := s.sig.take x, pc := s.pc.wake }
    else some { s with sig := s.sig.take x, pc := .terminated x }
  else none

def send (s : State) (x : Sig) : State :=
  if s.pc.ended then s
  else if s.pc = .sigprocmask then { s with sig := s.sig.send x }
  else { s with sig := s.sig.send x, owed := Function.update s.owed x true }

def next (s : State) : Action → Option State
  | .run => s.main
  | .fails => s.fails
  | .deliver x => s.deliver x
  | .send x => some (s.send x)

end State

def catching : System State Action where
  init s := s = State.initial
  next := State.next

abbrev All : Sig → Prop := fun _ => True

def SigInv (pc : Pc) (p : SigState Sig) : Prop :=
  match pc with
  | .sigprocmask | .terminated _ => ∀ x, p.blocked x = false ∧ p.handled x = false
  | .sigactionInt => Signals.Closed All p
  | .sigactionTerm => Signals.Closed All p ∧ p.handled .int = true
  | .test | .suspend | .reportInt | .reportTerm | .exiting => Armed All p
  | .suspended | .returning => Waiting All p
  | .exited _ => True

def FlagInv (pc : Pc) (caught : Sig → Bool) (reports : List Sig) : Prop :=
  match pc with
  | .returning | .reportInt => ∃ n, reports = List.replicate n .int
  | .reportTerm => caught .int = false ∧ ∃ n, reports = List.replicate n .int
  | .exiting | .exited 0 => ∃ n, reports = List.replicate n .int ++ [.term]
  | .exited _ | .terminated _ => True
  | _ => (∀ x, caught x = false) ∧ ∃ n, reports = List.replicate n .int

structure Inv (s : State) : Prop where
  sig : SigInv s.pc s.sig
  flags : FlagInv s.pc s.caught s.reports
  owed : ∀ x, s.pc.ended = false → s.owed x = true → Arrived s.sig x (s.caught x)
  fresh : s.pc = .sigprocmask → ∀ x, s.owed x = false

variable {s s' : State} {a : Action}

inductive MainStep (s : State) : State → Prop
  | blocks (hp : s.pc = .sigprocmask) :
      MainStep s { s with sig := s.sig.block (mask [.int, .term]), pc := .sigactionInt }
  | handlesInt (hp : s.pc = .sigactionInt) :
      MainStep s { s with sig := s.sig.handle .int, pc := .sigactionTerm }
  | handlesTerm (hp : s.pc = .sigactionTerm) :
      MainStep s { s with sig := s.sig.handle .term, pc := .test }
  | leaves (hp : s.pc = .test) (hc : (s.caught .int || s.caught .term) = true) :
      MainStep s { s with pc := .exiting }
  | stays (hp : s.pc = .test) (hc : (s.caught .int || s.caught .term) = false) :
      MainStep s { s with pc := .suspend }
  | suspends (hp : s.pc = .suspend) :
      MainStep s { s with sig := s.sig.suspend (mask []), pc := .suspended }
  | resumes (hp : s.pc = .returning) :
      MainStep s { s with sig := s.sig.resume, pc := .reportInt }
  | reportsInt (hp : s.pc = .reportInt) (hc : s.caught .int = true) :
      MainStep s { s.report .int with pc := .reportTerm }
  | passesInt (hp : s.pc = .reportInt) (hc : s.caught .int = false) :
      MainStep s { s with pc := .reportTerm }
  | reportsTerm (hp : s.pc = .reportTerm) (hc : s.caught .term = true) :
      MainStep s { s.report .term with pc := .exiting }
  | passesTerm (hp : s.pc = .reportTerm) (hc : s.caught .term = false) :
      MainStep s { s with pc := .test }
  | exits (hp : s.pc = .exiting) : MainStep s { s with pc := .exited 0 }

theorem main_step (hs : s.main = some s') : MainStep s s' := by
  unfold State.main at hs
  split at hs
  next hp => cases hs; exact .blocks hp
  next hp => cases hs; exact .handlesInt hp
  next hp => cases hs; exact .handlesTerm hp
  next hp =>
    cases hs
    split
    next hc => exact .leaves hp hc
    next hc => exact .stays hp (Bool.eq_false_iff.mpr hc)
  next hp => cases hs; exact .suspends hp
  next hp => cases hs; exact .resumes hp
  next hp =>
    cases hs
    split
    next hc => exact .reportsInt hp hc
    next hc => exact .passesInt hp (Bool.eq_false_iff.mpr hc)
  next hp =>
    cases hs
    split
    next hc => exact .reportsTerm hp hc
    next hc => exact .passesTerm hp (Bool.eq_false_iff.mpr hc)
  next hp => cases hs; exact .exits hp
  next => cases hs
  next => cases hs
  next => cases hs

theorem report_owed {x y : Sig} (h : Inv s) (hp : s.pc.ended = false)
    (hy : (s.report x).owed y = true) : Arrived (s.report x).sig y ((s.report x).caught y) := by
  by_cases hxy : y = x
  · subst hxy
    simp [State.report] at hy
  · have hy' : s.owed y = true := by simpa [State.report, hxy] using hy
    have := h.owed y hp hy'
    simpa [State.report, hxy] using this

theorem replicate_report {n : ℕ} {l : List Sig} (h : l = List.replicate n .int) :
    l ++ [.int] = List.replicate (n + 1) .int := by
  rw [h, List.replicate_succ']

theorem inv_run (h : Inv s) (hs : s.main = some s') : Inv s' := by
  have hinv := h
  obtain ⟨hsig, hflags, howed, hfresh⟩ := h
  cases main_step hs with
  | blocks hp =>
    rw [hp] at hflags howed
    refine ⟨?_, hflags, fun x _ hx => ?_, by rintro ⟨⟩⟩
    · apply Signals.Closed.of_block (fun _ _ => trivial)
      intro x _
      cases x <;> rfl
    · rw [hfresh hp x] at hx
      cases hx
  | handlesInt hp =>
    rw [hp] at hsig hflags howed
    exact ⟨⟨hsig.handle _, SigState.handle_self _ _⟩, hflags, howed, by rintro ⟨⟩⟩
  | handlesTerm hp =>
    rw [hp] at hsig hflags howed
    refine ⟨⟨hsig.1.handle _, fun x _ => ?_⟩, hflags, howed, by rintro ⟨⟩⟩
    cases x with
    | int => exact SigState.handle_mono _ _ _ hsig.2
    | term => exact SigState.handle_self _ _
  | leaves hp hc =>
    rw [hp] at hflags
    simp [hflags.1] at hc
  | stays hp hc =>
    rw [hp] at hsig hflags howed
    exact ⟨hsig, hflags, howed, by rintro ⟨⟩⟩
  | suspends hp =>
    rw [hp] at hsig hflags howed
    exact ⟨hsig.suspend (fun _ _ => rfl), hflags, howed, by rintro ⟨⟩⟩
  | resumes hp =>
    rw [hp] at hsig hflags howed
    exact ⟨hsig.resume, hflags, howed, by rintro ⟨⟩⟩
  | reportsInt hp hc =>
    rw [hp] at hsig hflags
    obtain ⟨n, hn⟩ := hflags
    refine ⟨hsig, ⟨by simp [State.report], n + 1, replicate_report hn⟩, fun x _ hx => ?_,
      by rintro ⟨⟩⟩
    exact report_owed hinv (by rw [hp]; rfl) hx
  | passesInt hp hc =>
    rw [hp] at hsig hflags howed
    obtain ⟨n, hn⟩ := hflags
    exact ⟨hsig, ⟨hc, n, hn⟩, howed, by rintro ⟨⟩⟩
  | reportsTerm hp hc =>
    rw [hp] at hsig hflags
    obtain ⟨hint, n, hn⟩ := hflags
    refine ⟨hsig, ⟨n, ?_⟩, fun x _ hx => ?_, by rintro ⟨⟩⟩
    · simp [State.report, hn]
    · exact report_owed hinv (by rw [hp]; rfl) hx
  | passesTerm hp hc =>
    rw [hp] at hsig hflags howed
    obtain ⟨hint, n, hn⟩ := hflags
    refine ⟨hsig, ⟨fun x => ?_, n, hn⟩, howed, by rintro ⟨⟩⟩
    cases x with
    | int => exact hint
    | term => exact hc
  | exits hp =>
    rw [hp] at hflags
    exact ⟨trivial, hflags, (fun _ h => by cases h), by rintro ⟨⟩⟩

-- After the block a signal that is delivered finds its handler.
theorem delivered_handled {x : Sig} (h : Inv s) (hp : s.pc ≠ .sigprocmask)
    (hend : s.pc.ended = false) (hd : s.sig.deliverable x = true) :
    s.sig.handled x = true ∧ s.pc.wake = .returning := by
  have hclosed : ¬ Signals.Closed All s.sig := by
    intro hc
    rw [hc.not_deliverable x] at hd
    cases hd
  have hsig := h.sig
  cases hpc : s.pc <;> rw [hpc] at hsig
  case sigprocmask => exact absurd hpc hp
  case suspended => exact ⟨hsig.deliver hd, rfl⟩
  case returning => exact ⟨hsig.deliver hd, rfl⟩
  case exited => rw [hpc] at hend; cases hend
  case terminated => rw [hpc] at hend; cases hend
  case sigactionInt => exact absurd hsig hclosed
  case sigactionTerm => exact absurd hsig.1 hclosed
  all_goals exact absurd hsig.toClosed hclosed

theorem inv_deliver {x : Sig} (h : Inv s) (hs : s.deliver x = some s') : Inv s' := by
  obtain ⟨⟨hend, hd⟩, hs⟩ := Option.ite_none_right_eq_some.mp hs
  by_cases hp : s.pc = .sigprocmask
  · have hsig := h.sig
    rw [hp] at hsig
    rw [if_neg (by simp [(hsig x).2])] at hs
    cases hs
    exact ⟨hsig, trivial, (fun _ h => by cases h), by rintro ⟨⟩⟩
  · obtain ⟨hhandled, hwake⟩ := delivered_handled h hp hend hd
    rw [if_pos hhandled] at hs
    cases hs
    have hwaits : Waiting All s.sig ∧ ∃ n, s.reports = List.replicate n .int := by
      have hsig := h.sig
      have hflags := h.flags
      cases hpc : s.pc <;> rw [hpc] at hsig hflags hwake
      case suspended => exact ⟨hsig, hflags.2⟩
      case returning => exact ⟨hsig, hflags⟩
      all_goals cases hwake
    refine ⟨?_, ?_, fun y _ hy => ?_, ?_⟩
    · change SigInv s.pc.wake (s.sig.take x)
      rw [hwake]
      exact hwaits.1.take x
    · change FlagInv s.pc.wake _ s.reports
      rw [hwake]
      exact hwaits.2
    · have := (h.owed y hend hy).take x
      by_cases hyx : y = x
      · subst hyx
        exact .inl (Function.update_self _ _ _)
      · simpa [State.signalHandler, hyx] using this
    · intro hf
      change s.pc.wake = .sigprocmask at hf
      rw [hwake] at hf
      cases hf

theorem sigInv_send {pc : Pc} {p : SigState Sig} (h : SigInv pc p) (x : Sig) :
    SigInv pc (p.send x) := by
  cases pc with
  | sigactionInt => exact Signals.Closed.send h trivial
  | sigactionTerm => exact ⟨h.1.send trivial, h.2⟩
  | test | suspend | reportInt | reportTerm | exiting => exact Armed.send h trivial
  | suspended | returning => exact Waiting.send h trivial
  | sigprocmask | terminated | exited => exact h

theorem inv_send (h : Inv s) (x : Sig) : Inv (s.send x) := by
  unfold State.send
  split
  next => exact h
  next hend =>
    split
    next hp =>
      refine ⟨sigInv_send h.sig x, h.flags, fun y _ hy => ?_, h.fresh⟩
      rw [h.fresh hp y] at hy
      cases hy
    next hp =>
      refine ⟨sigInv_send h.sig x, h.flags, fun y hy how => ?_, fun hf => absurd hf hp⟩
      by_cases hyx : y = x
      · subst hyx
        exact Arrived.send_self _ _ _
      · have how : s.owed y = true := by simpa [hyx] using how
        exact (h.owed y hy how).send x

theorem inv_reachable (h : catching.Reachable s) : Inv s := by
  apply System.Reachable.induct (I := Inv) ?_ ?_ h
  · rintro s rfl
    refine ⟨fun _ => ⟨rfl, rfl⟩, ⟨fun _ => rfl, 0, rfl⟩, fun _ _ hx => ?_, fun _ _ => rfl⟩
    cases hx
  · intro s a s' _ ih hs
    cases a with
    | run => exact inv_run ih hs
    | deliver x => exact inv_deliver ih hs
    | send x =>
      cases hs
      exact inv_send ih x
    | fails =>
      change s.fails = some s' at hs
      unfold State.fails at hs
      split at hs <;> cases hs <;>
        exact ⟨trivial, trivial, (fun _ h => by cases h), by rintro ⟨⟩⟩

theorem not_terminated (h : Inv s) (hend : s.pc.ended = false) (hs : s.next a = some s') {x : Sig}
    (hx : s'.pc = .terminated x) : s.pc = .sigprocmask := by
  by_contra hp
  cases a with
  | run => cases main_step hs <;> cases hx
  | fails =>
    change s.fails = some s' at hs
    unfold State.fails at hs
    split at hs <;> cases hs <;> cases hx
  | deliver y =>
    obtain ⟨⟨_, hd⟩, hs⟩ := Option.ite_none_right_eq_some.mp hs
    obtain ⟨hhandled, hwake⟩ := delivered_handled h hp hend hd
    rw [if_pos hhandled] at hs
    cases hs
    change s.pc.wake = .terminated x at hx
    rw [hwake] at hx
    cases hx
  | send y =>
    cases hs
    unfold State.send at hx
    split_ifs at hx <;> change s.pc = .terminated x at hx <;> rw [hx] at hend <;> cases hend

/-- 9_1 with signals at any time: only one that comes before the mask is set can end it, any other
is delivered in `sigsuspend` and handled; the flags are down whenever the loop tests them, so it
leaves the loop by SIGTERM alone, reported last; and no signal is forgotten while it runs. -/
theorem catches (h : catching.Reachable s) :
    (∀ a x t, s.pc.ended = false → s.next a = some t → t.pc = .terminated x →
      s.pc = .sigprocmask) ∧
      (∀ x t, s.pc ≠ .sigprocmask → s.next (.deliver x) = some t →
        t.caught x = true ∧ t.pc = .returning) ∧
      (s.pc = .test → ∀ x, s.caught x = false) ∧
      (s.pc = .exited 0 → ∃ n, s.reports = List.replicate n .int ++ [.term]) ∧
      ∀ x, s.pc.ended = false → s.owed x = true →
        s.caught x = true ∨ s.sig.pending x = true := by
  have hinv := inv_reachable h
  refine ⟨fun a x t hend hs => not_terminated hinv hend hs, fun x t hp hs => ?_, fun hp x => ?_,
    fun hp => ?_, hinv.owed⟩
  · obtain ⟨⟨hend, hd⟩, hs⟩ := Option.ite_none_right_eq_some.mp hs
    obtain ⟨hhandled, hwake⟩ := delivered_handled hinv hp hend hd
    rw [if_pos hhandled] at hs
    cases hs
    exact ⟨Function.update_self _ _ _, hwake⟩
  · have hflags := hinv.flags
    rw [hp] at hflags
    exact hflags.1 x
  · have hflags := hinv.flags
    rw [hp] at hflags
    exact hflags

def sample : List Action :=
  [.run, .run, .run, .run, .run, .send .int, .deliver .int, .run, .send .term, .run, .run, .run,
    .run]

theorem sample_runs : ((catching.run State.initial sample).map
    (fun s => (s.pc, s.owed .term, s.caught .term, s.reports))) =
      some (.suspended, true, false, [.int]) := by
  decide

theorem catches_sample : ∃ s, catching.run State.initial sample = some s ∧
    s.sig.pending .term = true := by
  obtain ⟨s, hs, hx⟩ := Option.map_eq_some_iff.mp sample_runs
  simp only [Prod.mk.injEq] at hx
  have hkept := (catches (.run sample (.init rfl) hs)).2.2.2.2 .term (by rw [hx.1]; rfl) hx.2.1
  refine ⟨s, hs, hkept.resolve_left ?_⟩
  rw [hx.2.2.1]
  exact Bool.false_ne_true

def Quiet (_ : State) (a : Action) : Prop := a = .run ∨ ∃ x, a = .deliver x

def pendingCount (p : SigState Sig) : ℕ :=
  (if p.pending .int then 1 else 0) + if p.pending .term then 1 else 0

def Pc.rank : Pc → ℕ
  | .sigprocmask => 9
  | .sigactionInt => 8
  | .sigactionTerm => 7
  | .returning => 6
  | .reportInt => 5
  | .reportTerm => 4
  | .test => 3
  | .suspend => 2
  | .suspended => 1
  | .exiting => 1
  | .exited _ | .terminated _ => 0

def rank (s : State) : ℕ := s.pc.rank + 6 * pendingCount s.sig

theorem pendingCount_take {p : SigState Sig} {x : Sig} (hx : p.pending x = true) :
    pendingCount (p.take x) + 1 = pendingCount p := by
  cases x <;> cases hi : p.pending .int <;> cases ht : p.pending .term <;>
    simp_all [pendingCount, SigState.take]

theorem main_rank (hs : s.main = some s') :
    s'.pc.rank < s.pc.rank ∧ pendingCount s'.sig = pendingCount s.sig := by
  cases main_step hs with
  | blocks hp | handlesInt hp | handlesTerm hp | leaves hp | stays hp | suspends hp | resumes hp
  | reportsInt hp | passesInt hp | reportsTerm hp | passesTerm hp | exits hp =>
    exact ⟨by simp [hp, Pc.rank], rfl⟩

theorem rank_lt (ha : Quiet s a) (hs : s.next a = some s') : rank s' < rank s := by
  rcases ha with rfl | ⟨x, rfl⟩
  · obtain ⟨hpc, hcount⟩ := main_rank hs
    simp only [rank, hcount]
    omega
  · obtain ⟨⟨hend, hd⟩, hs⟩ := Option.ite_none_right_eq_some.mp hs
    have hcount := pendingCount_take (SigState.deliverable_iff.mp hd).1
    have hwake : s.pc.wake.rank ≤ s.pc.rank + 5 := by
      cases s.pc <;> simp [Pc.wake, Pc.rank]
    split_ifs at hs
    · cases hs
      simp only [rank]
      omega
    · cases hs
      simp only [rank, Pc.rank]
      omega

def Settled (s : State) : Prop :=
  s.pc.ended = true ∨
    s.pc = .suspended ∧ ∀ x, s.owed x = false ∧ s.caught x = false ∧ s.sig.pending x = false

theorem settled_of_suspended (h : Inv s) (hp : s.pc = .suspended)
    (hpend : ∀ x, s.sig.pending x = false) : Settled s := by
  have hflags := h.flags
  rw [hp] at hflags
  refine .inr ⟨hp, fun x => ⟨Bool.eq_false_iff.mpr fun hx => ?_, hflags.1 x, hpend x⟩⟩
  rcases h.owed x (by rw [hp]; rfl) hx with hc | hc
  · rw [hflags.1 x] at hc
    cases hc
  · rw [hpend x] at hc
    cases hc

theorem goes_on (h : catching.Reachable s) (hn : ¬ Settled s) :
    ∃ t, catching.StepWhile Quiet s t := by
  by_cases hp : s.pc = .suspended
  · have hsig := (inv_reachable h).sig
    rw [hp] at hsig
    obtain ⟨x, hx⟩ : ∃ x, s.sig.pending x = true := by
      by_contra hnone
      refine hn (settled_of_suspended (inv_reachable h) hp fun x => ?_)
      exact Bool.eq_false_iff.mpr fun hx => hnone ⟨x, hx⟩
    have hd := hsig.deliverable hx
    have hrun : (s.deliver x).isSome = true := by
      simp [State.deliver, hp, hd, hsig.deliver hd, Pc.ended]
    obtain ⟨t, ht⟩ := Option.isSome_iff_exists.mp hrun
    exact ⟨t, .deliver x, .inr ⟨x, rfl⟩, ht⟩
  · have hrun : s.main.isSome = true := by
      cases hpc : s.pc with
      | suspended => exact absurd hpc hp
      | exited => exact absurd (.inl (by rw [hpc]; rfl)) hn
      | terminated => exact absurd (.inl (by rw [hpc]; rfl)) hn
      | _ => simp [State.main, hpc]
    obtain ⟨t, ht⟩ := Option.isSome_iff_exists.mp hrun
    exact ⟨t, .run, .inl rfl, ht⟩

theorem settles_quietly (h : catching.Reachable s) :
    catching.Inevitable Quiet (fun t => catching.Reachable t ∧ Settled t) s := by
  apply System.Inevitable.of_measure (I := catching.Reachable) rank ?_ ?_ h
  · intro s hr hn
    exact goes_on hr (fun hs => hn ⟨hr, hs⟩)
  · rintro s t hr _ ⟨a, ha, hs⟩
    exact ⟨hr.step a hs, rank_lt ha hs⟩

def Leaving (s : State) : Prop :=
  s.pc = .exiting ∨ s.pc = .exited 0 ∨ (s.pc.ended = false ∧ s.owed .term = true)

theorem leaving_main (h : Leaving s) (hs : s.main = some s') : Leaving s' := by
  have hterm : s.pc ≠ .exiting → s.owed .term = true := by
    intro hp
    rcases h with hx | hx | ⟨_, ht⟩
    · exact absurd hx hp
    · simp [State.main, hx] at hs
    · exact ht
  cases main_step hs with
  | exits hp => exact .inr (.inl rfl)
  | leaves hp | reportsTerm hp => exact .inl rfl
  | reportsInt hp =>
    have ht := hterm (by rw [hp]; simp)
    exact .inr (.inr ⟨rfl, by simpa [State.report] using ht⟩)
  | blocks hp | handlesInt hp | handlesTerm hp | stays hp | suspends hp | resumes hp
  | passesInt hp | passesTerm hp => exact .inr (.inr ⟨rfl, hterm (by rw [hp]; simp)⟩)

theorem leaving_deliver {x : Sig} (hr : catching.Reachable s) (h : Leaving s)
    (hs : s.deliver x = some s') : Leaving s' := by
  obtain ⟨⟨hend, hd⟩, hs⟩ := Option.ite_none_right_eq_some.mp hs
  have hinv := inv_reachable hr
  have hp : s.pc ≠ .sigprocmask := by
    rintro hp
    rcases h with h | h | ⟨_, ht⟩
    · rw [hp] at h
      cases h
    · rw [hp] at h
      cases h
    · rw [hinv.fresh hp] at ht
      cases ht
  obtain ⟨hhandled, hwake⟩ := delivered_handled hinv hp hend hd
  rw [if_pos hhandled] at hs
  cases hs
  rcases h with h | h | ⟨_, ht⟩
  · rw [h] at hwake
    cases hwake
  · rw [h] at hwake
    cases hwake
  · exact .inr (.inr ⟨by change s.pc.wake.ended = false; rw [hwake]; rfl, ht⟩)

/-- Left alone, 9_1 comes to rest: it has ended, or waits with every signal that has come reported;
and a SIGTERM that has come since the block makes it exit, reporting it last. -/
theorem comes_to_rest (h : catching.Reachable s) :
    catching.Inevitable Quiet Settled s ∧
      (s.pc.ended = false → s.owed .term = true → catching.Inevitable Quiet (fun t =>
        t.pc = .exited 0 ∧ ∃ n, t.reports = List.replicate n .int ++ [.term]) s) := by
  refine ⟨(settles_quietly h).mono fun t ht => ht.2, fun hend ht => ?_⟩
  have hkeep : ∀ s t, catching.Reachable s ∧ Leaving s → catching.StepWhile Quiet s t →
      catching.Reachable t ∧ Leaving t := by
    rintro s t ⟨hr, hl⟩ ⟨a, ha, hs⟩
    refine ⟨hr.step a hs, ?_⟩
    rcases ha with rfl | ⟨x, rfl⟩
    · exact leaving_main hl hs
    · exact leaving_deliver hr hl hs
  apply ((settles_quietly h).keeps hkeep ⟨h, .inr (.inr ⟨hend, ht⟩)⟩).mono
  rintro t ⟨⟨hr, hset⟩, _, hl⟩
  have hp : t.pc = .exited 0 := by
    rcases hl with hp | hp | ⟨hend, ht⟩
    · rcases hset with hset | ⟨hset, _⟩
      · rw [hp] at hset
        cases hset
      · rw [hp] at hset
        cases hset
    · exact hp
    · rcases hset with hset | ⟨_, hset⟩
      · rw [hend] at hset
        cases hset
      · rw [(hset .term).1] at ht
        cases ht
  have hflags := (inv_reachable hr).flags
  rw [hp] at hflags
  exact ⟨hp, hflags⟩

theorem comes_to_rest_sample : ∃ s, catching.run State.initial sample = some s ∧
    catching.Inevitable Quiet (fun t =>
      t.pc = .exited 0 ∧ ∃ n, t.reports = List.replicate n .int ++ [.term]) s := by
  obtain ⟨s, hs, hx⟩ := Option.map_eq_some_iff.mp sample_runs
  simp only [Prod.mk.injEq] at hx
  exact ⟨s, hs, (comes_to_rest (.run sample (.init rfl) hs)).2 (by rw [hx.1]; rfl) hx.2.1⟩

end LinuxSystemProgramming.SignalLoops.Catching
