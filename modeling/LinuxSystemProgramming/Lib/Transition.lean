import Mathlib.Data.Nat.Basic
import Mathlib.Logic.Relation

namespace LinuxSystemProgramming.Transition

variable {σ α : Type*}

/-- All nondeterminism is in the choice of the next action; `none` means that the action is not
possible in the state. -/
structure System (σ α : Type*) where
  init : σ → Prop
  next : σ → α → Option σ

namespace System

inductive ReachableWhile (M : System σ α) (C : σ → α → Prop) : σ → Prop
  | init {s : σ} (h : M.init s) : ReachableWhile M C s
  | step {s t : σ} (a : α) (h : ReachableWhile M C s) (hc : C s a) (hs : M.next s a = some t) :
      ReachableWhile M C t

def Reachable (M : System σ α) : σ → Prop := M.ReachableWhile (fun _ _ => True)

theorem ReachableWhile.induct {M : System σ α} {C : σ → α → Prop} {I : σ → Prop}
    (hinit : ∀ s, M.init s → I s)
    (hstep : ∀ s a t, M.ReachableWhile C s → I s → C s a → M.next s a = some t → I t)
    {s : σ} (h : M.ReachableWhile C s) : I s := by
  induction h with
  | init h => exact hinit _ h
  | step a h hc hs ih => exact hstep _ a _ h ih hc hs

theorem Reachable.step {M : System σ α} {s t : σ} (a : α) (h : M.Reachable s)
    (hs : M.next s a = some t) : M.Reachable t :=
  ReachableWhile.step a h trivial hs

theorem Reachable.induct {M : System σ α} {I : σ → Prop} (hinit : ∀ s, M.init s → I s)
    (hstep : ∀ s a t, M.Reachable s → I s → M.next s a = some t → I t)
    {s : σ} (h : M.Reachable s) : I s :=
  ReachableWhile.induct hinit (fun s a t hr hi _ hs => hstep s a t hr hi hs) h

theorem ReachableWhile.reachable {M : System σ α} {C : σ → α → Prop} {s : σ}
    (h : M.ReachableWhile C s) : M.Reachable s := by
  induction h with
  | init h => exact .init h
  | step a _ _ hs ih => exact ih.step a hs

theorem ReachableWhile.mono {M : System σ α} {C D : σ → α → Prop} (hCD : ∀ s a, C s a → D s a)
    {s : σ} (h : M.ReachableWhile C s) : M.ReachableWhile D s := by
  induction h with
  | init h => exact .init h
  | step a _ hc hs ih => exact .step a ih (hCD _ a hc) hs

def StepWhile (M : System σ α) (C : σ → α → Prop) (s t : σ) : Prop :=
  ∃ a, C s a ∧ M.next s a = some t

abbrev PathWhile (M : System σ α) (C : σ → α → Prop) : σ → σ → Prop :=
  Relation.ReflTransGen (M.StepWhile C)

theorem ReachableWhile.path {M : System σ α} {C : σ → α → Prop} {s t : σ}
    (h : M.ReachableWhile C s) (hp : M.PathWhile C s t) : M.ReachableWhile C t := by
  induction hp with
  | refl => exact h
  | tail _ hs ih =>
    obtain ⟨a, hc, hn⟩ := hs
    exact .step a ih hc hn

/-- The progress rule: a measure that some step decreases in every state that is not done. -/
theorem progress_from {M : System σ α} {C : σ → α → Prop} {I done : σ → Prop} (μ : σ → ℕ)
    (hstep : ∀ s, I s → ¬ done s → ∃ t, M.StepWhile C s t ∧ I t ∧ μ t < μ s)
    {s : σ} (h : I s) : ∃ t, M.PathWhile C s t ∧ done t := by
  induction hn : μ s using Nat.strongRecOn generalizing s with
  | _ n ih =>
    by_cases hd : done s
    · exact ⟨s, .refl, hd⟩
    · obtain ⟨t, hst, hi, hlt⟩ := hstep s h hd
      obtain ⟨u, htu, hu⟩ := ih (μ t) (hn ▸ hlt) hi rfl
      exact ⟨u, .head hst htu, hu⟩

theorem ReachableWhile.progress {M : System σ α} {C : σ → α → Prop} {done : σ → Prop}
    (μ : σ → ℕ)
    (hstep : ∀ s, M.ReachableWhile C s → ¬ done s → ∃ t, M.StepWhile C s t ∧ μ t < μ s)
    {s : σ} (h : M.ReachableWhile C s) : ∃ t, M.PathWhile C s t ∧ done t := by
  refine progress_from μ ?_ h
  intro s hs hd
  obtain ⟨t, ht, hlt⟩ := hstep s hs hd
  exact ⟨t, ht, hs.path (.single ht), hlt⟩

/-- Every run of steps that satisfy `C` comes to a `done` state, and none is stuck before. -/
inductive Inevitable (M : System σ α) (C : σ → α → Prop) (done : σ → Prop) : σ → Prop
  | now {s : σ} (h : done s) : Inevitable M C done s
  | later {s : σ} (he : ∃ t, M.StepWhile C s t)
      (h : ∀ t, M.StepWhile C s t → Inevitable M C done t) : Inevitable M C done s

theorem Inevitable.of_measure {M : System σ α} {C : σ → α → Prop} {done I : σ → Prop} (μ : σ → ℕ)
    (he : ∀ s, I s → ¬ done s → ∃ t, M.StepWhile C s t)
    (hstep : ∀ s t, I s → ¬ done s → M.StepWhile C s t → I t ∧ μ t < μ s)
    {s : σ} (h : I s) : M.Inevitable C done s := by
  induction hn : μ s using Nat.strongRecOn generalizing s with
  | _ n ih =>
    by_cases hd : done s
    · exact .now hd
    · apply Inevitable.later (he s h hd)
      intro t ht
      obtain ⟨hi, hlt⟩ := hstep s t h hd ht
      exact ih (μ t) (hn ▸ hlt) hi rfl

theorem Inevitable.mono {M : System σ α} {C : σ → α → Prop} {done done' : σ → Prop}
    (hd : ∀ s, done s → done' s) {s : σ} (h : M.Inevitable C done s) : M.Inevitable C done' s := by
  induction h with
  | now h => exact .now (hd _ h)
  | later he _ ih => exact .later he ih

theorem Inevitable.keeps {M : System σ α} {C : σ → α → Prop} {done I : σ → Prop}
    (hI : ∀ s t, I s → M.StepWhile C s t → I t) {s : σ} (h : M.Inevitable C done s) (hi : I s) :
    M.Inevitable C (fun t => done t ∧ I t) s := by
  induction h with
  | now h => exact .now ⟨h, hi⟩
  | later he _ ih => exact .later he fun t ht => ih t ht (hI _ t hi ht)

theorem Inevitable.meets {M : System σ α} {C : σ → α → Prop} {P Q : σ → Prop}
    (hP : ∀ s t, P s → ¬ M.StepWhile C s t) (hQ : ∀ s t, Q s → ¬ M.StepWhile C s t) {s : σ}
    (h : M.Inevitable C P s) (h' : M.Inevitable C Q s) : ∃ t, P t ∧ Q t := by
  induction h with
  | @now s h =>
    cases h' with
    | now h' => exact ⟨s, h, h'⟩
    | later he _ =>
      obtain ⟨t, ht⟩ := he
      exact absurd ht (hP s t h)
  | @later s he _ ih =>
    obtain ⟨t, ht⟩ := he
    cases h' with
    | now h' => exact absurd ht (hQ s t h')
    | later _ hs => exact ih t ht (hs t ht)

def runWhile (M : System σ α) (C : σ → α → Bool) : σ → List α → Option σ
  | s, [] => some s
  | s, a :: as => if C s a then (M.next s a).bind (fun t => M.runWhile C t as) else none

def run (M : System σ α) : σ → List α → Option σ := M.runWhile (fun _ _ => true)

theorem ReachableWhile.run {M : System σ α} {C : σ → α → Bool} {D : σ → α → Prop} {s t : σ}
    (hC : ∀ s a, C s a = true → D s a) (as : List α) (h : M.ReachableWhile D s)
    (hr : M.runWhile C s as = some t) : M.ReachableWhile D t := by
  induction as generalizing s with
  | nil => cases hr; exact h
  | cons a as ih =>
    obtain ⟨hc, hb⟩ := Option.ite_none_right_eq_some.mp hr
    obtain ⟨u, hu, ht⟩ := Option.bind_eq_some_iff.mp hb
    exact ih (.step a h (hC s a hc) hu) ht

theorem Reachable.run {M : System σ α} {s t : σ} (as : List α) (h : M.Reachable s)
    (hr : M.run s as = some t) : M.Reachable t :=
  ReachableWhile.run (fun _ _ _ => trivial) as h hr

end System

end LinuxSystemProgramming.Transition
