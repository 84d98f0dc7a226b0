import LinuxSystemProgramming.Lib.ForkWait
import Mathlib.Algebra.BigOperators.Group.Finset.Piecewise
import Mathlib.Algebra.Order.BigOperators.Group.Finset
import Mathlib.Data.Finset.Prod

namespace LinuxSystemProgramming.ForkWait

open Children Transition

variable {ι α : Type*}

def Code.size : Code ι α → ℕ
  | .exit _ => 1
  | .act _ next => next.size + 1
  | .exec failed done => failed.size + done.size + 1
  | .fork _ failed next => failed.size + next.size + 1
  | .wait failed next => failed.size + next.size + 1
  | .waitpid _ failed next => failed.size + next.size + 1
  | .poll _ failed running next => failed.size + running.size + next.size + 1

@[simp] theorem after_nil (e : Ending ι α) : e.after [] = e := rfl

theorem after_after (e : Ending ι α) (l l' : List α) :
    (e.after l').after l = e.after (l ++ l') := by
  simp [Ending.after]

section Waits

variable {s : State ι α} {child : ι → Life (Body α)} {code next : Code ι α} {r : WaitResult ι} {c : ι}

variable [Fintype ι]

theorem mem_of_zombie {child : ι → Life (Body α)} {status : ℕ} (h : child c = .zombie status) :
    c ∈ unreaped child := by
  rw [mem_unreaped, h]
  rfl

theorem waited_size (h : Waited child code r next) : next.size < code.size := by
  cases h <;> simp only [Code.size] <;> omega

theorem waited_zombie {status : ℕ} (h : Waited child code (.child c status) next) :
    child c = .zombie status := by
  cases h <;> assumption

def Awake (s : State ι α) : Prop := ∀ c, (s.child c).ended = false

theorem Awake.running (h : Awake s) (hc : c ∈ unreaped s.child) :
    ∃ body, s.child c = .running body := by
  rw [mem_unreaped] at hc
  have hz := h c
  cases hl : s.child c with
  | notCreated => rw [hl] at hc; cases hc
  | reaped => rw [hl] at hc; cases hc
  | zombie status => rw [hl] at hz; cases hz
  | running body => exact ⟨body, rfl⟩

variable [DecidableEq ι]

def left (own : Finset ι) : WaitResult ι → Finset ι
  | .child c _ => own.erase c
  | _ => own

theorem waited_fresh (h : Waited child code r next) {used : Finset ι}
    (hf : code.fresh used = true) : next.fresh used = true := by
  cases h <;> simp only [Code.fresh, Bool.and_eq_true] at hf <;> simp only [hf]

theorem reap_unreaped (h : Waited s.child code r next) :
    unreaped (s.reap next r).child = left (unreaped s.child) r := by
  cases r with
  | child c status => exact unreaped_erase
  | failed => rfl
  | none => rfl

variable [DecidableEq α]

theorem waited_endings (h : Waited child code r next) :
    next.endings (left (unreaped child) r) ⊆ code.endings (unreaped child) := by
  intro e he
  cases h with
  | noChild hnone =>
    simp only [Code.endings, hnone, if_true]
    rwa [hnone] at he
  | anyChild hc =>
    have hmem := mem_of_zombie hc
    rw [Code.endings, if_neg (Finset.ne_empty_of_mem hmem)]
    exact Finset.mem_biUnion.mpr ⟨_, hmem, he⟩
  | notMine hc =>
    rw [Code.endings, if_neg hc]
    exact he
  | one hc =>
    rw [Code.endings, if_pos (mem_of_zombie hc)]
    exact he
  | pollNotMine hc =>
    rw [Code.endings, if_neg hc]
    exact he
  | pollRunning hc =>
    rw [Code.endings, if_pos hc]
    exact Finset.mem_union_left _ he
  | pollOne hc =>
    rw [Code.endings, if_pos (mem_of_zombie hc)]
    exact Finset.mem_union_right _ he

end Waits

variable [DecidableEq ι] {P : Program ι α} {s s' : State ι α} {c : ι}

theorem stepChild_parent (ok : Bool) (body : Body α) :
    (s.stepChild c ok body).parent = s.parent ∧ (s.stepChild c ok body).lines = s.lines := by
  cases body <;> exact ⟨rfl, rfl⟩

theorem Awake.update (h : Awake s) {l : Life (Body α)} (hl : l.ended = false) (d : ι) :
    (Function.update s.child c l d).ended = false := by
  by_cases hd : d = c
  · subst hd
    rwa [Function.update_self]
  · rw [Function.update_of_ne hd]
    exact h d

variable [Fintype ι]

theorem child_unreaped {body : Body α} (hc : s.child c = .running body) (l : Life (Body α))
    (hl : l.unreaped = true) : unreaped (Function.update s.child c l) = unreaped s.child := by
  ext d
  rw [mem_unreaped, mem_unreaped]
  by_cases hd : d = c
  · subst hd
    rw [Function.update_self, hc]
    exact iff_of_true hl rfl
  · rw [Function.update_of_ne hd]

theorem stepChild_unreaped {body : Body α} (hc : s.child c = .running body) (ok : Bool) :
    unreaped (s.stepChild c ok body).child = unreaped s.child := by
  cases body with
  | exit n => exact child_unreaped hc _ rfl
  | act a next => exact child_unreaped hc _ rfl
  | exec failed done => exact child_unreaped hc _ rfl

variable [DecidableEq α]

def Sound (P : Program ι α) (s : State ι α) : Prop :=
  match s.parent with
  | .runs code => ∀ e ∈ code.endings (unreaped s.child), e.after s.lines ∈ P.code.endings ∅
  | .exited status => (⟨s.lines, status, unreaped s.child⟩ : Ending ι α) ∈ P.code.endings ∅

theorem sound_child {t : State ι α} (h : Sound P s) (hp : t.parent = s.parent)
    (hl : t.lines = s.lines) (hu : unreaped t.child = unreaped s.child) : Sound P t := by
  unfold Sound at h ⊢
  rwa [hp, hl, hu]

theorem sound_step (h : Sound P s) (hs : Step P s s') : Sound P s' := by
  cases hs with
  | exits hp =>
    simp only [Sound, hp] at h ⊢
    simpa [Ending.after] using h _ (Finset.mem_singleton_self _)
  | @acts a next hp =>
    simp only [Sound, hp] at h ⊢
    intro e he
    rw [← after_after]
    exact h _ (Finset.mem_image_of_mem _ he)
  | execs hp hn =>
    simp only [Sound, hp] at h ⊢
    intro e he
    apply h
    rcases hn with rfl | rfl
    · exact Finset.mem_union_left _ he
    · exact Finset.mem_union_right _ he
  | forks hp =>
    simp only [Sound, hp] at h ⊢
    intro e he
    apply h
    rw [State.go, unreaped_insert] at he
    exact Finset.mem_union_right _ he
  | forkFails hp =>
    simp only [Sound, hp] at h ⊢
    intro e he
    exact h e (Finset.mem_union_left _ he)
  | @waits code next r hp hw =>
    have hparent : (s.reap next r).parent = .runs next := by cases r <;> rfl
    have hlines : (s.reap next r).lines = s.lines := by cases r <;> rfl
    simp only [Sound, hp] at h
    simp only [Sound, hparent, hlines, reap_unreaped hw]
    intro e he
    exact h e (waited_endings hw he)
  | child hc =>
    obtain ⟨hp, hl⟩ := stepChild_parent (s := s) _ _
    exact sound_child h hp hl (stepChild_unreaped hc _)
  | kill hc => exact sound_child h rfl rfl (unreaped_end hc)

theorem sound_reachable (h : P.system.Reachable s) : Sound P s := by
  apply System.Reachable.induct (I := Sound P) ?_ ?_ h
  · rintro s rfl e he
    rwa [Program.initial, unreaped_none (fun _ => rfl)] at he
  · intro s a t _ ih hs
    exact sound_step ih (step_of_next hs)

abbrev Any : State ι α → Action ι → Prop := fun _ _ => True

theorem path_step {a : Action ι} (hs : P.next s a = some s') : P.system.PathWhile Any s s' :=
  .single ⟨a, trivial, hs⟩

theorem child_ends {body : Body α} (hc : s.child c = .running body) :
    ∃ t status, P.system.PathWhile Any s t ∧ t.parent = s.parent ∧ t.lines = s.lines ∧
      t.child = Function.update s.child c (.zombie status) := by
  induction body generalizing s with
  | exit n =>
    have hs : P.next s (.child c true) = some (s.ends c (.exited n)) := by
      simp [Program.next, hc, State.stepChild]
    exact ⟨_, _, path_step hs, rfl, rfl, rfl⟩
  | act a next ih =>
    have hs : P.next s (.child c true) = some (s.stepChild c true (.act a next)) := by
      simp [Program.next, hc]
    have hgo : (s.stepChild c true (.act a next)).child c = .running next :=
      Function.update_self _ _ _
    obtain ⟨t, status, ht, hp, hl, hz⟩ := ih hgo
    refine ⟨t, status, (path_step hs).trans ht, hp, hl, ?_⟩
    rw [hz]
    exact Function.update_idem _ _ _
  | exec failed done _ ih =>
    have hs : P.next s (.child c true) = some (s.stepChild c true (.exec failed done)) := by
      simp [Program.next, hc]
    have hgo : (s.stepChild c true (.exec failed done)).child c = .running done :=
      Function.update_self _ _ _
    obtain ⟨t, status, ht, hp, hl, hz⟩ := ih hgo
    refine ⟨t, status, (path_step hs).trans ht, hp, hl, ?_⟩
    rw [hz]
    exact Function.update_idem _ _ _

def Comes (P : Program ι α) (s : State ι α) (e : Ending ι α) : Prop :=
  ∃ t, P.system.PathWhile Any s t ∧ t.ending = some (e.after s.lines)

theorem Comes.head {e : Ending ι α} (h : Comes P s' e) (hp : P.system.PathWhile Any s s')
    (hl : s'.lines = s.lines) : Comes P s e := by
  obtain ⟨t, ht, he⟩ := h
  rw [hl] at he
  exact ⟨t, hp.trans ht, he⟩

theorem comes_reaped {code next : Code ι α} {e : Ending ι α} (ha : Awake s)
    (hc : c ∈ unreaped s.child) (hp : s.parent = .runs code)
    (hw : ∀ child : ι → Life (Body α), ∀ status, child c = .zombie status →
      code.waited child (.child c status) = some next)
    (ih : ∀ {s : State ι α}, s.parent = .runs next → Awake s →
      e ∈ next.endings (unreaped s.child) → Comes P s e)
    (he : e ∈ next.endings ((unreaped s.child).erase c)) : Comes P s e := by
  obtain ⟨body, hrun⟩ := ha.running hc
  obtain ⟨t, status, ht, htp, htl, hz⟩ := child_ends (P := P) hrun
  have htc : t.child c = .zombie status := by rw [hz, Function.update_self]
  have hs : P.next t (.wait (.child c status)) = some (t.reap next (.child c status)) := by
    simp [Program.next, htp, hp, hw t.child status htc]
  have hchild : (t.reap next (.child c status)).child = Function.update s.child c .reaped := by
    simp [State.reap, hz]
  have hcomes : Comes P (t.reap next (.child c status)) e := by
    apply ih rfl
    · intro d
      rw [hchild]
      exact ha.update rfl d
    · rwa [hchild, unreaped_erase]
  exact hcomes.head (ht.trans (path_step hs)) htl

theorem comes_without_child {code next : Code ι α} {e : Ending ι α} {r : WaitResult ι}
    (hp : s.parent = .runs code) (hw : code.waited s.child r = some next)
    (hr : ∀ c status, r ≠ .child c status) (h : Comes P { s with parent := .runs next } e) :
    Comes P s e := by
  have hreap : s.reap next r = { s with parent := .runs next } := by
    cases r with
    | failed | none => rfl
    | child c status => exact absurd rfl (hr c status)
  have hs : P.next s (.wait r) = some { s with parent := .runs next } := by
    simp [Program.next, hp, hw, hreap]
  exact h.head (path_step hs) rfl

theorem comes_of_mem_endings {code : Code ι α} {e : Ending ι α} (hp : s.parent = .runs code)
    (ha : Awake s)
    (he : e ∈ code.endings (unreaped s.child)) : Comes P s e := by
  induction code generalizing s e with
  | exit n =>
    rw [Code.endings, Finset.mem_singleton] at he
    subst he
    have hs : P.next s .run = some { s with parent := .exited (exitCode n) } := by
      simp [Program.next, hp]
    refine ⟨_, path_step hs, ?_⟩
    simp [State.ending, Ending.after]
  | act a next ih =>
    rw [Code.endings, Finset.mem_image] at he
    obtain ⟨e, he, rfl⟩ := he
    have hs : P.next s .run = some { s with parent := .runs next, lines := s.lines ++ [a] } := by
      simp [Program.next, hp]
    obtain ⟨t, ht, hend⟩ :=
      ih (s := { s with parent := .runs next, lines := s.lines ++ [a] }) rfl ha he
    refine ⟨t, (path_step hs).trans ht, ?_⟩
    rw [hend, after_after]
  | exec failed done ihf ihd =>
    have hs (ok : Bool) : P.next s (.exec ok) =
        some { s with parent := .runs (if ok then done else failed) } := by
      simp [Program.next, hp]
    rcases Finset.mem_union.mp he with he | he
    · exact (ihf (s := { s with parent := .runs failed }) rfl ha he).head (path_step (hs false)) rfl
    · exact (ihd (s := { s with parent := .runs done }) rfl ha he).head (path_step (hs true)) rfl
  | fork c failed next ihf ihn =>
    have hfail : P.next s (.fork false) = some { s with parent := .runs failed } := by
      simp [Program.next, hp]
    have hok : P.next s (.fork true) = some { s.go c (P.body c) with parent := .runs next } := by
      simp [Program.next, hp]
    rcases Finset.mem_union.mp he with he | he
    · exact (ihf (s := { s with parent := .runs failed }) rfl ha he).head (path_step hfail) rfl
    · refine (ihn (s := { s.go c (P.body c) with parent := .runs next }) rfl (ha.update rfl) ?_).head
        (path_step hok) rfl
      rwa [State.go, unreaped_insert]
  | wait failed next ihf ihn =>
    rw [Code.endings] at he
    split at he
    next hnone =>
      have hw : (Code.wait failed next).waited s.child .failed = some failed := by
        simp [Code.waited, hnone]
      exact comes_without_child hp hw (by simp) (ihf rfl ha he)
    next =>
      obtain ⟨c, hc, he⟩ := Finset.mem_biUnion.mp he
      refine comes_reaped ha hc hp ?_ (fun hp ha he => ihn hp ha he) he
      intro child status hz
      simp [Code.waited, hz]
  | waitpid c failed next ihf ihn =>
    rw [Code.endings] at he
    split at he
    next hc =>
      refine comes_reaped ha hc hp ?_ (fun hp ha he => ihn hp ha he) he
      intro child status hz
      simp [Code.waited, hz]
    next hc =>
      have hw : (Code.waitpid c failed next).waited s.child .failed = some failed := by
        simp [Code.waited, not_mem_unreaped.mp hc]
      exact comes_without_child hp hw (by simp) (ihf rfl ha he)
  | poll c failed running next ihf ihr ihn =>
    rw [Code.endings] at he
    split at he
    next hc =>
      rcases Finset.mem_union.mp he with he | he
      · have hw : (Code.poll c failed running next).waited s.child .none = some running := by
          simp [Code.waited, mem_unreaped.mp hc, ha c]
        exact comes_without_child hp hw (by simp) (ihr rfl ha he)
      · refine comes_reaped ha hc hp ?_ (fun hp ha he => ihn hp ha he) he
        intro child status hz
        simp [Code.waited, hz]
    next hc =>
      have hw : (Code.poll c failed running next).waited s.child .failed = some failed := by
        simp [Code.waited, not_mem_unreaped.mp hc]
      exact comes_without_child hp hw (by simp) (ihf rfl ha he)

theorem reachable_of_path {t : State ι α} (h : P.system.Reachable s)
    (hp : P.system.PathWhile Any s t) : P.system.Reachable t :=
  System.ReachableWhile.path h hp

/-- The endings that the code gives are the endings that there are. -/
theorem ending_iff (e : Ending ι α) :
    (∃ s, P.system.Reachable s ∧ s.ending = some e) ↔ e ∈ P.code.endings ∅ := by
  constructor
  · rintro ⟨s, hr, he⟩
    have hsound := sound_reachable hr
    unfold State.ending at he
    unfold Sound at hsound
    split at he
    next => cases he
    next hp =>
      cases he
      simpa only [hp] using hsound
  · intro he
    have hnone : unreaped P.initial.child = ∅ := unreaped_none (fun _ => rfl)
    obtain ⟨t, ht, hend⟩ :=
      comes_of_mem_endings (P := P) (s := P.initial) rfl (fun _ => rfl) (hnone ▸ he)
    exact ⟨t, reachable_of_path (.init rfl) ht, hend⟩

end LinuxSystemProgramming.ForkWait
