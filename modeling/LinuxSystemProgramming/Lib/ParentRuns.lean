import LinuxSystemProgramming.Lib.ParentEndings
import Mathlib.Algebra.BigOperators.Group.Finset.Piecewise
import Mathlib.Algebra.Order.BigOperators.Group.Finset

namespace LinuxSystemProgramming.ForkWait

open Children Transition

variable {ι α : Type*} [DecidableEq ι] {P : Program ι α} {s s' : State ι α} {c : ι}

def Fresh (s : State ι α) : Prop :=
  ∀ code, s.parent = .runs code →
    ∃ used, code.fresh used = true ∧ ∀ c, c ∉ used → s.child c = .notCreated

theorem Fresh.fork {failed next : Code ι α} (h : Fresh s)
    (hp : s.parent = .runs (.fork c failed next)) : s.child c = .notCreated := by
  obtain ⟨used, hf, hfree⟩ := h _ hp
  simp only [Code.fresh, Bool.and_eq_true, decide_eq_true_eq] at hf
  exact hfree c hf.1.1

theorem update_free {used : Finset ι} (hfree : ∀ c, c ∉ used → s.child c = .notCreated)
    (hc : s.child c ≠ .notCreated) (l : Life (Body α)) (d : ι) (hd : d ∉ used) :
    Function.update s.child c l d = .notCreated := by
  have hdc : d ≠ c := by
    rintro rfl
    exact hc (hfree d hd)
  rw [Function.update_of_ne hdc]
  exact hfree d hd

theorem fresh_child {t : State ι α} (h : Fresh s) (hp : t.parent = s.parent) {l : Life (Body α)}
    (hc : s.child c ≠ .notCreated) (ht : t.child = Function.update s.child c l) : Fresh t := by
  intro code hcode
  obtain ⟨used, hf, hfree⟩ := h code (hp.symm.trans hcode)
  refine ⟨used, hf, ?_⟩
  rw [ht]
  exact update_free hfree hc l

theorem stepChild_child (ok : Bool) (body : Body α) :
    ∃ l, (s.stepChild c ok body).child = Function.update s.child c l := by
  cases body <;> exact ⟨_, rfl⟩

def Body.size : Body α → ℕ
  | .exit _ => 1
  | .act _ next => next.size + 1
  | .exec failed done => failed.size + done.size + 1

def Program.weight (P : Program ι α) (c : ι) : Life (Body α) → ℕ
  | .notCreated => (P.body c).size + 2
  | .running body => body.size + 1
  | .zombie _ | .reaped => 0

theorem stepChild_weight {body : Body α} (hc : s.child c = .running body) (ok : Bool) :
    ∃ l, (s.stepChild c ok body).child = Function.update s.child c l ∧
      P.weight c l < P.weight c (s.child c) := by
  rw [hc]
  cases body with
  | exit n => exact ⟨_, rfl, Nat.succ_pos _⟩
  | act a next => exact ⟨_, rfl, Nat.lt_succ_self _⟩
  | exec failed done =>
    refine ⟨_, rfl, ?_⟩
    cases ok <;> simp only [Program.weight, Body.size, Bool.false_eq_true, if_true, if_false] <;>
      omega

def Program.Wrote (P : Program ι α) (c : ι) (lines : List α) (e : End) : Prop :=
  ∀ n, e = .exited n → (lines, n) ∈ (P.body c).endings

def Program.Known (P : Program ι α) (reports : List (ι × ℕ)) (c : ι) (life : Life (Body α))
    (fate : Option End) (lines : List α) : Prop :=
  match life with
  | .notCreated => fate = none ∧ lines = [] ∧ c ∉ reports.map Prod.fst
  | .running body => fate = none ∧ c ∉ reports.map Prod.fst ∧
    ∀ x ∈ body.endings, (lines ++ x.1, x.2) ∈ (P.body c).endings
  | .zombie status => c ∉ reports.map Prod.fst ∧
    ∃ e, fate = some e ∧ status = e.status ∧ P.Wrote c lines e
  | .reaped => ∃ e, fate = some e ∧ (c, e.status) ∈ reports ∧ P.Wrote c lines e

structure Reported (P : Program ι α) (s : State ι α) : Prop where
  once : (s.reports.map Prod.fst).Nodup
  known : ∀ c, P.Known s.reports c (s.child c) (s.fate c) (s.childLines c)

theorem known_report {reports : List (ι × ℕ)} {life : Life (Body α)} {fate : Option End}
    {lines : List α} {d : ι} (h : P.Known reports d life fate lines) (hd : d ≠ c) (status : ℕ) :
    P.Known (reports ++ [(c, status)]) d life fate lines := by
  have hmem : d ∈ (reports ++ [(c, status)]).map Prod.fst ↔ d ∈ reports.map Prod.fst := by
    simp [hd]
  cases life with
  | notCreated => exact ⟨h.1, h.2.1, hmem.not.mpr h.2.2⟩
  | running body => exact ⟨h.1, hmem.not.mpr h.2.1, h.2.2⟩
  | zombie status => exact ⟨hmem.not.mpr h.1, h.2⟩
  | reaped =>
    obtain ⟨e, he, hr, hw⟩ := h
    exact ⟨e, he, List.mem_append_left _ hr, hw⟩

theorem reported_update {t : State ι α} {l : Life (Body α)} (h : Reported P s)
    (hr : t.reports = s.reports) (hc : t.child = Function.update s.child c l)
    (hf : ∀ d, d ≠ c → t.fate d = s.fate d) (hl : ∀ d, d ≠ c → t.childLines d = s.childLines d)
    (hk : P.Known s.reports c l (t.fate c) (t.childLines c)) : Reported P t := by
  refine ⟨hr ▸ h.once, fun d => ?_⟩
  rw [hr, hc]
  by_cases hd : d = c
  · subst hd
    rwa [Function.update_self]
  · rw [Function.update_of_ne hd, hf d hd, hl d hd]
    exact h.known d

theorem reported_ends {body : Body α} (h : Reported P s) (hc : s.child c = .running body) (e : End)
    (hw : P.Wrote c (s.childLines c) e) : Reported P (s.ends c e) := by
  have hk := h.known c
  rw [hc] at hk
  refine reported_update h rfl rfl (fun d hd => Function.update_of_ne hd _ _) (fun _ _ => rfl) ?_
  exact ⟨hk.2.1, e, Function.update_self _ _ _, rfl, hw⟩

theorem reported_child {body : Body α} (h : Reported P s) (hc : s.child c = .running body)
    (ok : Bool) : Reported P (s.stepChild c ok body) := by
  have hk := h.known c
  rw [hc] at hk
  obtain ⟨hfate, hnot, hlines⟩ := hk
  cases body with
  | exit n =>
    apply reported_ends h hc
    rintro m ⟨⟩
    simpa using hlines ([], n) (List.mem_singleton_self _)
  | act a next =>
    refine reported_update (l := .running next) h rfl rfl (fun _ _ => rfl)
      (fun d hd => Function.update_of_ne hd _ _) ⟨hfate, hnot, ?_⟩
    intro x hx
    have := hlines (a :: x.1, x.2) (List.mem_map_of_mem hx)
    simpa [State.stepChild] using this
  | exec failed done =>
    refine reported_update (l := .running (if ok then done else failed)) h rfl rfl
      (fun _ _ => rfl) (fun _ _ => rfl) ⟨hfate, hnot, ?_⟩
    intro x hx
    apply hlines
    cases ok
    · exact List.mem_append_left _ hx
    · exact List.mem_append_right _ hx

variable [Fintype ι]

def Parent.size : Parent ι α → ℕ
  | .runs code => code.size
  | .exited _ => 0

def Program.rank (P : Program ι α) (s : State ι α) : ℕ :=
  s.parent.size + ∑ c, P.weight c (s.child c)

theorem weight_update (child : ι → Life (Body α)) (c : ι) (l : Life (Body α)) :
    ∑ d, P.weight d (Function.update child c l d) + P.weight c (child c) =
      ∑ d, P.weight d (child d) + P.weight c l := by
  have hx : (fun d => P.weight d (Function.update child c l d)) =
      Function.update (fun d => P.weight d (child d)) c (P.weight c l) := by
    funext d
    by_cases hd : d = c
    · subst hd
      rw [Function.update_self, Function.update_self]
    · rw [Function.update_of_ne hd, Function.update_of_ne hd]
  have hf := Finset.add_sum_erase Finset.univ (fun d => P.weight d (child d)) (Finset.mem_univ c)
  rw [hx, Finset.sum_update_of_mem (Finset.mem_univ c), Finset.sdiff_singleton_eq_erase]
  omega

theorem weight_lt (child : ι → Life (Body α)) (l : Life (Body α))
    (h : P.weight c l < P.weight c (child c)) :
    ∑ d, P.weight d (Function.update child c l d) < ∑ d, P.weight d (child d) := by
  have := weight_update (P := P) child c l
  omega

theorem rank_child {t : State ι α} {l : Life (Body α)} (hp : t.parent = s.parent)
    (ht : t.child = Function.update s.child c l) (hl : P.weight c l < P.weight c (s.child c)) :
    P.rank t < P.rank s := by
  simp only [Program.rank, hp, ht]
  exact Nat.add_lt_add_left (weight_lt _ _ hl) _

theorem rank_parent {t : State ι α} (hp : t.parent.size < s.parent.size)
    (ht : t.child = s.child) : P.rank t < P.rank s := by
  simp only [Program.rank, ht]
  exact Nat.add_lt_add_right hp _

theorem fresh_step (h : Fresh s) (hs : Step P s s') : Fresh s' := by
  cases hs with
  | exits hp =>
    intro code hcode
    cases hcode
  | acts hp =>
    rintro code ⟨⟩
    obtain ⟨used, hf, hfree⟩ := h _ hp
    exact ⟨used, hf, hfree⟩
  | execs hp hn =>
    rintro code ⟨⟩
    obtain ⟨used, hf, hfree⟩ := h _ hp
    simp only [Code.fresh, Bool.and_eq_true] at hf
    refine ⟨used, ?_, hfree⟩
    rcases hn with rfl | rfl
    · exact hf.1
    · exact hf.2
  | @forks c failed next hp =>
    rintro code ⟨⟩
    obtain ⟨used, hf, hfree⟩ := h _ hp
    simp only [Code.fresh, Bool.and_eq_true, decide_eq_true_eq] at hf
    refine ⟨insert c used, hf.2, fun d hd => ?_⟩
    obtain ⟨hdc, hd⟩ := not_or.mp (Finset.mem_insert.not.mp hd)
    exact (Function.update_of_ne hdc _ _).trans (hfree d hd)
  | forkFails hp =>
    rintro code ⟨⟩
    obtain ⟨used, hf, hfree⟩ := h _ hp
    simp only [Code.fresh, Bool.and_eq_true] at hf
    exact ⟨used, hf.1.2, hfree⟩
  | @waits code next r hp hw =>
    intro code' hcode
    obtain ⟨used, hf, hfree⟩ := h _ hp
    have hnext : code' = next := by
      cases r <;> cases hcode <;> rfl
    refine ⟨used, hnext ▸ waited_fresh hw hf, ?_⟩
    cases r with
    | child c status =>
      apply update_free hfree
      rw [waited_zombie hw]
      rintro ⟨⟩
    | failed => exact hfree
    | none => exact hfree
  | child hc =>
    obtain ⟨l, hl⟩ := stepChild_child (s := s) _ _
    refine fresh_child h (stepChild_parent _ _).1 ?_ hl
    rw [hc]
    rintro ⟨⟩
  | kill hc =>
    refine fresh_child h rfl ?_ rfl
    rw [hc]
    rintro ⟨⟩

theorem rank_step (hf : Fresh s) (hs : Step P s s') : P.rank s' < P.rank s := by
  cases hs with
  | exits hp =>
    refine rank_parent ?_ rfl
    rw [hp]
    exact Nat.one_pos
  | acts hp =>
    refine rank_parent ?_ rfl
    rw [hp]
    exact Nat.lt_succ_self _
  | execs hp hn =>
    refine rank_parent ?_ rfl
    rw [hp]
    rcases hn with rfl | rfl <;> simp only [Parent.size, Code.size] <;> omega
  | forks hp =>
    have hnew := hf.fork hp
    have hw := weight_lt (P := P) s.child (.running (P.body _))
      (show P.weight _ (.running (P.body _)) < P.weight _ (s.child _) by
        rw [hnew]
        exact Nat.lt_succ_self _)
    simp only [Program.rank, State.go, hp, Parent.size, Code.size]
    omega
  | forkFails hp =>
    refine rank_parent ?_ rfl
    rw [hp]
    simp only [Parent.size, Code.size]
    omega
  | @waits code next r hp hw =>
    have hsize := waited_size hw
    cases r with
    | child c status =>
      have hsum := weight_update (P := P) s.child c .reaped
      rw [waited_zombie hw] at hsum
      simp only [Program.rank, State.reap, hp, Parent.size]
      simp only [Program.weight] at hsum ⊢
      omega
    | failed =>
      refine rank_parent ?_ rfl
      rw [hp]
      exact hsize
    | none =>
      refine rank_parent ?_ rfl
      rw [hp]
      exact hsize
  | child hc =>
    obtain ⟨l, hl, hlt⟩ := stepChild_weight (P := P) hc _
    exact rank_child (stepChild_parent _ _).1 hl hlt
  | kill hc =>
    refine rank_child rfl rfl ?_
    rw [hc]
    exact Nat.succ_pos _

theorem reported_step (h : Reported P s) (hf : Fresh s) (hs : Step P s s') : Reported P s' := by
  cases hs with
  | exits hp => exact ⟨h.once, h.known⟩
  | acts hp => exact ⟨h.once, h.known⟩
  | execs hp hn => exact ⟨h.once, h.known⟩
  | forkFails hp => exact ⟨h.once, h.known⟩
  | @forks c failed next hp =>
    have hk := h.known c
    rw [hf.fork hp] at hk
    obtain ⟨hfate, hlines, hnot⟩ := hk
    refine reported_update h rfl rfl (fun _ _ => rfl) (fun _ _ => rfl) ⟨hfate, hnot, ?_⟩
    intro x hx
    change (s.childLines c ++ x.1, x.2) ∈ _
    rwa [hlines, List.nil_append]
  | @waits code next r hp hw =>
    cases r with
    | failed => exact ⟨h.once, h.known⟩
    | none => exact ⟨h.once, h.known⟩
    | child c status =>
      have hk := h.known c
      rw [waited_zombie hw] at hk
      obtain ⟨hnot, e, hfate, rfl, hwrote⟩ := hk
      constructor
      · simp only [State.reap, List.map_append, List.map_cons, List.map_nil]
        exact List.Nodup.append h.once (List.nodup_singleton c)
          (List.disjoint_singleton.mpr hnot)
      · intro d
        by_cases hd : d = c
        · subst hd
          simp only [State.reap, Function.update_self]
          exact ⟨e, hfate, List.mem_append_right _ (List.mem_singleton_self _), hwrote⟩
        · simp only [State.reap, Function.update_of_ne hd]
          exact known_report (h.known d) hd _
  | child hc => exact reported_child h hc _
  | @kill c k body hc =>
    apply reported_ends h hc
    rintro n ⟨⟩

variable [DecidableEq α]

theorem fresh_reachable (h : P.system.Reachable s) : Fresh s := by
  apply System.Reachable.induct (I := Fresh) ?_ ?_ h
  · rintro s rfl code ⟨⟩
    exact ⟨∅, P.fresh, fun _ _ => rfl⟩
  · intro s a t _ ih hs
    exact fresh_step ih (step_of_next hs)

theorem child_goes_on (hc : c ∈ unreaped s.child) :
    (∃ status, s.child c = .zombie status) ∨
      (s.child c).ended = false ∧ ∃ t, P.system.StepWhile Any s t := by
  rw [mem_unreaped] at hc
  cases hl : s.child c with
  | notCreated => rw [hl] at hc; cases hc
  | reaped => rw [hl] at hc; cases hc
  | zombie status => exact .inl ⟨status, rfl⟩
  | running body =>
    have hs : P.next s (.child c true) = some (s.stepChild c true body) := by
      simp [Program.next, hl]
    exact .inr ⟨rfl, _, .child c true, trivial, hs⟩

theorem goes_on {code : Code ι α} (hp : s.parent = .runs code) :
    ∃ t, P.system.StepWhile Any s t := by
  have hwait (r : WaitResult ι) (next : Code ι α) (hw : code.waited s.child r = some next) :
      ∃ t, P.system.StepWhile Any s t :=
    ⟨s.reap next r, .wait r, trivial, by simp [Program.system, Program.next, hp, hw]⟩
  cases code with
  | exit n => exact ⟨_, .run, trivial, by simp only [Program.system, Program.next, hp]; rfl⟩
  | act a next => exact ⟨_, .run, trivial, by simp only [Program.system, Program.next, hp]; rfl⟩
  | exec failed done =>
    exact ⟨_, .exec true, trivial, by simp only [Program.system, Program.next, hp]; rfl⟩
  | fork c failed next =>
    exact ⟨_, .fork true, trivial, by simp only [Program.system, Program.next, hp]; rfl⟩
  | wait failed next =>
    by_cases hnone : unreaped s.child = ∅
    · exact hwait .failed failed (by simp [Code.waited, hnone])
    · obtain ⟨c, hc⟩ := Finset.nonempty_iff_ne_empty.mpr hnone
      rcases child_goes_on (P := P) hc with ⟨status, hz⟩ | ⟨_, hstep⟩
      · exact hwait (.child c status) next (by simp [Code.waited, hz])
      · exact hstep
  | waitpid c failed next =>
    by_cases hc : c ∈ unreaped s.child
    · rcases child_goes_on (P := P) hc with ⟨status, hz⟩ | ⟨_, hstep⟩
      · exact hwait (.child c status) next (by simp [Code.waited, hz])
      · exact hstep
    · rw [not_mem_unreaped] at hc
      exact hwait .failed failed (by simp [Code.waited, hc])
  | poll c failed running next =>
    by_cases hc : c ∈ unreaped s.child
    · rcases child_goes_on (P := P) hc with ⟨status, hz⟩ | ⟨hrun, _⟩
      · exact hwait (.child c status) next (by simp [Code.waited, hz])
      · exact hwait .none running
          (by simp [Code.waited, mem_unreaped.mp hc, hrun])
    · rw [not_mem_unreaped] at hc
      exact hwait .failed failed (by simp [Code.waited, hc])

/-- The parent comes to one of its endings however the calls go and whoever is killed. -/
theorem inevitably_ends (h : P.system.Reachable s) :
    P.system.Inevitable Any (fun t => ∃ e ∈ P.code.endings ∅, t.ending = some e) s := by
  apply System.Inevitable.of_measure (I := P.system.Reachable) P.rank ?_ ?_ h
  · intro s hr hn
    cases hp : s.parent with
    | runs code => exact goes_on hp
    | exited status =>
      have hend : s.ending = some ⟨s.lines, status, unreaped s.child⟩ := by
        simp only [State.ending, hp]
      exact absurd ⟨_, (ending_iff _).mp ⟨s, hr, hend⟩, hend⟩ hn
  · rintro s t hr _ ⟨a, _, hs⟩
    exact ⟨hr.step a hs, rank_step (fresh_reachable hr) (step_of_next hs)⟩

def Program.EndsIn (P : Program ι α) (E : Finset (Ending ι α)) : Prop :=
  (∀ e, (∃ s, P.system.Reachable s ∧ s.ending = some e) ↔ e ∈ E) ∧
    ∀ s, P.system.Reachable s → P.system.Inevitable Any (fun t => ∃ e ∈ E, t.ending = some e) s

theorem endsIn_of_endings {E : Finset (Ending ι α)} (hE : P.code.endings ∅ = E) : P.EndsIn E := by
  subst hE
  exact ⟨ending_iff, fun _ hr => inevitably_ends hr⟩

theorem reported_reachable (h : P.system.Reachable s) : Reported P s := by
  apply System.Reachable.induct (I := Reported P) ?_ ?_ h
  · rintro s rfl
    exact ⟨List.nodup_nil, fun c => ⟨rfl, rfl, List.not_mem_nil⟩⟩
  · intro s a t hr ih hs
    exact reported_step ih (fresh_reachable hr) (step_of_next hs)

/-- A wait reports the end of the child, and a child is reported once and only when it is reaped. -/
theorem reports_fate (h : P.system.Reachable s) :
    (s.reports.map Prod.fst).Nodup ∧ ∀ c status, (c, status) ∈ s.reports →
      s.child c = .reaped ∧ ∃ e, s.fate c = some e ∧ status = e.status ∧
        ∀ n, e = .exited n → (s.childLines c, n) ∈ (P.body c).endings := by
  obtain ⟨honce, hknown⟩ := reported_reachable h
  refine ⟨honce, fun c status hmem => ?_⟩
  have hin : c ∈ s.reports.map Prod.fst := List.mem_map_of_mem hmem
  have hk := hknown c
  cases hl : s.child c <;> rw [hl] at hk
  case notCreated => exact absurd hin hk.2.2
  case running => exact absurd hin hk.2.1
  case zombie => exact absurd hin hk.1
  case reaped =>
    obtain ⟨e, he, hr, hw⟩ := hk
    have heq := List.inj_on_of_nodup_map honce hmem hr rfl
    exact ⟨rfl, e, he, congrArg Prod.snd heq, hw⟩

end LinuxSystemProgramming.ForkWait
