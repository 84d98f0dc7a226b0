import LinuxSystemProgramming.Lib.Threads
import Mathlib.Data.Fintype.Basic

namespace LinuxSystemProgramming.Threads

open Mutex Transition

variable {τ φ κ ω : Type*}

def Instr.holds : Instr τ φ κ ω → Bool → Bool
  | .lock, _ => true
  | .unlock, _ => false
  | _, b => b

def Program.held (P : Program τ φ κ ω) (t : τ) (i : ℕ) : Bool :=
  ((P.code t).take i).foldl (fun b x => x.holds b) false

structure Plan (τ φ κ : Type*) where
  setter : φ → τ × ℕ
  creator : τ → τ × ℕ
  waiter : κ → τ
  rank : τ → ℕ → ℕ

def Plan.Fits (D : Plan τ φ κ) (P : Program τ φ κ ω) (t : τ) (i : ℕ) : Instr τ φ κ ω → Prop
  | .lock => P.held t i = false
  | .unlock => P.held t i = true
  | .set f => P.held t i = true ∧ D.setter f = (t, i)
  | .signal _ => True
  | .await f c => P.held t i = true ∧ D.waiter c = t ∧
      (P.code (D.setter f).1)[(D.setter f).2 + 1]? = some (.signal c) ∧
      D.rank (D.setter f).1 (D.setter f).2 < D.rank t i
  | .create u => P.held t i = false ∧ u ≠ P.main ∧ D.creator u = (t, i) ∧ D.rank t i < D.rank u 0
  | .join u => P.held t i = false ∧ D.rank u ((P.code u).length - 1) < D.rank t i
  | .act _ => True

structure Discipline (P : Program τ φ κ ω) extends Plan τ φ κ where
  fits : ∀ t, ∀ i : Fin (P.code t).length, toPlan.Fits P t i ((P.code t).get i)
  sets : ∀ f, (P.code (setter f).1)[(setter f).2]? = some (.set f)
  births : ∀ t, t ≠ P.main → (P.code (creator t).1)[(creator t).2]? = some (.create t)
  grows : ∀ t, ∀ i < (P.code t).length - 1, rank t i < rank t (i + 1)
  releases : ∀ t, P.held t (P.code t).length = false
  nonempty : ∀ t, P.code t ≠ []

instance [DecidableEq τ] [DecidableEq φ] [DecidableEq κ] [DecidableEq ω] (D : Plan τ φ κ)
    (P : Program τ φ κ ω) (t : τ) (i : ℕ) (x : Instr τ φ κ ω) : Decidable (D.Fits P t i x) :=
  match x with
  | .lock => inferInstanceAs (Decidable (_ = _))
  | .unlock => inferInstanceAs (Decidable (_ = _))
  | .set _ => inferInstanceAs (Decidable (_ ∧ _))
  | .signal _ => inferInstanceAs (Decidable True)
  | .await _ _ => inferInstanceAs (Decidable (_ ∧ _ ∧ _ ∧ _))
  | .create _ => inferInstanceAs (Decidable (_ ∧ _ ∧ _ ∧ _))
  | .join _ => inferInstanceAs (Decidable (_ ∧ _))
  | .act _ => inferInstanceAs (Decidable True)

variable {P : Program τ φ κ ω} {s s' : State τ φ} {t u : τ} {i : ℕ} {x : Instr τ φ κ ω}

theorem Discipline.fit (D : Discipline P) (h : (P.code t)[i]? = some x) :
    D.toPlan.Fits P t i x := by
  obtain ⟨hi, rfl⟩ := List.getElem?_eq_some_iff.mp h
  exact D.fits t ⟨i, hi⟩

theorem Program.held_succ (h : (P.code t)[i]? = some x) :
    P.held t (i + 1) = x.holds (P.held t i) := by
  simp [Program.held, List.take_add_one, h]

theorem instr_congr (hp : s'.pc t = s.pc t) : P.instr s' t = P.instr s t := by
  simp [Program.instr, hp]

theorem pc_lt (hx : P.instr s t = some x) : s.pc t < (P.code t).length :=
  (List.getElem?_eq_some_iff.mp hx).1

def WellPlaced (P : Program τ φ κ ω) (s : State τ φ) (t : τ) : Prop :=
  match s.mode t with
  | .unborn => s.pc t = 0
  | .ready => s.pc t ≤ (P.code t).length
  | .tested | .waiting | .woken => ∃ f c, P.instr s t = some (.await f c)

theorem WellPlaced.of_unborn (h : WellPlaced P s t) (hm : s.mode t = .unborn) : s.pc t = 0 := by
  simpa [WellPlaced, hm] using h

theorem WellPlaced.awaits (h : WellPlaced P s t)
    (hm : s.mode t = .tested ∨ s.mode t = .waiting ∨ s.mode t = .woken) :
    ∃ f c, P.instr s t = some (.await f c) := by
  rcases hm with hm | hm | hm <;> simpa [WellPlaced, hm] using h

theorem WellPlaced.pc_le (h : WellPlaced P s t) : s.pc t ≤ (P.code t).length := by
  cases hm : s.mode t with
  | unborn => rw [h.of_unborn hm]; omega
  | ready => simpa [WellPlaced, hm] using h
  | tested =>
    obtain ⟨f, c, hx⟩ := h.awaits (.inl hm)
    exact (pc_lt hx).le
  | waiting =>
    obtain ⟨f, c, hx⟩ := h.awaits (.inr (.inl hm))
    exact (pc_lt hx).le
  | woken =>
    obtain ⟨f, c, hx⟩ := h.awaits (.inr (.inr hm))
    exact (pc_lt hx).le

def Program.Inside (P : Program τ φ κ ω) (s : State τ φ) (t : τ) : Prop :=
  (s.mode t = .ready ∨ s.mode t = .tested) ∧ P.held t (s.pc t) = true

theorem inside_congr (hm : s'.mode t = s.mode t) (hp : s'.pc t = s.pc t) :
    P.Inside s' t ↔ P.Inside s t := by
  simp [Program.Inside, hm, hp]

variable {a : Action τ}

theorem Move.wellPlaced (h : Move P s a s' t) (hw : WellPlaced P s t) : WellPlaced P s' t := by
  cases h with
  | stay hm hp => simpa [WellPlaced, hm, hp, instr_congr hp] using hw
  | pass ha hx hm hm' hp =>
    have := pc_lt hx
    simp only [WellPlaced, hm', hp]
    omega
  | test ha hx hf hm hm' hp =>
    simp only [WellPlaced, hm', instr_congr hp]
    exact ⟨_, _, hx⟩
  | wait ha hx hm hm' hp =>
    simp only [WellPlaced, hm', instr_congr hp]
    exact ⟨_, _, hx⟩
  | wake ha hm hm' hp =>
    simp only [WellPlaced, hm', instr_congr hp]
    exact hw.awaits (.inr (.inl hm))
  | relock ha hx hm hm' hp =>
    simp only [WellPlaced, hm', hp]
    exact hw.pc_le
  | birth ha hx hm hm' hp =>
    simp only [WellPlaced, hm', hp]
    exact hw.pc_le

theorem Move.inside_other (h : Move P s a s' t) (ha : a ≠ .run t) (hw : WellPlaced P s t) :
    P.Inside s' t ↔ P.Inside s t := by
  cases h with
  | stay hm hp => exact inside_congr hm hp
  | wake ha hm hm' hp => simp [Program.Inside, hm, hm']
  | birth _ hx hm hm' hp =>
    simp [Program.Inside, hm, hp, hw.of_unborn hm, Program.held]
  | pass h => exact absurd h ha
  | test h => exact absurd h ha
  | wait h => exact absurd h ha
  | relock h => exact absurd h ha

theorem inside_pass (hm : s'.mode t = .ready) (hp : s'.pc t = s.pc t + 1)
    (hx : P.instr s t = some x) : P.Inside s' t ↔ x.holds (P.held t (s.pc t)) = true := by
  simp [Program.Inside, hm, hp, Program.held_succ hx]

section

variable [DecidableEq τ] [DecidableEq φ] [DecidableEq κ]

theorem wellPlaced_reachable (h : P.system.Reachable s) (t : τ) : WellPlaced P s t := by
  apply System.Reachable.induct (I := fun s => ∀ t, WellPlaced P s t) ?_ ?_ h t
  · rintro s rfl t
    by_cases ht : t = P.main
    · simp [WellPlaced, Program.initial, ht]
    · simp [WellPlaced, Program.initial, ht]
  · intro s a s' _ ih hs t
    exact ((next_iff.mp hs).2.move t).wellPlaced (ih t)

theorem Guards.quiet (h : Guards s.owner (P.Inside s)) (hstep : Step P s (.run t) s')
    (hw : ∀ u, WellPlaced P s u) (ho : s'.owner = s.owner) (hm : s.mode t = .ready)
    (hm' : s'.mode t = .ready) (hp : s'.pc t = s.pc t + 1) (hx : P.instr s t = some x)
    (hq : x.holds (P.held t (s.pc t)) = P.held t (s.pc t)) : Guards s'.owner (P.Inside s') := by
  rw [ho]
  apply h.congr
  intro u
  by_cases hu : u = t
  · subst hu
    rw [inside_pass hm' hp hx, hq]
    simp [Program.Inside, hm]
  · exact (hstep.move u).inside_other (by simp [Ne.symm hu]) (hw u)

theorem Discipline.guards (D : Discipline P) (h : P.system.Reachable s) :
    Guards s.owner (P.Inside s) := by
  apply System.Reachable.induct (I := fun s => Guards s.owner (P.Inside s)) ?_ ?_ h
  · rintro s rfl t
    simp [Program.Inside, Program.initial, Program.held]
  · intro s a s' hr ih hs
    have hstep := (next_iff.mp hs).2
    have hw := wellPlaced_reachable hr
    have hother : ∀ u, a ≠ .run u → (P.Inside s' u ↔ P.Inside s u) :=
      fun u hu => (hstep.move u).inside_other hu (hw u)
    cases hstep with
    | lock hm hx ho =>
      rw [ho] at ih
      apply ih.acquire
      · refine (inside_pass ?_ ?_ hx).mpr rfl
        · exact hm
        · simp
      · intro u hu
        exact hother u (by simp [Ne.symm hu])
    | unlock hm hx ho =>
      rw [ho] at ih
      apply ih.release
      · intro hin
        have := (inside_pass (by exact hm) (by simp) hx).mp hin
        simp [Instr.holds] at this
      · intro u hu
        exact hother u (by simp [Ne.symm hu])
    | wait hm hx ho =>
      rw [ho] at ih
      apply ih.release
      · simp [Program.Inside]
      · intro u hu
        exact hother u (by simp [Ne.symm hu])
    | relock hm hx ho =>
      rw [ho] at ih
      apply ih.acquire
      · simpa [Program.Inside] using (D.fit hx).1
      · intro u hu
        exact hother u (by simp [Ne.symm hu])
    | set hm hx => exact Guards.quiet ih (.set hm hx) hw rfl hm hm (by simp) hx rfl
    | signal hm hx =>
      refine Guards.quiet ih (.signal hm hx) hw rfl hm ?_ (by simp) hx rfl
      simp [Program.wake, waitsOn_iff, hm]
    | pass hm hx hf => exact Guards.quiet ih (.pass hm hx hf) hw rfl hm hm (by simp) hx rfl
    | create hm hx hu =>
      refine Guards.quiet ih (.create hm hx hu) hw rfl hm ?_ (by simp) hx rfl
      rw [State.advance_mode, State.setMode_mode_of_ne, hm]
      rintro rfl
      rw [hm] at hu
      cases hu
    | join hm hx hu => exact Guards.quiet ih (.join hm hx hu) hw rfl hm hm (by simp) hx rfl
    | act hm hx => exact Guards.quiet ih (.act hm hx) hw rfl hm hm (by simp) hx rfl
    | @test t f c hm hx hf =>
      apply ih.congr
      intro u
      by_cases hu : u = t
      · subst hu
        simp [Program.Inside, hm]
      · exact hother u (by simp [Ne.symm hu])
    | @spurious t hm => exact ih.congr (fun u => hother u (by simp))
    | fail hf => exact ih

end

end LinuxSystemProgramming.Threads
