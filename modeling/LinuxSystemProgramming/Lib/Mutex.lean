import Mathlib.Logic.Basic

namespace LinuxSystemProgramming.Mutex

variable {τ : Type*}

def acquire (owner : Option τ) (me : τ) : Option (Option τ) :=
  if owner = none then some (some me) else none

def release [DecidableEq τ] (owner : Option τ) (me : τ) : Option (Option τ) :=
  if owner = some me then some none else none

theorem acquire_eq_some {owner owner' : Option τ} {me : τ} :
    acquire owner me = some owner' ↔ owner = none ∧ owner' = some me := by
  simp [acquire, eq_comm]

theorem release_eq_some [DecidableEq τ] {owner owner' : Option τ} {me : τ} :
    release owner me = some owner' ↔ owner = some me ∧ owner' = none := by
  simp [release, eq_comm]

def Guards (owner : Option τ) (inside : τ → Prop) : Prop := ∀ t, inside t ↔ owner = some t

variable {owner : Option τ} {inside inside' : τ → Prop} {me : τ}

theorem Guards.acquire (h : Guards none inside) (hme : inside' me)
    (hother : ∀ t, t ≠ me → (inside' t ↔ inside t)) : Guards (some me) inside' := by
  intro t
  by_cases ht : t = me
  · simp [ht, hme]
  · rw [hother t ht, h t]
    simp [Ne.symm ht]

theorem Guards.release (h : Guards (some me) inside) (hme : ¬ inside' me)
    (hother : ∀ t, t ≠ me → (inside' t ↔ inside t)) : Guards none inside' := by
  intro t
  by_cases ht : t = me
  · simp [ht, hme]
  · rw [hother t ht, h t]
    simp [Ne.symm ht]

theorem Guards.congr (h : Guards owner inside) (hsame : ∀ t, inside' t ↔ inside t) :
    Guards owner inside' := fun t => (hsame t).trans (h t)

theorem Guards.free_or_inside (h : Guards owner inside) : owner = none ∨ ∃ t, inside t := by
  cases ho : owner with
  | none => exact .inl rfl
  | some t => exact .inr ⟨t, (h t).mpr ho⟩

end LinuxSystemProgramming.Mutex
