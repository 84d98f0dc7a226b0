import LinuxSystemProgramming.Lib.Transition
import Mathlib.Order.OrderIsoNat

namespace LinuxSystemProgramming.Transition.System

variable {σ α : Type*} {M : System σ α}

structure Endless (M : System σ α) where
  state : ℕ → σ
  action : ℕ → α
  next : ∀ n, M.next (state n) (action n) = some (state (n + 1))

def Endless.Starves (r : M.Endless) (a : α) : Prop :=
  ∃ n, ∀ m, n ≤ m → (M.next (r.state m) a).isSome = true ∧ r.action m ≠ a

variable {r : M.Endless}

theorem Endless.reachable (h : M.Reachable (r.state 0)) (n : ℕ) : M.Reachable (r.state n) := by
  induction n with
  | zero => exact h
  | succ n ih => exact ih.step (r.action n) (r.next n)

/-- Only finitely many steps lower a measure that no step raises. -/
theorem Endless.settles (μ : σ → ℕ) {idle : ℕ → Prop}
    (h : ∀ n, μ (r.state (n + 1)) < μ (r.state n) ∨
      idle n ∧ μ (r.state (n + 1)) = μ (r.state n)) : ∃ n, ∀ m, n ≤ m → idle m := by
  have hle : Antitone (fun n => μ (r.state n)) := by
    apply antitone_nat_of_succ_le
    intro n
    rcases h n with hlt | ⟨-, heq⟩
    · exact hlt.le
    · exact heq.le
  obtain ⟨n, hn⟩ := WellFoundedLT.antitone_chain_condition hle
  refine ⟨n, fun m hm => ?_⟩
  rcases h m with hlt | ⟨hidle, -⟩
  · have hm' := hn m hm
    have hsucc := hn (m + 1) (by omega)
    omega
  · exact hidle

theorem Endless.not_always_lower (r : M.Endless) (μ : σ → ℕ) (n : ℕ) :
    ∃ m, n ≤ m ∧ ¬ μ (r.state (m + 1)) < μ (r.state m) := by
  obtain ⟨k, hk⟩ := WellFounded.not_rel_apply_succ (r := (· < ·)) (fun m => μ (r.state (n + m)))
  exact ⟨n + k, Nat.le_add_right n k, hk⟩

end LinuxSystemProgramming.Transition.System
