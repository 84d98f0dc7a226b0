import Mathlib.Data.Finset.Card
import Mathlib.Data.Fintype.Basic

/-!
The children of a process, as `fork` and `waitpid` see them. A child that has ended is a zombie with
its wait status until it is reaped; `π` is what a running child is doing.
-/

namespace LinuxSystemProgramming.Children

inductive Life (π : Type*)
  | notCreated
  | running (p : π)
  | zombie (status : ℕ)
  | reaped
  deriving DecidableEq

def Life.unreaped {π : Type*} : Life π → Bool
  | .running _ | .zombie _ => true
  | .notCreated | .reaped => false

def Life.ended {π : Type*} : Life π → Bool
  | .zombie _ => true
  | _ => false

variable {ι π : Type*} [Fintype ι]

def unreaped (child : ι → Life π) : Finset ι := Finset.univ.filter (fun c => (child c).unreaped = true)

def zombies (child : ι → Life π) : Finset ι := Finset.univ.filter (fun c => (child c).ended = true)

inductive WaitResult (ι : Type*)
  | failed
  | none
  | child (c : ι) (status : ℕ)
  deriving DecidableEq

def Waits (child : ι → Life π) : WaitResult ι → Prop
  | .failed => unreaped child = ∅
  | .none => unreaped child ≠ ∅ ∧ zombies child = ∅
  | .child c status => child c = .zombie status

instance [DecidableEq ι] [DecidableEq π] (child : ι → Life π) (r : WaitResult ι) :
    Decidable (Waits child r) :=
  match r with
  | .failed => inferInstanceAs (Decidable (unreaped child = ∅))
  | .none => inferInstanceAs (Decidable (unreaped child ≠ ∅ ∧ zombies child = ∅))
  | .child c status => inferInstanceAs (Decidable (child c = .zombie status))

variable {child : ι → Life π} {c : ι} {p : π} {status : ℕ}

theorem mem_unreaped : c ∈ unreaped child ↔ (child c).unreaped = true := by
  rw [unreaped, Finset.mem_filter]
  exact and_iff_right (Finset.mem_univ c)

theorem not_mem_unreaped : c ∉ unreaped child ↔ (child c).unreaped = false := by
  rw [mem_unreaped, Bool.not_eq_true]

theorem unreaped_none (h : ∀ c, child c = .notCreated) : unreaped child = ∅ := by
  ext d
  rw [mem_unreaped, h]
  exact iff_of_false Bool.false_ne_true (Finset.notMem_empty d)

theorem all_reaped (h : (unreaped child).card = 0) (c : ι) :
    child c = .notCreated ∨ child c = .reaped := by
  have hc : c ∉ unreaped child := by
    rw [Finset.card_eq_zero.mp h]
    exact Finset.notMem_empty c
  rw [mem_unreaped] at hc
  cases hl : child c with
  | notCreated => exact .inl rfl
  | reaped => exact .inr rfl
  | running p => exact absurd (by rw [hl]; rfl) hc
  | zombie status => exact absurd (by rw [hl]; rfl) hc

variable [DecidableEq ι]

theorem unreaped_insert :
    unreaped (Function.update child c (.running p)) = insert c (unreaped child) := by
  ext d
  rw [mem_unreaped, Finset.mem_insert, mem_unreaped]
  by_cases hd : d = c
  · subst hd
    rw [Function.update_self]
    exact iff_of_true rfl (.inl rfl)
  · rw [Function.update_of_ne hd]
    exact (or_iff_right hd).symm

theorem unreaped_erase : unreaped (Function.update child c .reaped) = (unreaped child).erase c := by
  ext d
  rw [mem_unreaped, Finset.mem_erase, mem_unreaped]
  by_cases hd : d = c
  · subst hd
    rw [Function.update_self]
    exact iff_of_false Bool.false_ne_true (fun h => h.1 rfl)
  · rw [Function.update_of_ne hd]
    exact (and_iff_right hd).symm

theorem unreaped_create (h : child c = .notCreated) :
    (unreaped (Function.update child c (.running p))).card = (unreaped child).card + 1 := by
  have hnew : c ∉ unreaped child := by
    rw [mem_unreaped, h]
    exact Bool.false_ne_true
  rw [unreaped_insert, Finset.card_insert_of_notMem hnew]

theorem unreaped_end (h : child c = .running p) :
    unreaped (Function.update child c (.zombie status)) = unreaped child := by
  ext d
  rw [mem_unreaped, mem_unreaped]
  by_cases hd : d = c
  · subst hd
    rw [Function.update_self, h]
    exact Iff.rfl
  · rw [Function.update_of_ne hd]

theorem unreaped_reap (h : child c = .zombie status) :
    (unreaped (Function.update child c .reaped)).card + 1 = (unreaped child).card := by
  have hmem : c ∈ unreaped child := by
    rw [mem_unreaped, h]
    rfl
  rw [unreaped_erase, Finset.card_erase_add_one hmem]

end LinuxSystemProgramming.Children
