import Mathlib.Algebra.Group.Fin.Basic
import Mathlib.Data.Nat.ModEq
import Mathlib.Logic.Function.Basic

namespace LinuxSystemProgramming.RingBuffer

variable {α : Type*} {n : ℕ}

structure Ring (α : Type*) (n : ℕ) where
  slots : Fin (n + 1) → α
  head : Fin (n + 1)
  tail : Fin (n + 1)

def Segment (slots : Fin (n + 1) → α) : Fin (n + 1) → List α → Fin (n + 1) → Prop
  | i, [], j => i = j
  | i, x :: xs, j => i ≠ j ∧ slots i = x ∧ Segment slots (i + 1) xs j

theorem succ_val_add (i : Fin (n + 1)) (k : ℕ) :
    ((i + 1).val + k) % (n + 1) = (i.val + (k + 1)) % (n + 1) := by
  have hi : (i + 1).val ≡ i.val + 1 [MOD n + 1] := by
    simp [Nat.ModEq, Fin.val_add]
  have hk := hi.add_right k
  rwa [add_assoc, add_comm 1] at hk

theorem Segment.slot {slots : Fin (n + 1) → α} {i j : Fin (n + 1)} {xs : List α}
    (h : Segment slots i xs j) {k : ℕ} (hk : k < xs.length) :
    slots ⟨(i.val + k) % (n + 1), Nat.mod_lt _ n.succ_pos⟩ = xs[k] := by
  induction xs generalizing i k with
  | nil => cases hk
  | cons x xs ih =>
    obtain ⟨-, hx, hs⟩ := h
    cases k with
    | zero =>
      simp only [add_zero, Nat.mod_eq_of_lt i.isLt]
      exact hx
    | succ k =>
      have hslot := ih hs (Nat.lt_of_succ_lt_succ hk)
      simp only [succ_val_add] at hslot
      exact hslot

theorem Segment.length_eq {slots : Fin (n + 1) → α} {i j : Fin (n + 1)} {xs : List α}
    (h : Segment slots i xs j) : xs.length = (j - i).val := by
  induction xs generalizing i with
  | nil =>
    obtain rfl := h
    simp
  | cons x xs ih =>
    obtain ⟨hne, -, hs⟩ := h
    have hsub : j - i = j - (i + 1) + 1 := by rw [sub_add_eq_sub_sub, sub_add_cancel]
    have hlast : j - (i + 1) ≠ Fin.last n := by
      intro he
      apply hne
      have hzero := hsub.trans (congrArg (· + 1) he)
      rw [Fin.last_add_one] at hzero
      exact (sub_eq_zero.mp hzero).symm
    rw [List.length_cons, ih hs, hsub, Fin.val_add_one, if_neg hlast]

theorem Segment.append {slots : Fin (n + 1) → α} {i j : Fin (n + 1)} {xs : List α} (x : α)
    (h : Segment slots i xs j) (hj : j + 1 ≠ i) :
    Segment (Function.update slots j x) i (xs ++ [x]) (j + 1) := by
  induction xs generalizing i with
  | nil =>
    obtain rfl := h
    exact ⟨hj.symm, Function.update_self _ _ _, rfl⟩
  | cons y ys ih =>
    obtain ⟨hi, hy, hs⟩ := h
    refine ⟨hj.symm, ?_, ih hs ?_⟩
    · rwa [Function.update_of_ne hi]
    · intro he
      exact hi (add_right_cancel he).symm

namespace Ring

def empty (a : α) : Ring α n := ⟨fun _ => a, 0, 0⟩

def push (r : Ring α n) (x : α) : Option (Ring α n) :=
  if r.tail + 1 = r.head then none
  else some { r with slots := Function.update r.slots r.tail x, tail := r.tail + 1 }

def pop (r : Ring α n) : Option (α × Ring α n) :=
  if r.head = r.tail then none else some (r.slots r.head, { r with head := r.head + 1 })

def Holds (r : Ring α n) (xs : List α) : Prop := Segment r.slots r.head xs r.tail

theorem Holds.nil_iff {r : Ring α n} {xs : List α} (h : r.Holds xs) :
    r.head = r.tail ↔ xs = [] := by
  cases xs with
  | nil => exact ⟨fun _ => rfl, fun _ => h⟩
  | cons x xs => exact ⟨fun he => absurd he h.1, fun he => by cases he⟩

theorem Holds.push {r r' : Ring α n} {xs : List α} {x : α} (h : r.Holds xs)
    (hp : r.push x = some r') : r'.Holds (xs ++ [x]) := by
  obtain ⟨hne, he⟩ := Option.ite_none_left_eq_some.mp hp
  obtain rfl := Option.some.inj he
  exact Segment.append x h hne

theorem Holds.length_le {r : Ring α n} {xs : List α} (h : r.Holds xs) : xs.length ≤ n := by
  have hlt := (r.tail - r.head).isLt
  rw [← Segment.length_eq h] at hlt
  exact Nat.le_of_lt_succ hlt

theorem push_none_iff {r : Ring α n} {x : α} : r.push x = none ↔ r.tail + 1 = r.head := by
  simp [Ring.push]

theorem Holds.full_iff {r : Ring α n} {xs : List α} {x : α} (h : r.Holds xs) :
    r.push x = none ↔ xs.length = n := by
  have hlast : r.tail + 1 = r.head ↔ r.tail - r.head = Fin.last n := by
    rw [← add_right_cancel_iff (a := (1 : Fin (n + 1))) (b := r.tail - r.head), Fin.last_add_one,
      sub_add_eq_add_sub, sub_eq_zero]
  rw [push_none_iff, hlast, Fin.ext_iff, ← Segment.length_eq h, Fin.val_last]

theorem Holds.full {r : Ring α n} {xs : List α} {x : α} (h : r.Holds xs)
    (hp : r.push x = none) : n ≤ xs.length := (h.full_iff.mp hp).ge

theorem Holds.pop {r r' : Ring α n} {xs : List α} {x : α} (h : r.Holds xs)
    (hp : r.pop = some (x, r')) : ∃ ys, xs = x :: ys ∧ r'.Holds ys := by
  obtain ⟨hne, he⟩ := Option.ite_none_left_eq_some.mp hp
  obtain ⟨rfl, rfl⟩ := Prod.mk.inj (Option.some.inj he)
  cases xs with
  | nil => exact absurd h hne
  | cons y ys =>
    obtain ⟨-, rfl, hs⟩ := h
    exact ⟨ys, rfl, hs⟩

end Ring

end LinuxSystemProgramming.RingBuffer
