import LinuxSystemProgramming.Lib.CMemory
import Mathlib.Data.Fintype.Basic
import Mathlib.Logic.Function.Basic

/-!
A pipe: the bytes in it and who has which end open. A `write` of at most `capacity` bytes goes in
whole or waits; without a reader it breaks. A `read` takes some of what is there, waits while the
pipe is empty and a writer is left, and gives the end of file after that.
-/

namespace LinuxSystemProgramming

open CMemory

structure Pipe (π : Type*) where
  data : List Byte
  reads : π → Bool
  writes : π → Bool

namespace Pipe

variable {π : Type*}

def HasReader (q : Pipe π) : Prop := ∃ p, q.reads p = true

def HasWriter (q : Pipe π) : Prop := ∃ p, q.writes p = true

instance [Fintype π] (q : Pipe π) : Decidable q.HasReader :=
  inferInstanceAs (Decidable (∃ p, q.reads p = true))

instance [Fintype π] (q : Pipe π) : Decidable q.HasWriter :=
  inferInstanceAs (Decidable (∃ p, q.writes p = true))

inductive WriteResult (π : Type*)
  | broken
  | waits
  | written (q : Pipe π)

def write [Fintype π] (q : Pipe π) (capacity : ℕ) (m : List Byte) : WriteResult π :=
  if q.HasReader then
    if q.data.length + m.length ≤ capacity then .written { q with data := q.data ++ m } else .waits
  else .broken

-- `k` is how many bytes the kernel gives; no bytes are the end of file.
def read [Fintype π] (q : Pipe π) (n k : ℕ) : Option (List Byte × Pipe π) :=
  if q.data = [] then if q.HasWriter then none else some ([], q)
  else if 0 < k ∧ k ≤ n ∧ k ≤ q.data.length then
    some (q.data.take k, { q with data := q.data.drop k })
  else none

section

variable [DecidableEq π]

def create (p : π) : Pipe π where
  data := []
  reads := fun r => decide (r = p)
  writes := fun r => decide (r = p)

def fork (q : Pipe π) (p c : π) : Pipe π where
  data := q.data
  reads := Function.update q.reads c (q.reads p)
  writes := Function.update q.writes c (q.writes p)

def closeRead (q : Pipe π) (p : π) : Pipe π := { q with reads := Function.update q.reads p false }

def closeWrite (q : Pipe π) (p : π) : Pipe π :=
  { q with writes := Function.update q.writes p false }

def exit (q : Pipe π) (p : π) : Pipe π := (q.closeRead p).closeWrite p

end

variable {q q' : Pipe π} {n k capacity : ℕ} {l m : List Byte}

theorem write_written [Fintype π] (h : q.write capacity m = .written q') :
    q.HasReader ∧ q' = { q with data := q.data ++ m } := by
  unfold write at h
  split_ifs at h with hr hc
  cases h
  exact ⟨hr, rfl⟩

theorem write_broken [Fintype π] : q.write capacity m = .broken ↔ ¬ q.HasReader := by
  unfold write
  split_ifs with hr hc
  · simp [hr]
  · simp [hr]
  · simp [hr]

theorem write_waits [Fintype π] (h : q.write capacity m = .waits) :
    q.HasReader ∧ capacity < q.data.length + m.length := by
  unfold write at h
  split_ifs at h with hr hc
  exact ⟨hr, by omega⟩

theorem read_cases [Fintype π] (h : q.read n k = some (l, q')) :
    (l = [] ∧ q' = q ∧ q.data = [] ∧ ¬ q.HasWriter) ∨
      (l ≠ [] ∧ l.length ≤ n ∧ q.data = l ++ q'.data ∧
        q'.reads = q.reads ∧ q'.writes = q.writes) := by
  unfold read at h
  split_ifs at h with hd hw hk
  · cases h
    exact .inl ⟨rfl, rfl, hd, hw⟩
  · cases h
    refine .inr ⟨?_, ?_, (List.take_append_drop k q.data).symm, rfl, rfl⟩
    · intro hnil
      have := congrArg List.length hnil
      rw [List.length_take_of_le hk.2.2, List.length_nil] at this
      omega
    · rw [List.length_take_of_le hk.2.2]
      exact hk.2.1

theorem read_possible [Fintype π] (hn : 0 < n) (h : q.data ≠ [] ∨ ¬ q.HasWriter) :
    ∃ r, q.read n 1 = some r := by
  unfold read
  by_cases hd : q.data = []
  · rw [if_pos hd, if_neg (h.resolve_left (not_not.mpr hd))]
    exact ⟨_, rfl⟩
  · rw [if_neg hd, if_pos]
    · exact ⟨_, rfl⟩
    · exact ⟨by omega, hn, List.length_pos_iff.mpr hd⟩

end Pipe

end LinuxSystemProgramming
