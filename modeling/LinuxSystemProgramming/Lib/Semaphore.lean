import Mathlib.Data.Nat.Basic

namespace LinuxSystemProgramming.Semaphores

structure Semaphore where
  value : ℕ
  initialised : Bool
  destroyed : Bool
  deriving DecidableEq

namespace Semaphore

def zero : Semaphore := ⟨0, false, false⟩

def init (value : ℕ) : Semaphore := ⟨value, true, false⟩

def post (s : Semaphore) : Semaphore := { s with value := s.value + 1 }

def wait (s : Semaphore) : Option Semaphore :=
  if 0 < s.value then some { s with value := s.value - 1 } else none

def destroy (s : Semaphore) : Semaphore := { s with destroyed := true }

def Live (s : Semaphore) : Prop := s.initialised = true ∧ s.destroyed = false

instance (s : Semaphore) : Decidable s.Live := inferInstanceAs (Decidable (_ ∧ _))

theorem wait_eq_some {s t : Semaphore} :
    s.wait = some t ↔ 0 < s.value ∧ t = { s with value := s.value - 1 } := by
  simp only [wait, Option.ite_none_right_eq_some, Option.some.injEq, @eq_comm _ t]

theorem live_init (value : ℕ) : (init value).Live := ⟨rfl, rfl⟩

theorem Live.post {s : Semaphore} (h : s.Live) : s.post.Live := h

theorem Live.wait {s t : Semaphore} (h : s.Live) (hw : s.wait = some t) : t.Live := by
  obtain ⟨-, rfl⟩ := wait_eq_some.mp hw
  exact h

def Balance (s : Semaphore) (posts waits : ℕ) : Prop := waits + s.value = posts

theorem Balance.post {s : Semaphore} {posts waits : ℕ} (h : s.Balance posts waits) :
    s.post.Balance (posts + 1) waits := by
  change waits + (s.value + 1) = posts + 1
  rw [← h, Nat.add_assoc]

theorem Balance.wait {s t : Semaphore} {posts waits : ℕ} (h : s.Balance posts waits)
    (hw : s.wait = some t) : t.Balance posts (waits + 1) := by
  obtain ⟨hv, rfl⟩ := wait_eq_some.mp hw
  simp only [Balance] at *
  omega

theorem Balance.waits_le {s : Semaphore} {posts waits : ℕ} (h : s.Balance posts waits) :
    waits ≤ posts := Nat.le.intro h

theorem Balance.waits_lt {s t : Semaphore} {posts waits : ℕ} (h : s.Balance posts waits)
    (hw : s.wait = some t) : waits < posts := (h.wait hw).waits_le

def Conserves (s : Semaphore) (holders units : ℕ) : Prop := s.value + holders = units

theorem Conserves.wait {s t : Semaphore} {holders units : ℕ} (h : s.Conserves holders units)
    (hw : s.wait = some t) : t.Conserves (holders + 1) units := by
  obtain ⟨hv, rfl⟩ := wait_eq_some.mp hw
  simp only [Conserves] at *
  omega

theorem Conserves.post {s : Semaphore} {holders holders' units : ℕ} (h : s.Conserves holders units)
    (hl : holders' + 1 = holders) : s.post.Conserves holders' units := by
  change s.value + 1 + holders' = units
  have hs : s.value + holders = units := h
  omega

theorem Conserves.holders_le {s : Semaphore} {holders units : ℕ} (h : s.Conserves holders units) :
    holders ≤ units := Nat.le.intro ((Nat.add_comm holders s.value).trans h)

end Semaphore

end LinuxSystemProgramming.Semaphores
