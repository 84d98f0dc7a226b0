import Mathlib.Logic.Function.Basic
import Mathlib.Order.Basic

namespace LinuxSystemProgramming.Signals

variable {σ : Type*}

def mask [DecidableEq σ] (xs : List σ) (x : σ) : Bool := decide (x ∈ xs)

structure SigState (σ : Type*) where
  blocked : σ → Bool
  pending : σ → Bool
  handled : σ → Bool
  saved : σ → Bool

namespace SigState

def initial : SigState σ where
  blocked _ := false
  pending _ := false
  handled _ := false
  saved _ := false

def block (p : SigState σ) (m : σ → Bool) : SigState σ :=
  { p with blocked := fun x => p.blocked x || m x }

def fork (p : SigState σ) : SigState σ := { p with pending := fun _ => false }

def exec (p : SigState σ) : SigState σ := { p with handled := fun _ => false }

def suspend (p : SigState σ) (m : σ → Bool) : SigState σ := { p with blocked := m, saved := p.blocked }

def resume (p : SigState σ) : SigState σ := { p with blocked := p.saved }

def deliverable (p : SigState σ) (x : σ) : Bool := p.pending x && !p.blocked x

theorem deliverable_iff {p : SigState σ} {x : σ} :
    p.deliverable x = true ↔ p.pending x = true ∧ p.blocked x = false := by
  simp [deliverable]

variable [DecidableEq σ]

def handle (p : SigState σ) (x : σ) : SigState σ :=
  { p with handled := Function.update p.handled x true }

def send (p : SigState σ) (x : σ) : SigState σ :=
  { p with pending := Function.update p.pending x true }

def take (p : SigState σ) (x : σ) : SigState σ :=
  { p with pending := Function.update p.pending x false }

@[simp] theorem send_self (p : SigState σ) (x : σ) : (p.send x).pending x = true :=
  Function.update_self _ _ _

theorem send_other (p : SigState σ) {x y : σ} (h : y ≠ x) :
    (p.send x).pending y = p.pending y := Function.update_of_ne h _ _

theorem take_other (p : SigState σ) {x y : σ} (h : y ≠ x) :
    (p.take x).pending y = p.pending y := Function.update_of_ne h _ _

theorem send_mono (p : SigState σ) (x y : σ) (h : p.pending y = true) :
    (p.send x).pending y = true := by
  by_cases hy : y = x
  · rw [hy, send_self]
  · rw [send_other p hy, h]

theorem send_pending {p : SigState σ} {x y : σ} (h : (p.send x).pending y = true) :
    y = x ∨ p.pending y = true := by
  by_cases hy : y = x
  · exact .inl hy
  · rw [send_other p hy] at h
    exact .inr h

theorem take_pending {p : SigState σ} {x y : σ} (h : (p.take x).pending y = true) :
    y ≠ x ∧ p.pending y = true := by
  by_cases hy : y = x
  · have hx : (p.take x).pending x = false := Function.update_self _ _ _
    rw [hy, hx] at h
    cases h
  · rw [take_other p hy] at h
    exact ⟨hy, h⟩

theorem handle_self (p : SigState σ) (x : σ) : (p.handle x).handled x = true :=
  Function.update_self _ _ _

theorem handle_mono (p : SigState σ) (x y : σ) (h : p.handled y = true) :
    (p.handle x).handled y = true := by
  by_cases hy : y = x
  · rw [hy, handle_self]
  · exact (Function.update_of_ne hy _ _).trans h

end SigState

structure Closed (A : σ → Prop) (p : SigState σ) : Prop where
  pending : ∀ x, p.pending x = true → A x
  blocked : ∀ x, A x → p.blocked x = true

structure Armed (A : σ → Prop) (p : SigState σ) : Prop extends Closed A p where
  handled : ∀ x, A x → p.handled x = true

structure Waiting (A : σ → Prop) (p : SigState σ) : Prop where
  pending : ∀ x, p.pending x = true → A x
  unblocked : ∀ x, A x → p.blocked x = false
  handled : ∀ x, A x → p.handled x = true
  saved : ∀ x, A x → p.saved x = true

variable {A B : σ → Prop} {p : SigState σ}

namespace Closed

theorem not_deliverable (h : Closed A p) (x : σ) : p.deliverable x = false := by
  apply Bool.eq_false_iff.mpr
  intro hd
  obtain ⟨hp, hb⟩ := SigState.deliverable_iff.mp hd
  cases hb.symm.trans (h.blocked x (h.pending x hp))

theorem of_block {m : σ → Bool} (hp : ∀ x, p.pending x = true → A x)
    (hm : ∀ x, A x → m x = true) : Closed A (p.block m) := by
  constructor
  · exact hp
  · intro x hx
    change (p.blocked x || m x) = true
    rw [hm x hx, Bool.or_true]

theorem block (h : Closed A p) (m : σ → Bool) : Closed A (p.block m) := by
  constructor
  · exact h.pending
  · intro x hx
    change (p.blocked x || m x) = true
    rw [h.blocked x hx, Bool.true_or]

theorem exec (h : Closed A p) : Closed A p.exec := ⟨h.pending, h.blocked⟩

theorem fork (h : Closed A p) (hBA : ∀ x, B x → A x) : Closed B p.fork := by
  constructor
  · intro x hx
    cases hx
  · intro x hx
    exact h.blocked x (hBA x hx)

variable [DecidableEq σ]

theorem handle (h : Closed A p) (x : σ) : Closed A (p.handle x) := ⟨h.pending, h.blocked⟩

theorem send (h : Closed A p) {x : σ} (hx : A x) : Closed A (p.send x) := by
  constructor
  · intro y hy
    rcases SigState.send_pending hy with rfl | hp
    · exact hx
    · exact h.pending y hp
  · exact h.blocked

end Closed

namespace Armed

theorem suspend (h : Armed A p) {m : σ → Bool} (hm : ∀ x, A x → m x = false) :
    Waiting A (p.suspend m) := ⟨h.pending, hm, h.handled, h.blocked⟩

theorem send [DecidableEq σ] (h : Armed A p) {x : σ} (hx : A x) : Armed A (p.send x) :=
  ⟨h.toClosed.send hx, h.handled⟩

end Armed

namespace Waiting

theorem deliver (h : Waiting A p) {x : σ} (hd : p.deliverable x = true) : p.handled x = true :=
  h.handled x (h.pending x (SigState.deliverable_iff.mp hd).1)

theorem deliverable (h : Waiting A p) {x : σ} (hx : p.pending x = true) :
    p.deliverable x = true := by
  apply SigState.deliverable_iff.mpr
  exact ⟨hx, h.unblocked x (h.pending x hx)⟩

theorem resume (h : Waiting A p) : Armed A p.resume := ⟨⟨h.pending, h.saved⟩, h.handled⟩

variable [DecidableEq σ]

theorem send (h : Waiting A p) {x : σ} (hx : A x) : Waiting A (p.send x) := by
  refine ⟨?_, h.unblocked, h.handled, h.saved⟩
  intro y hy
  rcases SigState.send_pending hy with rfl | hp
  · exact hx
  · exact h.pending y hp

theorem take (h : Waiting A p) (x : σ) : Waiting A (p.take x) :=
  ⟨fun y hy => h.pending y (SigState.take_pending hy).2, h.unblocked, h.handled, h.saved⟩

end Waiting

def Arrived (p : SigState σ) (x : σ) (flag : Bool) : Prop := flag = true ∨ p.pending x = true

namespace Arrived

variable [DecidableEq σ] {x y : σ} {flag : Bool}

theorem send_self (p : SigState σ) (x : σ) (flag : Bool) : Arrived (p.send x) x flag :=
  .inr (p.send_self x)

theorem send (h : Arrived p x flag) (y : σ) : Arrived (p.send y) x flag :=
  h.imp id (p.send_mono y x)

theorem take (h : Arrived p x flag) (y : σ) : Arrived (p.take y) x (flag || decide (x = y)) := by
  by_cases hxy : x = y
  · left
    rw [decide_eq_true hxy]
    exact Bool.or_true _
  · rcases h with hf | hp
    · left
      rw [hf]
      rfl
    · exact .inr ((p.take_other hxy).trans hp)

end Arrived

end LinuxSystemProgramming.Signals
