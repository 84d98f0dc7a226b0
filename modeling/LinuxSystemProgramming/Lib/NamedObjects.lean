import Mathlib.Data.Nat.Basic
import Mathlib.Logic.Function.Basic

namespace LinuxSystemProgramming.NamedObjects

variable {β : Type*}

structure Store (β : Type*) where
  named : Option ℕ
  object : ℕ → β
  fresh : ℕ
  named_lt : ∀ i, named = some i → i < fresh

namespace Store

def empty (b : β) : Store β := ⟨none, fun _ => b, 0, by simp⟩

def create (s : Store β) (b : β) : Store β where
  named := some s.fresh
  object := Function.update s.object s.fresh b
  fresh := s.fresh + 1
  named_lt _ hi := Option.some.inj hi ▸ Nat.lt_succ_self _

def openCreate (s : Store β) (b : β) : Store β × ℕ :=
  match s.named with
  | some i => (s, i)
  | none => (s.create b, s.fresh)

def unlink (s : Store β) : Store β where
  named := none
  object := s.object
  fresh := s.fresh
  named_lt _ hi := by cases hi

def modify (s : Store β) (i : ℕ) (f : β → β) : Store β where
  named := s.named
  object := Function.update s.object i (f (s.object i))
  fresh := s.fresh
  named_lt := s.named_lt

@[simp] theorem create_object_fresh (s : Store β) (b : β) : (s.create b).object s.fresh = b :=
  Function.update_self _ _ _

@[simp] theorem unlink_object (s : Store β) (i : ℕ) : s.unlink.object i = s.object i := rfl

@[simp] theorem modify_named (s : Store β) (i : ℕ) (f : β → β) : (s.modify i f).named = s.named := rfl

@[simp] theorem modify_object_self (s : Store β) (i : ℕ) (f : β → β) :
    (s.modify i f).object i = f (s.object i) := Function.update_self _ _ _

theorem modify_object_of_ne (s : Store β) {i j : ℕ} (f : β → β) (h : j ≠ i) :
    (s.modify i f).object j = s.object j := Function.update_of_ne h _ _

theorem openCreate_of_named {s : Store β} {i : ℕ} (b : β) (h : s.named = some i) :
    s.openCreate b = (s, i) := by
  simp only [openCreate, h]

theorem openCreate_of_none {s : Store β} (b : β) (h : s.named = none) :
    s.openCreate b = (s.create b, s.fresh) := by
  simp only [openCreate, h]

def Unnamed (s : Store β) (p : β → Prop) : Prop := ∀ i, s.named ≠ some i → p (s.object i)

variable {s : Store β} {p : β → Prop}

theorem Unnamed.create (h : s.Unnamed p) (b : β) (hn : s.named = none) :
    (s.create b).Unnamed p := by
  intro i hi
  have hne : i ≠ s.fresh := fun he => hi (congrArg some he.symm)
  change p (Function.update s.object s.fresh b i)
  rw [Function.update_of_ne hne]
  exact h i (by simp [hn])

theorem Unnamed.openCreate (h : s.Unnamed p) (b : β) : (s.openCreate b).1.Unnamed p := by
  cases hn : s.named with
  | some i => rwa [openCreate_of_named b hn]
  | none =>
    rw [openCreate_of_none b hn]
    exact h.create b hn

theorem Unnamed.unlink (h : s.Unnamed p) (hp : ∀ i, s.named = some i → p (s.object i)) :
    s.unlink.Unnamed p := by
  intro i _
  by_cases hi : s.named = some i
  · exact hp i hi
  · exact h i hi

theorem Unnamed.modify (h : s.Unnamed p) {i : ℕ} (f : β → β) (hi : s.named = some i) :
    (s.modify i f).Unnamed p := by
  intro j hj
  have hne : j ≠ i := by
    rintro rfl
    exact hj hi
  rw [modify_object_of_ne s f hne]
  exact h j hj

structure Stands (s : Store β) (o : ℕ) : Prop where
  named : ∀ i, s.named = some i → i = o
  le : o ≤ s.fresh

def Awaits (s : Store β) (o : ℕ) : Prop := s.fresh = o ∨ s.named = some o

variable {o : ℕ}

theorem stands_openCreate (s : Store β) (b : β) :
    s.Stands (s.openCreate b).2 ∧ s.Awaits (s.openCreate b).2 := by
  cases hn : s.named with
  | some i =>
    rw [openCreate_of_named b hn]
    refine ⟨⟨fun j hj => ?_, Nat.le_of_lt (s.named_lt i hn)⟩, .inr hn⟩
    exact Option.some.inj (hj.symm.trans hn)
  | none =>
    rw [openCreate_of_none b hn]
    refine ⟨⟨fun j hj => ?_, le_refl _⟩, .inl rfl⟩
    cases hn.symm.trans hj

theorem Stands.unnamed_of_fresh (h : s.Stands o) (hf : s.fresh = o) : s.named = none := by
  cases hn : s.named with
  | none => rfl
  | some i =>
    have hi := h.named i hn
    have hlt := s.named_lt i hn
    omega

theorem Stands.openCreate (h : s.Stands o) (ha : s.Awaits o) (b : β) :
    (s.openCreate b).2 = o ∧ (s.openCreate b).1.named = some o := by
  rcases ha with hf | hn
  · rw [openCreate_of_none b (h.unnamed_of_fresh hf)]
    exact ⟨hf, congrArg some hf⟩
  · rw [openCreate_of_named b hn]
    exact ⟨rfl, hn⟩

theorem Stands.openCreate_stands (h : s.Stands o) (ha : s.Awaits o) (b : β) :
    (s.openCreate b).1.Stands o := by
  obtain ⟨-, hn⟩ := h.openCreate ha b
  refine ⟨fun i hi => ?_, Nat.le_of_lt ((s.openCreate b).1.named_lt o hn)⟩
  exact Option.some.inj (hi.symm.trans hn)

theorem Stands.modify (h : s.Stands o) {i : ℕ} {f : β → β} : (s.modify i f).Stands o :=
  ⟨h.named, h.le⟩

theorem Stands.unlink (h : s.Stands o) : s.unlink.Stands o := by
  refine ⟨fun _ hi => ?_, h.le⟩
  cases hi

theorem openCreate_fresh (s : Store β) (b : β) : s.fresh ≤ (s.openCreate b).1.fresh := by
  cases hn : s.named with
  | some i => rw [openCreate_of_named b hn]
  | none =>
    rw [openCreate_of_none b hn]
    exact Nat.le_succ _

end Store

end LinuxSystemProgramming.NamedObjects
