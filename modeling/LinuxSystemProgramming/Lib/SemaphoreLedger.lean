import LinuxSystemProgramming.Lib.NamedObjects
import LinuxSystemProgramming.Lib.Semaphore

namespace LinuxSystemProgramming.Semaphores

open NamedObjects

structure Ledger (s : Store Semaphore) (o initial base ins outs : ℕ) : Prop where
  absent : s.fresh = o → base = initial ∧ ins = 0 ∧ outs = 0
  present : o < s.fresh → (s.object o).value + outs = base + ins

namespace Ledger

variable {s : Store Semaphore} {o initial base ins outs ins' outs' : ℕ}

theorem of_openCreate (s : Store Semaphore) (initial : ℕ) :
    Ledger s (s.openCreate (.init initial)).2 initial
      ((s.openCreate (.init initial)).1.object (s.openCreate (.init initial)).2).value 0 0 := by
  cases hn : s.named with
  | some i =>
    rw [Store.openCreate_of_named _ hn]
    refine ⟨fun hf => ?_, fun _ => rfl⟩
    have hlt := s.named_lt i hn
    simp only at hf
    omega
  | none =>
    rw [Store.openCreate_of_none _ hn]
    refine ⟨fun _ => ?_, fun hlt => absurd hlt (lt_irrefl _)⟩
    simp [Semaphore.init]

theorem openCreate (h : Ledger s o initial base ins outs) (hs : s.Stands o) (ha : s.Awaits o) :
    Ledger (s.openCreate (.init initial)).1 o initial base ins outs := by
  obtain ⟨ho, hn⟩ := hs.openCreate ha (.init initial)
  have hlt := (s.openCreate (.init initial)).1.named_lt o hn
  refine ⟨fun hf => ?_, fun _ => ?_⟩
  · omega
  · rcases ha with hf | hn
    · obtain ⟨hb, hi, hout⟩ := h.absent hf
      rw [Store.openCreate_of_none _ (hs.unnamed_of_fresh hf), ← hf]
      simp only [Store.create_object_fresh, Semaphore.init]
      omega
    · rw [Store.openCreate_of_named _ hn]
      exact h.present (s.named_lt o hn)

theorem update {x : Semaphore} (h : Ledger s o initial base ins outs) (hlt : o < s.fresh)
    (f : Semaphore → Semaphore) (hx : f (s.object o) = x)
    (hv : (s.object o).value + outs = base + ins → x.value + outs' = base + ins') :
    Ledger (s.modify o f) o initial base ins' outs' := by
  refine ⟨fun hf => ?_, fun _ => ?_⟩
  · have hne : s.fresh = o := hf
    omega
  · rw [Store.modify_object_self, hx]
    exact hv (h.present hlt)

theorem post (h : Ledger s o initial base ins outs) (hlt : o < s.fresh)
    (hc : ins' + outs = ins + outs' + 1) :
    Ledger (s.modify o Semaphore.post) o initial base ins' outs' := by
  apply h.update hlt _ rfl
  intro hv
  simp only [Semaphore.post]
  omega

theorem wait {x : Semaphore} (h : Ledger s o initial base ins outs) (hlt : o < s.fresh)
    (hw : (s.object o).wait = some x) (hc : outs' = outs + 1) :
    Ledger (s.modify o (fun _ => x)) o initial base ins outs' := by
  obtain ⟨hpos, rfl⟩ := Semaphore.wait_eq_some.mp hw
  apply h.update hlt _ rfl
  intro hv
  simp only
  omega

theorem unlink (h : Ledger s o initial base ins outs) : Ledger s.unlink o initial base ins outs :=
  ⟨h.absent, h.present⟩

theorem congr (h : Ledger s o initial base ins outs) (hi : ins' = ins) (ho : outs' = outs) :
    Ledger s o initial base ins' outs' := hi ▸ ho ▸ h

end Ledger

end LinuxSystemProgramming.Semaphores
