import LinuxSystemProgramming.HandOver.Discipline

namespace LinuxSystemProgramming.HandOver

open Mutex Transition

variable {s t : State}

theorem T1Pc.kept {pc : T1Pc} (h : pc.working = false) :
    (∀ o, pc.destroyed o = false) ∧ pc.freed = false := by
  cases pc <;> first | exact ⟨fun _ => rfl, rfl⟩ | cases h

theorem Inv.not_working (h : Inv s) (hpast : s.mainPc.past = false) : s.t1.working = false := by
  have ht := h.t1
  cases hpc : s.t1 <;> rw [hpc] at ht <;> first | rfl | cases hpast.symm.trans ht.2.2

theorem MainPc.uses_past {pc : MainPc} (h : pc.past = true) :
    pc.op.objects = [] ∧ pc.op.accesses = false := by
  cases pc <;> first | exact ⟨rfl, rfl⟩ | cases h

theorem MainPc.outside_past {pc : MainPc} (h : pc.past = true) : pc.inside = false := by
  cases pc <;> first | rfl | cases h

theorem MainPc.uses_made (pc : MainPc) : (∀ o ∈ pc.op.objects, pc.made o = true) ∧
    (pc.op.accesses = true → pc.mallocd = true) := by
  cases pc <;> decide

theorem T1Pc.uses_kept (pc : T1Pc) : (∀ o ∈ pc.op.objects, pc.destroyed o = false) ∧
    (pc.op.accesses = true → pc.freed = false) := by
  cases pc <;> decide

theorem Inv.main_uses (h : Inv s) : (∀ o ∈ s.mainPc.op.objects, s.live o = true) ∧
    (s.mainPc.op.accesses = true → s.allocated = true) := by
  cases hpast : s.mainPc.past with
  | true =>
    obtain ⟨hobj, hacc⟩ := MainPc.uses_past hpast
    rw [hobj, hacc]
    exact ⟨nofun, nofun⟩
  | false =>
    obtain ⟨hkept, hfreed⟩ := T1Pc.kept (h.not_working hpast)
    obtain ⟨hmade, hmal⟩ := s.mainPc.uses_made
    constructor
    · intro o ho
      rw [h.ledger.live, hmade o ho, hkept]
      rfl
    · intro hacc
      rw [h.ledger.allocated, hmal hacc, hfreed]
      rfl

theorem Inv.t1_uses (h : Inv s) : (∀ o ∈ s.t1.op.objects, s.live o = true) ∧
    (s.t1.op.accesses = true → s.allocated = true) := by
  by_cases hnew : s.t1 = .notCreated
  · rw [hnew]
    exact ⟨nofun, nofun⟩
  · have hs := h.started hnew
    obtain ⟨hkept, hfreed⟩ := s.t1.uses_kept
    constructor
    · intro o ho
      rw [h.ledger.live, made_of_started hs, hkept o ho]
      rfl
    · intro hacc
      have hmal : s.mainPc.mallocd = true := by
        cases hpc : s.mainPc <;> rw [hpc] at hs <;> first | rfl | cases hs
      rw [h.ledger.allocated, hmal, hfreed hacc]
      rfl

theorem Inv.uses (h : Inv s) (τ : Tid) : (∀ o ∈ (s.op τ).objects, s.live o = true) ∧
    ((s.op τ).accesses = true → s.allocated = true) := by
  cases τ with
  | main => exact h.main_uses
  | t1 => exact h.t1_uses

theorem Inv.destroyed (h : Inv s) {o : Object} (hd : 0 < s.destroys o) (τ : Tid) :
    o ∉ (s.op τ).objects := by
  intro ho
  have hlive := (h.uses τ).1 o ho
  have hdes := h.ledger.destroys o
  rw [h.ledger.live o] at hlive
  cases hgone : s.t1.destroyed o with
  | true =>
    rw [hgone, Bool.not_true, Bool.and_false] at hlive
    cases hlive
  | false =>
    rw [hgone, Bool.toNat_false] at hdes
    omega

theorem Inv.freed (h : Inv s) (hf : 0 < s.frees) (τ : Tid) : (s.op τ).accesses = false := by
  apply eq_false_of_ne_true
  intro hacc
  have hall := (h.uses τ).2 hacc
  have hfrees := h.ledger.frees
  rw [h.ledger.allocated] at hall
  cases hgone : s.t1.freed with
  | true =>
    rw [hgone, Bool.not_true, Bool.and_false] at hall
    cases hall
  | false =>
    rw [hgone, Bool.toNat_false] at hfrees
    omega

theorem ghost_mono (hm : MainMove s t ∨ T1Move s t) :
    (∀ o, s.destroys o ≤ t.destroys o) ∧ s.frees ≤ t.frees := by
  rcases hm with hm | hm
  · cases hm with
    | inits o pc =>
      obtain ⟨hdes, -, hfrees, -⟩ := initObject_rest s o
      constructor
      · intro o'
        exact le_of_eq (congrFun hdes o').symm
      · exact le_of_eq hfrees.symm
    | _ => exact ⟨fun _ => le_refl _, le_refl _⟩
  · cases hm with
    | destroys o pc =>
      constructor
      · intro o'
        change s.destroys o' ≤ Function.update s.destroys o (s.destroys o + 1) o'
        by_cases he : o' = o
        · rw [he, Function.update_self]
          omega
        · rw [Function.update_of_ne he]
      · exact le_refl _
    | frees => exact ⟨fun _ => le_refl _, Nat.le_succ _⟩
    | _ => exact ⟨fun _ => le_refl _, le_refl _⟩

theorem ghost_path (hp : handOver.PathWhile (fun _ _ => True) s t) :
    (∀ o, s.destroys o ≤ t.destroys o) ∧ s.frees ≤ t.frees := by
  induction hp with
  | refl => exact ⟨fun _ => le_refl _, le_refl _⟩
  | tail _ hs ih =>
    obtain ⟨a, -, hn⟩ := hs
    obtain ⟨hdes, hfrees⟩ := ghost_mono (next_move hn)
    constructor
    · intro o
      exact Nat.le_trans (ih.1 o) (hdes o)
    · exact Nat.le_trans ih.2 hfrees

theorem MainPc.keeps (pc : MainPc) : (∀ o, pc.op ≠ .destroy o) ∧ pc.op ≠ .free := by
  cases pc <;> exact ⟨nofun, nofun⟩

theorem T1Pc.destroys_view {pc : T1Pc} {o : Object} (h : pc.op = .destroy o) :
    pc.working = true ∧ pc.inside = false ∧ pc.destroyed o = false := by
  cases pc <;> first | (cases h; exact ⟨rfl, rfl, rfl⟩) | cases h

theorem T1Pc.frees_view {pc : T1Pc} (h : pc.op = .free) : pc.working = true ∧ pc.freed = false := by
  cases pc <;> first | exact ⟨rfl, rfl⟩ | cases h

theorem Inv.past_of_working (h : Inv s) (hw : s.t1.working = true) :
    s.data.t1ToProceed = true ∧ s.mainPc.past = true := by
  have ht := h.t1
  cases hpc : s.t1 <;> rw [hpc] at ht hw <;> first | exact ht.2 | cases hw

theorem Inv.unlocked (h : Inv s) (hw : s.t1.working = true) (hout : s.t1.inside = false) :
    s.data.mutex = none := by
  have hpast := (h.past_of_working hw).2
  have hnew : s.t1 ≠ .notCreated := by
    intro hpc
    rw [hpc] at hw
    cases hw
  rcases (h.guarded hnew).free_or_inside with hfree | ⟨τ, hτ⟩
  · exact hfree
  · cases τ with
    | main => cases (MainPc.outside_past hpast).symm.trans hτ
    | t1 => cases hout.symm.trans hτ

def Abandoned (o : Object) (s : State) : Prop :=
  ∀ t, handOver.PathWhile (fun _ _ => True) s t → ∀ τ, o ∉ (t.op τ).objects

theorem destroy_last (hr : handOver.Reachable s) {τ : Tid} {o : Object}
    (hop : s.op τ = .destroy o) : τ = .t1 ∧ s.data.mutex = none ∧ s.destroys o = 0 ∧
      o ∉ (s.op .main).objects ∧ ∀ t, s.next .t1 = some t → Abandoned o t := by
  have h := inv_reachable hr
  cases τ with
  | main => exact absurd hop (s.mainPc.keeps.1 o)
  | t1 =>
    obtain ⟨hw, hout, hkept⟩ := T1Pc.destroys_view hop
    refine ⟨rfl, h.unlocked hw hout, ?_, ?_, ?_⟩
    · rw [h.ledger.destroys, hkept]
      rfl
    · change o ∉ s.mainPc.op.objects
      rw [(MainPc.uses_past (h.past_of_working hw).2).1]
      exact List.not_mem_nil
    · intro t hn u hp
      have hu := inv_reachable ((hr.step Action.t1 hn).path hp)
      have hdes : t.destroys o = s.destroys o + 1 := by
        change (s.exec .t1 s.t1.op).map _ = some t at hn
        change s.t1.op = .destroy o at hop
        rw [hop] at hn
        cases hn
        exact Function.update_self _ _ _
      have hle := (ghost_path hp).1 o
      exact hu.destroyed (by omega)

theorem free_last (hr : handOver.Reachable s) {τ : Tid} (hop : s.op τ = .free) :
    τ = .t1 ∧ s.frees = 0 ∧ ∀ t, s.next .t1 = some t →
      ∀ u, handOver.PathWhile (fun _ _ => True) t u → ∀ τ', (u.op τ').accesses = false := by
  have h := inv_reachable hr
  cases τ with
  | main => exact absurd hop s.mainPc.keeps.2
  | t1 =>
    refine ⟨rfl, ?_, ?_⟩
    · rw [h.ledger.frees, (T1Pc.frees_view hop).2]
      rfl
    · intro t hn u hp
      have hu := inv_reachable ((hr.step Action.t1 hn).path hp)
      have hfrees : t.frees = s.frees + 1 := by
        change (s.exec .t1 s.t1.op).map _ = some t at hn
        change s.t1.op = .free at hop
        rw [hop] at hn
        cases hn
        rfl
      have hle := (ghost_path hp).2
      exact hu.freed (by omega)

end LinuxSystemProgramming.HandOver
