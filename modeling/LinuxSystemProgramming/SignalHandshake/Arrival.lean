import LinuxSystemProgramming.SignalHandshake.Discipline

namespace LinuxSystemProgramming.SignalHandshake

open Signals Transition

def NoFailure (s : State) : Action → Prop
  | .parent o | .child o => o = .run
  | .parentSignal _ | .childSignal _ => True
  | .childKilled => False
  | .outsider _ => s.parent ≠ .sigprocmask

instance (s : State) (a : Action) : Decidable (NoFailure s a) :=
  match a with
  | .parent o => inferInstanceAs (Decidable (o = .run))
  | .child o => inferInstanceAs (Decidable (o = .run))
  | .parentSignal _ => inferInstanceAs (Decidable True)
  | .childSignal _ => inferInstanceAs (Decidable True)
  | .childKilled => inferInstanceAs (Decidable False)
  | .outsider _ => inferInstanceAs (Decidable (s.parent ≠ .sigprocmask))

instance (a : Action) : Decidable (Unaided a) :=
  match a with
  | .parent o => inferInstanceAs (Decidable (o = .run))
  | .outsider _ => inferInstanceAs (Decidable False)
  | .parentSignal _ => inferInstanceAs (Decidable True)
  | .child _ => inferInstanceAs (Decidable True)
  | .childSignal _ => inferInstanceAs (Decidable True)
  | .childKilled => inferInstanceAs (Decidable True)

theorem NoFailure.orderly (s : State) (a : Action) (h : NoFailure s a) : Orderly s a := by
  cases a with
  | parent => exact h
  | outsider => exact h
  | childKilled => exact h.elim
  | _ => trivial

theorem Unaided.orderly (s : State) (a : Action) (h : Unaided a) : Orderly s a := by
  cases a with
  | parent => exact h
  | outsider => exact h.elim
  | _ => trivial

variable {s t : State}

theorem Inv.alive (h : Inv s) (x : Sig) :
    s.parent ≠ .terminated x ∧ s.child ≠ .terminated x := by
  constructor
  · intro hpc
    have hp := h.parent
    rw [hpc] at hp
    exact hp
  · intro hpc
    have hc := h.child
    rw [hpc] at hc
    exact hc

theorem Inv.child_wakes (h : Inv s) (ha : s.asked = true) (hpc : s.child = .suspended)
    (hf : s.gotSigusr1 = false) : s.childSig.deliverable .usr1 = true := by
  have hw := h.child
  rw [hpc] at hw
  rcases h.request ha with hgot | hpend
  · cases hf.symm.trans hgot
  · exact hw.deliverable hpend

theorem Inv.parent_wakes (h : Inv s) {x : Sig} (hs : s.sent x = true)
    (hpc : s.parent = .suspendedReady ∨ s.parent = .suspendedUsr2) (hf : s.flag x = false) :
    s.parentSig.deliverable x = true := by
  have hw : Waiting AnySig s.parentSig := by
    have hp := h.parent
    rcases hpc with hpc | hpc <;> rw [hpc] at hp <;> exact hp
  rcases h.sent x hs with hflag | hpend
  · cases hf.symm.trans hflag
  · exact hw.deliverable hpend

theorem seen_parent (h : Inv s) (hm : ParentMove s t)
    (hold : ∀ x, s.flag x = true ∨ s.parentSig.pending x = true → s.sent x = true) (x : Sig)
    (hx : t.flag x = true ∨ t.parentSig.pending x = true) : t.sent x = true := by
  cases hm with
  | signalled y he hd =>
    change (s.parentHandler y).flag x = true ∨ (s.parentSig.take y).pending x = true at hx
    change (s.parentHandler y).sent x = true
    rw [parentHandler_flag] at hx
    rw [parentHandler_sent]
    rcases hx with hflag | hpend
    · rcases (Bool.or_eq_true _ _).mp hflag with hflag | hxy
      · exact hold x (.inl hflag)
      · rw [← of_decide_eq_true hxy] at hd
        exact hold x (.inr (SigState.deliverable_iff.mp hd).1)
    · exact hold x (.inr (SigState.take_pending hpend).2)
  | dies y he hd hh => cases hh.symm.trans (h.parent_survives he hd)
  | _ =>
    have hx' := hold x
    cases x <;> exact hx' hx

theorem seen_child (h : Inv s) (hm : ChildMove s t)
    (hold : ∀ x, s.flag x = true ∨ s.parentSig.pending x = true → s.sent x = true) (x : Sig)
    (hx : t.flag x = true ∨ t.parentSig.pending x = true) : t.sent x = true := by
  have hrun := hm.parent_running h
  have hx' := hold x
  cases hm with
  | notifies =>
    rw [signalParent_eq _ hrun] at hx ⊢
    cases x with
    | usr1 => rfl
    | usr2 =>
      have hother : (s.parentSig.send .usr1).pending .usr2 = s.parentSig.pending .usr2 :=
        SigState.send_other _ nofun
      change s.gotSigusr2 = true ∨ (s.parentSig.send .usr1).pending .usr2 = true at hx
      rw [hother] at hx
      exact hx' hx
  | responds =>
    rw [signalParent_eq _ hrun] at hx ⊢
    cases x with
    | usr1 =>
      have hother : (s.parentSig.send .usr2).pending .usr1 = s.parentSig.pending .usr1 :=
        SigState.send_other _ nofun
      change s.childIsReady = true ∨ (s.parentSig.send .usr2).pending .usr1 = true at hx
      rw [hother] at hx
      exact hx' hx
    | usr2 => rfl
  | signalled y =>
    obtain ⟨-, hsig, -, hsent, hflag⟩ := childHandler_same s y
    change (s.childHandler y).flag x = true ∨ (s.childHandler y).parentSig.pending x = true at hx
    change (s.childHandler y).sent x = true
    rw [hsig, hflag] at hx
    rw [hsent]
    exact hx' hx
  | _ => cases x <;> exact hx' hx

theorem sent_of_seen (hr : handshake.ReachableWhile (fun _ a => Unaided a) s) (x : Sig)
    (hx : s.flag x = true ∨ s.parentSig.pending x = true) : s.sent x = true := by
  induction hr generalizing x with
  | init h =>
    cases h
    cases x <;> rcases hx with hx | hx <;> cases hx
  | step a hr hc hn ih =>
    have h := inv_reachable (hr.mono Unaided.orderly)
    rcases unaided_move hc hn with hm | hm
    · exact seen_parent h hm ih x hx
    · exact seen_child h hm ih x hx

/-- Neither process dies of a signal, and whoever is suspended after the other's `kill` has been
woken or will be at once. Without outsiders the parent waits for the child's answer. -/
theorem handshake_arrives :
    (∀ s, handshake.ReachableWhile NoFailure s →
      (∀ x, s.parent ≠ .terminated x ∧ s.child ≠ .terminated x) ∧
      (s.asked = true → s.child = .suspended → s.gotSigusr1 = false →
        s.childSig.deliverable .usr1 = true) ∧
      (s.notified = true → s.parent = .suspendedReady → s.childIsReady = false →
        s.parentSig.deliverable .usr1 = true) ∧
      (s.responded = true → s.parent = .suspendedUsr2 → s.gotSigusr2 = false →
        s.parentSig.deliverable .usr2 = true)) ∧
    ∀ s, handshake.ReachableWhile (fun s a => NoFailure s a ∧ Unaided a) s →
      s.parent.passed = true → s.gotSigusr1 = true := by
  constructor
  · intro s hr
    have h := inv_reachable (hr.mono NoFailure.orderly)
    refine ⟨h.alive, h.child_wakes, ?_, ?_⟩
    · exact fun hs hpc hf => h.parent_wakes (x := .usr1) hs (.inl hpc) hf
    · exact fun hs hpc hf => h.parent_wakes (x := .usr2) hs (.inr hpc) hf
  · intro s hr hp
    have h := inv_reachable (hr.mono (fun s a hc => NoFailure.orderly s a hc.1))
    apply h.caught
    right
    exact sent_of_seen (hr.mono (fun _ _ hc => hc.2)) .usr2 (.inl (h.knows.passed hp))

def runs (n : ℕ) (a : Action) : List Action := List.replicate n a

theorem handshake_arrives_early : ∃ s : State, s.child = .suspended ∧ s.asked = true ∧
    s.childSig.deliverable .usr1 = true := by
  have hrun : (handshake.runWhile (fun s a => decide (NoFailure s a)) State.initial
      (runs 1 (.parent .run) ++ [.outsider .usr1] ++ runs 5 (.parent .run) ++
        [.parentSignal .usr1] ++ runs 3 (.parent .run) ++ runs 6 (.child .run))).map
        (fun s => (s.child, s.asked, s.gotSigusr1)) = some (.suspended, true, false) := by
    decide +kernel
  obtain ⟨s, hs, he⟩ := Option.map_eq_some_iff.mp hrun
  simp only [Prod.mk.injEq] at he
  obtain ⟨hpc, ha, hf⟩ := he
  have hr : handshake.ReachableWhile NoFailure s :=
    .run (fun _ _ => of_decide_eq_true) _ (.init rfl) hs
  exact ⟨s, hpc, ha, (handshake_arrives.1 s hr).2.1 ha hpc hf⟩

end LinuxSystemProgramming.SignalHandshake
