import LinuxSystemProgramming.SignalHandshake.Moves

namespace LinuxSystemProgramming.SignalHandshake

open Signals Transition

namespace ParentPc

def starting : ParentPc → Bool
  | .sigprocmask | .sigactionUsr1 | .sigactionUsr2 | .fork => true
  | _ => false

def hasAsked : ParentPc → Bool
  | .testUsr2 | .suspendUsr2 | .suspendedUsr2 | .returningUsr2 | .waitpid | .exiting => true
  | .exited _ => true
  | _ => false

def passed : ParentPc → Bool
  | .waitpid | .exiting | .exited _ => true
  | _ => false

def notReady : ParentPc → Bool
  | .suspendReady | .suspendedReady => true
  | _ => false

def waited : ParentPc → Bool
  | .exiting | .exited _ => true
  | _ => false

end ParentPc

def ChildPc.caught : ChildPc → Bool
  | .respond | .exiting => true
  | _ => false

def AnySig (_ : Sig) : Prop := True

def OnlyUsr1 (x : Sig) : Prop := x = .usr1

def ParentAt (p : SigState Sig) : ParentPc → Prop
  | .sigprocmask => ∀ x, p.pending x = false
  | .sigactionUsr1 => Closed AnySig p
  | .sigactionUsr2 => Closed AnySig p ∧ p.handled .usr1 = true
  | .fork | .testReady | .suspendReady | .killChild | .testUsr2 | .suspendUsr2 | .waitpid
  | .exiting => Armed AnySig p
  | .suspendedReady | .returningReady | .suspendedUsr2 | .returningUsr2 => Waiting AnySig p
  | .exited _ => True
  | .terminated _ => False

def ChildAt (p : SigState Sig) : ChildPc → Prop
  | .execl | .sigprocmask | .sigaction => Closed OnlyUsr1 p
  | .notify | .testUsr1 | .suspend | .respond | .exiting => Armed OnlyUsr1 p
  | .suspended | .returning => Waiting OnlyUsr1 p
  | .notForked | .exited _ | .killed => True
  | .terminated _ => False

def State.flag (s : State) : Sig → Bool
  | .usr1 => s.childIsReady
  | .usr2 => s.gotSigusr2

def State.sent (s : State) : Sig → Bool
  | .usr1 => s.notified
  | .usr2 => s.responded

structure ParentKnows (s : State) (pc : ParentPc) : Prop where
  forked : pc.starting = true ↔ s.child = .notForked
  asked : s.asked = pc.hasAsked
  passed : pc.passed = true → s.gotSigusr2 = true
  waited : pc.waited = true → s.child.ended = true
  notReady : pc.notReady = true → s.childIsReady = false

structure Inv (s : State) : Prop where
  parent : ParentAt s.parentSig s.parent
  child : ChildAt s.childSig s.child
  knows : ParentKnows s s.parent
  request : s.asked = true → Arrived s.childSig .usr1 s.gotSigusr1
  unasked : s.gotSigusr1 = true ∨ s.childSig.pending .usr1 = true → s.asked = true
  sent : ∀ x, s.sent x = true → Arrived s.parentSig x (s.flag x)
  caught : s.child.caught = true ∨ s.responded = true → s.gotSigusr1 = true

variable {s t : State}

theorem inv_initial : Inv State.initial := by
  constructor
  · exact fun _ => rfl
  · trivial
  · exact ⟨⟨fun _ => rfl, fun _ => rfl⟩, rfl, nofun, nofun, nofun⟩
  · exact nofun
  · rintro (h | h) <;> cases h
  · intro x hx
    cases x <;> cases hx
  · rintro (h | h) <;> cases h

theorem ParentPc.wake_same (pc : ParentPc) : pc.wake.starting = pc.starting ∧
    pc.wake.hasAsked = pc.hasAsked ∧ pc.wake.passed = pc.passed ∧ pc.wake.waited = pc.waited := by
  cases pc <;> exact ⟨rfl, rfl, rfl, rfl⟩

theorem ParentAt.waiting {p : SigState Sig} {pc : ParentPc} (h : ParentAt p pc)
    (he : pc.ended = false) {x : Sig} (hd : p.deliverable x = true) :
    Waiting AnySig p ∧ ∀ q, Waiting AnySig q → ParentAt q pc.wake := by
  have hopen {q : SigState Sig} (hq : Closed AnySig q) (hdq : q.deliverable x = true) : False := by
    cases (hq.not_deliverable x).symm.trans hdq
  cases pc with
  | sigprocmask => cases (h x).symm.trans (SigState.deliverable_iff.mp hd).1
  | sigactionUsr1 => exact (hopen h hd).elim
  | sigactionUsr2 => exact (hopen h.1 hd).elim
  | fork | testReady | suspendReady | killChild | testUsr2 | suspendUsr2 | waitpid | exiting =>
    exact (hopen h.toClosed hd).elim
  | suspendedReady | returningReady | suspendedUsr2 | returningUsr2 =>
    exact ⟨h, fun _ hq => hq⟩
  | exited => cases he
  | terminated => exact h.elim

theorem ParentAt.woken {p : SigState Sig} {pc : ParentPc} (h : ParentAt p pc)
    (he : pc.ended = false) {x : Sig} (hd : p.deliverable x = true) :
    pc.wake.notReady = false := by
  cases pc with
  | suspendReady => cases (h.toClosed.not_deliverable x).symm.trans hd
  | _ => rfl

theorem ChildAt.waiting {p : SigState Sig} {pc : ChildPc} (h : ChildAt p pc)
    (he : pc.ended = false) (hnew : pc ≠ .notForked) {x : Sig} (hd : p.deliverable x = true) :
    Waiting OnlyUsr1 p ∧ (pc = .suspended ∨ pc = .returning) ∧ pc.wake = .returning := by
  have hopen {q : SigState Sig} (hq : Closed OnlyUsr1 q) (hdq : q.deliverable x = true) :
      False := by
    cases (hq.not_deliverable x).symm.trans hdq
  cases pc with
  | execl | sigprocmask | sigaction => exact (hopen h hd).elim
  | notify | testUsr1 | suspend | respond | exiting => exact (hopen h.toClosed hd).elim
  | suspended => exact ⟨h, .inl rfl, rfl⟩
  | returning => exact ⟨h, .inr rfl, rfl⟩
  | notForked => exact absurd rfl hnew
  | exited | killed => cases he
  | terminated => exact h.elim

theorem ParentAt.send {p : SigState Sig} {pc : ParentPc} (h : ParentAt p pc)
    (hpc : pc ≠ .sigprocmask) (x : Sig) : ParentAt (p.send x) pc := by
  cases pc with
  | sigprocmask => exact absurd rfl hpc
  | sigactionUsr1 => exact Closed.send h trivial
  | sigactionUsr2 => exact ⟨h.1.send trivial, h.2⟩
  | fork | testReady | suspendReady | killChild | testUsr2 | suspendUsr2 | waitpid | exiting =>
    exact Armed.send h trivial
  | suspendedReady | returningReady | suspendedUsr2 | returningUsr2 => exact Waiting.send h trivial
  | exited => trivial
  | terminated => exact h

theorem ChildAt.send {p : SigState Sig} {pc : ChildPc} (h : ChildAt p pc) :
    ChildAt (p.send .usr1) pc := by
  cases pc with
  | execl | sigprocmask | sigaction => exact Closed.send h rfl
  | notify | testUsr1 | suspend | respond | exiting => exact Armed.send h rfl
  | suspended | returning => exact Waiting.send h rfl
  | notForked | exited | killed => trivial
  | terminated => exact h

theorem parentHandler_same (s : State) (x : Sig) :
    (s.parentHandler x).child = s.child ∧ (s.parentHandler x).childSig = s.childSig ∧
    (s.parentHandler x).gotSigusr1 = s.gotSigusr1 ∧ (s.parentHandler x).asked = s.asked ∧
    (s.parentHandler x).responded = s.responded := by
  cases x <;> exact ⟨rfl, rfl, rfl, rfl, rfl⟩

theorem parentHandler_sent (s : State) (x y : Sig) :
    (s.parentHandler x).sent y = s.sent y := by
  cases x <;> cases y <;> rfl

theorem parentHandler_flag (s : State) (x y : Sig) :
    (s.parentHandler x).flag y = (s.flag y || decide (y = x)) := by
  cases x <;> cases y <;> simp [State.parentHandler, State.flag]

theorem childHandler_same (s : State) (x : Sig) :
    (s.childHandler x).parent = s.parent ∧ (s.childHandler x).parentSig = s.parentSig ∧
    (s.childHandler x).asked = s.asked ∧ (∀ y, (s.childHandler x).sent y = s.sent y) ∧
    (∀ y, (s.childHandler x).flag y = s.flag y) := by
  unfold State.childHandler
  split_ifs
  · exact ⟨rfl, rfl, rfl, fun _ => rfl, fun _ => rfl⟩
  · cases x <;> exact ⟨rfl, rfl, rfl, fun _ => rfl, fun _ => rfl⟩

theorem childHandler_flag (x : Sig) (h : s.child ≠ .execl) :
    (s.childHandler x).gotSigusr1 = (s.gotSigusr1 || decide (.usr1 = x)) := by
  unfold State.childHandler
  rw [if_neg h]
  cases x <;> simp

theorem Inv.parent_survives (h : Inv s) (he : s.parent.ended = false) {x : Sig}
    (hd : s.parentSig.deliverable x = true) : s.parentSig.handled x = true :=
  (h.parent.waiting he hd).1.deliver hd

theorem Inv.child_survives (h : Inv s) (he : s.child.ended = false) (hnew : s.child ≠ .notForked)
    {x : Sig} (hd : s.childSig.deliverable x = true) : s.childSig.handled x = true :=
  (h.child.waiting he hnew hd).1.deliver hd

theorem parentAt_parent (h : Inv s) (hm : ParentMove s t) : ParentAt t.parentSig t.parent := by
  have hp := h.parent
  cases hm with
  | blocks hpc =>
    rw [hpc] at hp
    apply Closed.of_block
    · intro x hx
      cases (hp x).symm.trans hx
    · intro x _
      cases x <;> rfl
  | handles x pc hh =>
    change ParentAt (s.parentSig.handle x) pc
    generalize s.parent = p at hh hp
    cases hh with
    | usr1 => exact ⟨hp.handle _, SigState.handle_self _ _⟩
    | usr2 =>
      refine ⟨hp.1.handle _, ?_⟩
      intro x _
      cases x with
      | usr1 => exact SigState.handle_mono _ _ _ hp.2
      | usr2 => exact SigState.handle_self _ _
  | forks hpc | asks hpc =>
    rw [hpc] at hp
    exact hp
  | suspends pc hs =>
    change ParentAt (s.parentSig.suspend (mask [])) pc
    generalize s.parent = p at hs hp
    cases hs <;> exact Armed.suspend hp (fun _ _ => rfl)
  | resumes pc hr =>
    change ParentAt s.parentSig.resume pc
    generalize s.parent = p at hr hp
    cases hr <;> exact Waiting.resume hp
  | goes pc hg =>
    change ParentAt s.parentSig pc
    generalize s.parent = p at hg hp
    cases hg with
    | exits => trivial
    | _ => exact hp
  | signalled x he hd =>
    obtain ⟨hw, hwake⟩ := hp.waiting he hd
    exact hwake _ (hw.take x)
  | dies x he hd hh =>
    cases hh.symm.trans (h.parent_survives he hd)

theorem childAt_parent (h : Inv s) (hm : ParentMove s t) : ChildAt t.childSig t.child := by
  have hc := h.child
  cases hm with
  | forks hpc =>
    have hp := h.parent
    rw [hpc] at hp
    exact hp.toClosed.fork (fun _ _ => trivial)
  | asks => exact hc.send
  | signalled x =>
    obtain ⟨hchild, hsig, -⟩ := parentHandler_same s x
    change ChildAt (s.parentHandler x).childSig (s.parentHandler x).child
    rw [hchild, hsig]
    exact hc
  | _ => exact hc

theorem knows_parent (h : Inv s) (hm : ParentMove s t) : ParentKnows t t.parent := by
  have hk := h.knows
  cases hm with
  | blocks hpc =>
    rw [hpc] at hk
    exact ⟨hk.forked, hk.asked, nofun, nofun, nofun⟩
  | handles x pc hh =>
    change ParentKnows _ pc
    generalize s.parent = p at hh hk
    cases hh <;> exact ⟨hk.forked, hk.asked, nofun, nofun, nofun⟩
  | forks hpc =>
    rw [hpc] at hk
    exact ⟨⟨nofun, nofun⟩, hk.asked, nofun, nofun, nofun⟩
  | suspends pc hs =>
    change ParentKnows _ pc
    generalize s.parent = p at hs hk
    cases hs with
    | ready => exact ⟨hk.forked, hk.asked, nofun, nofun, hk.notReady⟩
    | usr2 => exact ⟨hk.forked, hk.asked, nofun, nofun, nofun⟩
  | resumes pc hr =>
    change ParentKnows _ pc
    generalize s.parent = p at hr hk
    cases hr <;> exact ⟨hk.forked, hk.asked, nofun, nofun, nofun⟩
  | asks hpc =>
    rw [hpc] at hk
    exact ⟨hk.forked, rfl, nofun, nofun, nofun⟩
  | goes pc hg =>
    change ParentKnows _ pc
    generalize s.parent = p at hg hk
    cases hg with
    | usr2 hf => exact ⟨hk.forked, hk.asked, fun _ => hf, nofun, nofun⟩
    | waited he => exact ⟨hk.forked, hk.asked, hk.passed, fun _ => he, nofun⟩
    | exits => exact ⟨hk.forked, hk.asked, hk.passed, hk.waited, nofun⟩
    | notReady hf => exact ⟨hk.forked, hk.asked, nofun, nofun, fun _ => hf⟩
    | ready | noUsr2 => exact ⟨hk.forked, hk.asked, nofun, nofun, nofun⟩
  | signalled x he hd =>
    obtain ⟨hstarting, hasked, hpassed, hwaited⟩ := s.parent.wake_same
    obtain ⟨hchild, -, -, hask, -⟩ := parentHandler_same s x
    constructor
    · change s.parent.wake.starting = true ↔ (s.parentHandler x).child = .notForked
      rw [hstarting, hchild]
      exact hk.forked
    · exact hask.trans (hk.asked.trans hasked.symm)
    · intro hp
      have hflag : s.flag .usr2 = true := hk.passed (hpassed.symm.trans hp)
      change (s.parentHandler x).flag .usr2 = true
      rw [parentHandler_flag, hflag, Bool.true_or]
    · intro hw
      change (s.parentHandler x).child.ended = true
      rw [hchild]
      exact hk.waited (hwaited.symm.trans hw)
    · intro hn
      change s.parent.wake.notReady = true at hn
      rw [h.parent.woken he hd] at hn
      cases hn
  | dies x he hd hh => cases hh.symm.trans (h.parent_survives he hd)

theorem sent_parent (h : Inv s) (hm : ParentMove s t) (x : Sig) (hx : t.sent x = true) :
    Arrived t.parentSig x (t.flag x) := by
  have hs := h.sent x
  cases hm with
  | signalled y he hd =>
    change (s.parentHandler y).sent x = true at hx
    change Arrived (s.parentSig.take y) x ((s.parentHandler y).flag x)
    rw [parentHandler_sent] at hx
    rw [parentHandler_flag]
    exact (hs hx).take y
  | dies y he hd hh => cases hh.symm.trans (h.parent_survives he hd)
  | _ => cases x <;> exact hs hx

theorem request_parent (h : Inv s) (hm : ParentMove s t) :
    (t.asked = true → Arrived t.childSig .usr1 t.gotSigusr1) ∧
      (t.gotSigusr1 = true ∨ t.childSig.pending .usr1 = true → t.asked = true) := by
  have hr := h.request
  have hu := h.unasked
  cases hm with
  | forks hpc =>
    have ha := h.knows.asked
    rw [hpc] at ha
    constructor
    · intro hask
      cases ha.symm.trans hask
    · rintro (hgot | hpend)
      · exact hu (.inl hgot)
      · cases hpend
  | asks => exact ⟨fun _ => .send_self _ _ _, fun _ => rfl⟩
  | signalled x =>
    obtain ⟨-, hsig, hgot, hask, -⟩ := parentHandler_same s x
    change ((s.parentHandler x).asked = true → Arrived (s.parentHandler x).childSig .usr1
      (s.parentHandler x).gotSigusr1) ∧ ((s.parentHandler x).gotSigusr1 = true ∨
      (s.parentHandler x).childSig.pending .usr1 = true → (s.parentHandler x).asked = true)
    rw [hsig, hgot, hask]
    exact ⟨hr, hu⟩
  | _ => exact ⟨hr, hu⟩

theorem caught_parent (h : Inv s) (hm : ParentMove s t)
    (hc : t.child.caught = true ∨ t.responded = true) : t.gotSigusr1 = true := by
  have hold := h.caught
  cases hm with
  | forks =>
    rcases hc with hc | hc
    · cases hc
    · exact hold (.inr hc)
  | signalled x =>
    obtain ⟨hchild, -, hgot, -, hresp⟩ := parentHandler_same s x
    change (s.parentHandler x).child.caught = true ∨ (s.parentHandler x).responded = true at hc
    rw [hchild, hresp] at hc
    exact hgot.trans (hold hc)
  | _ => exact hold hc

theorem inv_parent (h : Inv s) (hm : ParentMove s t) : Inv t where
  parent := parentAt_parent h hm
  child := childAt_parent h hm
  knows := knows_parent h hm
  request := (request_parent h hm).1
  unasked := (request_parent h hm).2
  sent := sent_parent h hm
  caught := caught_parent h hm

theorem signalParent_eq (x : Sig) (h : s.parent.ended = false) :
    s.signalParent x = { s with parentSig := s.parentSig.send x } := by
  unfold State.signalParent
  rw [h]
  rfl

theorem ChildMove.running (h : Inv s) (hm : ChildMove s t) :
    s.child.ended = false ∧ s.child ≠ .notForked ∧ t.child ≠ .notForked := by
  cases hm with
  | execs hpc | blocks hpc | handles hpc | notifies hpc | suspends hpc | resumes hpc
  | responds hpc =>
    rw [hpc]
    exact ⟨rfl, nofun, nofun⟩
  | goes pc hg =>
    change _ ∧ _ ∧ pc ≠ .notForked
    generalize s.child = p at hg
    cases hg with
    | killed p he hnew => exact ⟨he, hnew, nofun⟩
    | _ => exact ⟨rfl, nofun, nofun⟩
  | signalled x he hnew hd =>
    refine ⟨he, hnew, ?_⟩
    change s.child.wake ≠ .notForked
    rw [(h.child.waiting he hnew hd).2.2]
    exact nofun
  | dies x he hnew => exact ⟨he, hnew, nofun⟩

theorem Inv.parent_running (h : Inv s) (he : s.child.ended = false) : s.parent.ended = false := by
  have hp := h.parent
  have hw := h.knows.waited
  cases hpc : s.parent <;> rw [hpc] at hp hw <;> try rfl
  case exited => cases he.symm.trans (hw rfl)
  case terminated => exact hp.elim

theorem ChildMove.parent_running (h : Inv s) (hm : ChildMove s t) : s.parent.ended = false :=
  h.parent_running (hm.running h).1

theorem Inv.parent_blocks (h : Inv s) (hnew : s.child ≠ .notForked) :
    s.parent ≠ .sigprocmask := by
  intro hpc
  apply hnew
  apply h.knows.forked.mp
  rw [hpc]
  rfl

theorem parentAt_child (h : Inv s) (hm : ChildMove s t) : ParentAt t.parentSig t.parent := by
  obtain ⟨he, hnew, -⟩ := hm.running h
  have hp := h.parent
  have hsend := hp.send (h.parent_blocks hnew)
  have hrun := h.parent_running he
  cases hm with
  | notifies =>
    rw [signalParent_eq _ hrun]
    exact hsend .usr1
  | responds =>
    rw [signalParent_eq _ hrun]
    exact hsend .usr2
  | signalled x =>
    obtain ⟨hpar, hsig, -⟩ := childHandler_same s x
    change ParentAt (s.childHandler x).parentSig (s.childHandler x).parent
    rw [hpar, hsig]
    exact hp
  | _ => exact hp

theorem childAt_child (h : Inv s) (hm : ChildMove s t) : ChildAt t.childSig t.child := by
  have hrun := hm.parent_running h
  have hc := h.child
  cases hm with
  | execs hpc =>
    rw [hpc] at hc
    exact hc.exec
  | blocks hpc =>
    rw [hpc] at hc
    exact hc.block _
  | handles hpc =>
    rw [hpc] at hc
    refine ⟨hc.handle _, ?_⟩
    intro x hx
    rw [hx]
    exact SigState.handle_self _ _
  | notifies hpc | responds hpc =>
    rw [signalParent_eq _ hrun]
    rw [hpc] at hc
    exact hc
  | suspends hpc =>
    rw [hpc] at hc
    exact hc.suspend (fun _ _ => rfl)
  | resumes hpc =>
    rw [hpc] at hc
    exact hc.resume
  | goes pc hg =>
    change ChildAt s.childSig pc
    generalize s.child = p at hg hc
    cases hg with
    | asked | notAsked | unnoticed => exact hc
    | _ => trivial
  | signalled x he hnew hd =>
    obtain ⟨hw, -, hwake⟩ := hc.waiting he hnew hd
    change ChildAt (s.childSig.take x) s.child.wake
    rw [hwake]
    exact hw.take x
  | dies x he hnew hd hh => cases hh.symm.trans (h.child_survives he hnew hd)

theorem knows_child (h : Inv s) (hm : ChildMove s t) : ParentKnows t t.parent := by
  obtain ⟨he, hnew, hnew'⟩ := hm.running h
  have hrun := h.parent_running he
  have hsame : t.parent = s.parent ∧ t.asked = s.asked ∧
      t.gotSigusr2 = s.gotSigusr2 ∧ t.childIsReady = s.childIsReady := by
    cases hm with
    | notifies | responds =>
      rw [signalParent_eq _ hrun]
      exact ⟨rfl, rfl, rfl, rfl⟩
    | signalled x =>
      obtain ⟨hpar, -, hask, -, hflag⟩ := childHandler_same s x
      exact ⟨hpar, hask, hflag .usr2, hflag .usr1⟩
    | _ => exact ⟨rfl, rfl, rfl, rfl⟩
  obtain ⟨hpar, hask, hgot, hready⟩ := hsame
  have hk := h.knows
  rw [hpar]
  constructor
  · constructor
    · exact fun hs => absurd (hk.forked.mp hs) hnew
    · exact fun hc => absurd hc hnew'
  · rw [hask, hk.asked]
  · intro hp
    rw [hgot, hk.passed hp]
  · intro hw
    cases he.symm.trans (hk.waited hw)
  · intro hn
    rw [hready, hk.notReady hn]

theorem request_child (h : Inv s) (hm : ChildMove s t) :
    (t.asked = true → Arrived t.childSig .usr1 t.gotSigusr1) ∧
      (t.gotSigusr1 = true ∨ t.childSig.pending .usr1 = true → t.asked = true) := by
  have hrun := hm.parent_running h
  have hr := h.request
  have hu := h.unasked
  cases hm with
  | notifies | responds =>
    rw [signalParent_eq _ hrun]
    exact ⟨hr, hu⟩
  | signalled x he hnew hd =>
    obtain ⟨-, hpc, -⟩ := h.child.waiting he hnew hd
    obtain ⟨-, -, hask, -⟩ := childHandler_same s x
    have hnot : s.child ≠ .execl := by
      rcases hpc with hpc | hpc <;> rw [hpc] <;> exact nofun
    have hflag := childHandler_flag x hnot
    change ((s.childHandler x).asked = true → Arrived (s.childSig.take x) .usr1
      (s.childHandler x).gotSigusr1) ∧ ((s.childHandler x).gotSigusr1 = true ∨
      (s.childSig.take x).pending .usr1 = true → (s.childHandler x).asked = true)
    rw [hask, hflag]
    constructor
    · exact fun ha => (hr ha).take x
    · rintro (hgot | hpend)
      · rcases (Bool.or_eq_true _ _).mp hgot with hgot | hx
        · exact hu (.inl hgot)
        · rw [← of_decide_eq_true hx] at hd
          exact hu (.inr (SigState.deliverable_iff.mp hd).1)
      · exact hu (.inr (SigState.take_pending hpend).2)
  | dies x he hnew hd hh => cases hh.symm.trans (h.child_survives he hnew hd)
  | _ => exact ⟨hr, hu⟩

theorem sent_child (h : Inv s) (hm : ChildMove s t) (x : Sig) (hx : t.sent x = true) :
    Arrived t.parentSig x (t.flag x) := by
  have hrun := hm.parent_running h
  have hs := h.sent x
  cases hm with
  | notifies =>
    rw [signalParent_eq _ hrun] at hx ⊢
    cases x with
    | usr1 => exact .send_self _ _ _
    | usr2 => exact (hs hx).send _
  | responds =>
    rw [signalParent_eq _ hrun] at hx ⊢
    cases x with
    | usr1 => exact (hs hx).send _
    | usr2 => exact .send_self _ _ _
  | signalled y =>
    obtain ⟨-, hsig, -, hsent, hflag⟩ := childHandler_same s y
    change (s.childHandler y).sent x = true at hx
    change Arrived (s.childHandler y).parentSig x ((s.childHandler y).flag x)
    rw [hsent] at hx
    rw [hsig, hflag]
    exact hs hx
  | _ => cases x <;> exact hs hx

theorem caught_child (h : Inv s) (hm : ChildMove s t)
    (hc : t.child.caught = true ∨ t.responded = true) : t.gotSigusr1 = true := by
  have hrun := hm.parent_running h
  have hold := h.caught
  cases hm with
  | execs | blocks | handles | suspends | resumes =>
    rcases hc with hc | hc
    · cases hc
    · exact hold (.inr hc)
  | notifies =>
    rw [signalParent_eq _ hrun] at hc ⊢
    rcases hc with hc | hc
    · cases hc
    · exact hold (.inr hc)
  | responds hpc =>
    rw [hpc] at hold
    rw [signalParent_eq _ hrun]
    exact hold (.inl rfl)
  | goes pc hg =>
    rcases hc with hc | hc
    · change pc.caught = true at hc
      generalize s.child = p at hg
      cases hg with
      | asked hf => exact hf
      | _ => cases hc
    · exact hold (.inr hc)
  | signalled x he hnew hd =>
    obtain ⟨-, hpc, hwake⟩ := h.child.waiting he hnew hd
    obtain ⟨-, -, -, hsent, -⟩ := childHandler_same s x
    have hnot : s.child ≠ .execl := by
      rcases hpc with hpc | hpc <;> rw [hpc] <;> exact nofun
    change (s.childHandler x).gotSigusr1 = true
    rw [childHandler_flag x hnot]
    rcases hc with hc | hc
    · change s.child.wake.caught = true at hc
      rw [hwake] at hc
      cases hc
    · have hresp : s.sent .usr2 = true := (hsent .usr2).symm.trans hc
      rw [hold (.inr hresp), Bool.true_or]
  | dies x he hnew hd hh => cases hh.symm.trans (h.child_survives he hnew hd)

theorem inv_child (h : Inv s) (hm : ChildMove s t) : Inv t where
  parent := parentAt_child h hm
  child := childAt_child h hm
  knows := knows_child h hm
  request := (request_child h hm).1
  unasked := (request_child h hm).2
  sent := sent_child h hm
  caught := caught_child h hm

theorem inv_outsider (h : Inv s) (hpc : s.parent ≠ .sigprocmask) (x : Sig) :
    Inv (s.signalParent x) := by
  unfold State.signalParent
  split_ifs
  · exact h
  · obtain ⟨hforked, hasked, hpassed, hwaited, hready⟩ := h.knows
    refine ⟨h.parent.send hpc x, h.child, ⟨hforked, hasked, hpassed, hwaited, hready⟩,
      h.request, h.unasked, ?_, h.caught⟩
    intro y hy
    have hs := h.sent y
    cases y <;> exact (hs hy).send x

theorem inv_reachable (hr : handshake.ReachableWhile Orderly s) : Inv s := by
  apply System.ReachableWhile.induct _ _ hr
  · rintro _ rfl
    exact inv_initial
  · intro s a t _ h hc hn
    rcases next_move hc hn with hm | hm | ⟨hpc, x, rfl⟩
    · exact inv_parent h hm
    · exact inv_child h hm
    · exact inv_outsider h hpc x

end LinuxSystemProgramming.SignalHandshake
