import LinuxSystemProgramming.Cancellation.Moves
import Mathlib.Order.Basic

namespace LinuxSystemProgramming.Cancellation

open Mutex Transition

def MainPc.inside : MainPc → Bool
  | .testReady | .setContinue | .signalContinue | .unlockContinue => true
  | .testStop | .cancel | .unlockStop => true
  | _ => false

def T1Pc.inside : T1Pc → Bool
  | .setReady | .signalReady | .testContinue | .unlockContinue => true
  | .cleanupPush _ | .count _ | .signalCount _ | .unlockCount _ => true
  | _ => false

def State.inside (s : State) : Tid → Prop
  | .main => s.mainPc.inside = true
  | .t1 => s.t1.inside = true

def T1Pc.willSignal : T1Pc → Bool
  | .printfStarted | .lockReady | .setReady | .signalReady => true
  | _ => false

def T1Pc.signalsCount : T1Pc → Bool
  | .signalCount _ => true
  | _ => false

def T1Pc.counting : T1Pc → Bool
  | .lockCount _ | .cleanupPush _ | .count _ | .signalCount _ | .unlockCount _ => true
  | .cleanupPop _ | .testcancel _ => true
  | _ => false

def T1At (max : ℕ) (s : State) : T1Pc → Prop
  | .notCreated | .printfStarted | .lockReady | .setReady => s.counter = 0 ∧ s.handlers = 0
  | .signalReady | .testContinue | .waitContinue | .relockContinue =>
      s.counter = 0 ∧ s.handlers = 0 ∧ s.t1Ready = true
  | .unlockContinue | .printfStarting =>
      s.counter = 0 ∧ s.handlers = 0 ∧ s.t1Ready = true ∧ s.t1ToContinue = true
  | .lockCount i | .cleanupPush i =>
      (s.counter = i ∧ i < max) ∧ s.handlers = 0 ∧ s.t1Ready = true ∧ s.t1ToContinue = true
  | .count i =>
      (s.counter = i ∧ i < max) ∧ s.handlers = 1 ∧ s.t1Ready = true ∧ s.t1ToContinue = true
  | .signalCount i | .unlockCount i | .cleanupPop i =>
      (s.counter = i + 1 ∧ i < max) ∧ s.handlers = 1 ∧ s.t1Ready = true ∧ s.t1ToContinue = true
  | .testcancel i =>
      (s.counter = i + 1 ∧ i < max) ∧ s.handlers = 0 ∧ s.t1Ready = true ∧ s.t1ToContinue = true
  | .printfEnded | .exiting =>
      s.counter = max ∧ s.handlers = 0 ∧ s.t1Ready = true ∧ s.t1ToContinue = true
  | .relockCancel => False
  | .handlers | .terminated => (s.cancelRequested = true ∨ s.counter = max) ∧ s.counter ≤ max ∧
      s.handlers = 0 ∧ s.t1Ready = true ∧ s.t1ToContinue = true

structure Before (t1 : T1Pc) (t1ToContinue cancelRequested : Bool) : Prop where
  created : t1 ≠ .notCreated
  toContinue : t1ToContinue = false
  requested : cancelRequested = false

structure Counting (t1 : T1Pc) (t1ToContinue cancelRequested : Bool) : Prop where
  created : t1 ≠ .notCreated
  awake : t1 ≠ .waitContinue
  toContinue : t1ToContinue = true
  requested : cancelRequested = false

def MainAt (stop : ℕ) (s : State) : MainPc → Prop
  | .create => s.t1 = .notCreated ∧ s.t1ToContinue = false ∧ s.cancelRequested = false
  | .detach | .lockReady | .testReady | .relockReady => Before s.t1 s.t1ToContinue s.cancelRequested
  | .waitReady => Before s.t1 s.t1ToContinue s.cancelRequested ∧ s.t1.willSignal = true
  | .setContinue => Before s.t1 s.t1ToContinue s.cancelRequested ∧ s.t1Ready = true
  | .signalContinue =>
      s.t1 ≠ .notCreated ∧ s.t1ToContinue = true ∧ s.cancelRequested = false
  | .unlockContinue | .lockStop | .testStop | .relockStop => Counting s.t1 s.t1ToContinue s.cancelRequested
  | .waitStop => Counting s.t1 s.t1ToContinue s.cancelRequested ∧
      (s.counter < stop ∨ s.t1.signalsCount = true)
  | .cancel => Counting s.t1 s.t1ToContinue s.cancelRequested ∧ stop ≤ s.counter
  | .unlockStop | .exiting | .terminated =>
      s.t1 ≠ .notCreated ∧ s.t1 ≠ .waitContinue ∧ s.t1ToContinue = true ∧ stop ≤ s.counter

structure Inv (stop max : ℕ) (s : State) : Prop where
  guards : Guards s.mutex s.inside
  t1 : T1At max s s.t1
  main : MainAt stop s s.mainPc
  unlocks : s.badUnlock = false

variable {stop max : ℕ} {s t : State}

theorem inv_initial (stop max : ℕ) : Inv stop max State.initial := by
  refine ⟨?_, ⟨rfl, rfl⟩, ⟨rfl, rfl, rfl⟩, rfl⟩
  intro τ
  cases τ <;> simp [State.inside, State.initial, MainPc.inside, T1Pc.inside]

theorem inside_main (ht : t.t1.inside = s.t1.inside) (τ : Tid) (hτ : τ ≠ .main) :
    t.inside τ ↔ s.inside τ := by
  cases τ with
  | main => exact absurd rfl hτ
  | t1 => simp only [State.inside, ht]

theorem inside_t1 (hm : t.mainPc.inside = s.mainPc.inside) (τ : Tid) (hτ : τ ≠ .t1) :
    t.inside τ ↔ s.inside τ := by
  cases τ with
  | main => simp only [State.inside, hm]
  | t1 => exact absurd rfl hτ

theorem inside_same (hm : t.mainPc.inside = s.mainPc.inside) (ht : t.t1.inside = s.t1.inside)
    (τ : Tid) : t.inside τ ↔ s.inside τ := by
  cases τ with
  | main => simp only [State.inside, hm]
  | t1 => simp only [State.inside, ht]

theorem wakeT1_inside (s : State) : s.wakeT1.inside = s.t1.inside := by
  unfold State.wakeT1
  split_ifs with hw
  · rw [hw]
    rfl
  · rfl

theorem wakeMain_inside (s : State) : s.wakeMain.inside = s.mainPc.inside := by
  unfold State.wakeMain
  cases s.mainPc <;> rfl

theorem T1At.mono {pc : T1Pc} (h : T1At max s pc) (hc : t.counter = s.counter)
    (hh : t.handlers = s.handlers) (hr : s.t1Ready = true → t.t1Ready = true)
    (hp : s.t1ToContinue = true → t.t1ToContinue = true)
    (hq : s.cancelRequested = true → t.cancelRequested = true) : T1At max t pc := by
  cases pc with
  | notCreated | printfStarted | lockReady | setReady => exact ⟨hc.trans h.1, hh.trans h.2⟩
  | signalReady | testContinue | waitContinue | relockContinue =>
    exact ⟨hc.trans h.1, hh.trans h.2.1, hr h.2.2⟩
  | unlockContinue | printfStarting | printfEnded | exiting =>
    exact ⟨hc.trans h.1, hh.trans h.2.1, hr h.2.2.1, hp h.2.2.2⟩
  | lockCount | cleanupPush | count | signalCount | unlockCount | cleanupPop | testcancel =>
    exact ⟨⟨hc.trans h.1.1, h.1.2⟩, hh.trans h.2.1, hr h.2.2.1, hp h.2.2.2⟩
  | relockCancel => exact h
  | handlers | terminated =>
    obtain ⟨hor, hle, hn, hready, hcont⟩ := h
    refine ⟨hor.imp hq hc.trans, hc.trans_le hle, hh.trans hn, hr hready, hp hcont⟩

theorem T1At.willSignal (h : T1At max s s.t1) (hnew : s.t1 ≠ .notCreated)
    (hr : s.t1Ready = false) : s.t1.willSignal = true := by
  cases hpc : s.t1 <;> rw [hpc] at h hnew
  case notCreated => exact absurd rfl hnew
  case printfStarted | lockReady | setReady => rfl
  case signalReady => rfl
  case relockCancel => exact h.elim
  case testContinue | waitContinue | relockContinue => cases hr.symm.trans h.2.2
  case handlers | terminated => cases hr.symm.trans h.2.2.2.1
  all_goals cases hr.symm.trans h.2.2.1

theorem wakeT1_awake (hnew : s.t1 ≠ .notCreated) :
    s.wakeT1 ≠ .notCreated ∧ s.wakeT1 ≠ .waitContinue := by
  unfold State.wakeT1
  split_ifs with hw
  · exact ⟨nofun, nofun⟩
  · exact ⟨hnew, hw⟩

theorem T1At.wake (h : T1At max s s.t1) : T1At max s s.wakeT1 := by
  unfold State.wakeT1
  split_ifs with hw
  · rwa [hw] at h
  · exact h

theorem inv_main (h : Inv stop max s) (hm : MainMove stop s t) : Inv stop max t := by
  obtain ⟨hg, ht, hmain, hu⟩ := h
  cases hm with
  | creates hpc =>
    rw [hpc] at hmain
    obtain ⟨hnew, hcont, hreq⟩ := hmain
    rw [hnew] at ht
    refine ⟨hg.congr (inside_same ?_ ?_), ht, ⟨nofun, hcont, hreq⟩, hu⟩
    · rw [hpc]
      rfl
    · rw [hnew]
      rfl
  | locks pc hl ho =>
    rw [ho] at hg
    refine ⟨hg.acquire ?_ (inside_main rfl), ht, ?_, hu⟩
    · change pc.inside = true
      generalize s.mainPc = p at hl
      cases hl <;> rfl
    · change MainAt stop s pc
      generalize s.mainPc = p at hl hmain
      cases hl <;> exact hmain
  | unlocks pc hl ho =>
    rw [ho] at hg
    refine ⟨hg.release ?_ (inside_main rfl), ht, ?_, hu⟩
    · change ¬ pc.inside = true
      generalize s.mainPc = p at hl
      cases hl <;> exact Bool.false_ne_true
    · change MainAt stop s pc
      generalize s.mainPc = p at hl hmain
      cases hl with
      | waitReady hr => exact ⟨hmain, ht.willSignal hmain.created hr⟩
      | unlockContinue => exact hmain
      | waitStop hc => exact ⟨hmain, .inl hc⟩
      | unlockStop => exact hmain
  | continues hpc =>
    rw [hpc] at hmain
    obtain ⟨hb, hr⟩ := hmain
    refine ⟨hg.congr (inside_same ?_ rfl), ht.mono rfl rfl id (fun _ => rfl) id,
      ⟨hb.created, rfl, hb.requested⟩, hu⟩
    rw [hpc]
    rfl
  | signals hpc =>
    rw [hpc] at hmain
    obtain ⟨hnew, hcont, hreq⟩ := hmain
    refine ⟨hg.congr (inside_same ?_ (wakeT1_inside s)), ht.wake,
      ⟨(wakeT1_awake hnew).1, (wakeT1_awake hnew).2, hcont, hreq⟩, hu⟩
    rw [hpc]
    rfl
  | cancels hpc =>
    rw [hpc] at hmain
    obtain ⟨hc, hle⟩ := hmain
    refine ⟨hg.congr (inside_same ?_ rfl), ht.mono rfl rfl id id (fun _ => rfl),
      ⟨hc.created, hc.awake, hc.toContinue, hle⟩, hu⟩
    rw [hpc]
    rfl
  | goes pc hgo =>
    refine ⟨hg.congr (inside_same ?_ rfl), ht, ?_, hu⟩
    · change pc.inside = s.mainPc.inside
      generalize s.mainPc = p at hgo
      cases hgo <;> rfl
    · change MainAt stop s pc
      generalize s.mainPc = p at hgo hmain
      cases hgo with
      | detach => exact hmain
      | ready hr => exact ⟨hmain, hr⟩
      | stop hc => exact ⟨hmain, hc⟩
      | exits => exact hmain
      | spuriousReady => exact hmain.1
      | spuriousStop => exact hmain.1

theorem mainAt_t1 {pc : MainPc} (h : MainAt stop s pc)
    (hcont : t.t1ToContinue = s.t1ToContinue) (hreq : t.cancelRequested = s.cancelRequested)
    (hready : s.t1Ready = true → t.t1Ready = true) (hcount : s.counter ≤ t.counter)
    (hnew : s.t1 ≠ .notCreated ∧ t.t1 ≠ .notCreated)
    (hwait : s.t1ToContinue = true → t.t1 ≠ .waitContinue)
    (hsig : pc = .waitReady → s.t1.willSignal = true → t.t1.willSignal = true)
    (hstop : pc = .waitStop → s.counter < stop ∨ s.t1.signalsCount = true →
      t.counter < stop ∨ t.t1.signalsCount = true) : MainAt stop t pc := by
  have hbefore (hb : Before s.t1 s.t1ToContinue s.cancelRequested) :
      Before t.t1 t.t1ToContinue t.cancelRequested :=
    ⟨hnew.2, hcont.trans hb.toContinue, hreq.trans hb.requested⟩
  have hcounting (hc : Counting s.t1 s.t1ToContinue s.cancelRequested) :
      Counting t.t1 t.t1ToContinue t.cancelRequested :=
    ⟨hnew.2, hwait hc.toContinue, hcont.trans hc.toContinue, hreq.trans hc.requested⟩
  cases pc with
  | create => exact absurd h.1 hnew.1
  | detach | lockReady | testReady | relockReady => exact hbefore h
  | waitReady => exact ⟨hbefore h.1, hsig rfl h.2⟩
  | setContinue => exact ⟨hbefore h.1, hready h.2⟩
  | signalContinue => exact ⟨hnew.2, hcont.trans h.2.1, hreq.trans h.2.2⟩
  | unlockContinue | lockStop | testStop | relockStop => exact hcounting h
  | waitStop => exact ⟨hcounting h.1, hstop rfl h.2⟩
  | cancel => exact ⟨hcounting h.1, le_trans h.2 hcount⟩
  | unlockStop | exiting | terminated =>
    exact ⟨hnew.2, hwait h.2.2.1, hcont.trans h.2.2.1, le_trans h.2.2.2 hcount⟩

theorem mainAt_silent {pc : MainPc} (h : MainAt stop s pc)
    (hcont : t.t1ToContinue = s.t1ToContinue) (hreq : t.cancelRequested = s.cancelRequested)
    (hready : s.t1Ready = true → t.t1Ready = true) (hcount : t.counter = s.counter)
    (hnew : s.t1 ≠ .notCreated ∧ t.t1 ≠ .notCreated)
    (hwait : s.t1ToContinue = true → t.t1 ≠ .waitContinue)
    (hsig : s.t1.willSignal = true → t.t1.willSignal = true)
    (hsc : s.t1.signalsCount = false) : MainAt stop t pc := by
  apply mainAt_t1 h hcont hreq hready hcount.ge hnew hwait (fun _ => hsig)
  rintro - (hlt | hs)
  · exact .inl (hcount.trans_lt hlt)
  · cases hsc.symm.trans hs

structure Silent (p q : T1Pc) : Prop where
  created : q ≠ .notCreated
  awake : q ≠ .waitContinue
  willSignal : p.willSignal = true → q.willSignal = true
  signalsCount : p.signalsCount = false

theorem inv_silent {pc : T1Pc} {ready : Bool} {k : ℕ} (h : Inv stop max s)
    (hnew : s.t1 ≠ .notCreated) (hgo : Silent s.t1 pc) (hin : pc.inside = s.t1.inside)
    (hready : s.t1Ready = true → ready = true)
    (ht : T1At max { s with t1 := pc, t1Ready := ready, handlers := k } pc) :
    Inv stop max { s with t1 := pc, t1Ready := ready, handlers := k } := by
  refine ⟨h.guards.congr (inside_same rfl hin), ht, ?_, h.unlocks⟩
  exact mainAt_silent h.main rfl rfl hready rfl ⟨hnew, hgo.created⟩ (fun _ => hgo.awake)
    hgo.willSignal hgo.signalsCount

theorem mainAt_wake (h : MainAt stop s s.mainPc) (pc : T1Pc) (hnew : s.t1 ≠ .notCreated)
    (hpc : pc ≠ .notCreated ∧ pc ≠ .waitContinue) :
    MainAt stop { s with mainPc := s.wakeMain, t1 := pc } s.wakeMain := by
  have hframe {q : MainPc} (hq : MainAt stop s q) (h1 : q ≠ .waitReady) (h2 : q ≠ .waitStop) :
      MainAt stop { s with mainPc := s.wakeMain, t1 := pc } q :=
    mainAt_t1 hq rfl rfl id (le_refl _) ⟨hnew, hpc.1⟩ (fun _ => hpc.2)
      (fun he => absurd he h1) (fun he => absurd he h2)
  unfold State.wakeMain at hframe ⊢
  cases hm : s.mainPc <;> rw [hm] at h hframe <;> simp only at hframe ⊢
  case waitReady => exact hframe (q := .relockReady) h.1 nofun nofun
  case waitStop => exact hframe (q := .relockStop) h.1 nofun nofun
  all_goals exact hframe h nofun nofun

theorem counter_of_requested (h : MainAt stop s s.mainPc) (hr : s.cancelRequested = true) :
    stop ≤ s.counter := by
  cases hpc : s.mainPc <;> rw [hpc] at h
  case create => cases hr.symm.trans h.2.2
  case detach | lockReady | testReady | relockReady => cases hr.symm.trans h.requested
  case waitReady | setContinue => cases hr.symm.trans h.1.requested
  case signalContinue => cases hr.symm.trans h.2.2
  case unlockContinue | lockStop | testStop | relockStop => cases hr.symm.trans h.requested
  case waitStop => cases hr.symm.trans h.1.requested
  case cancel => exact h.2
  case unlockStop | exiting | terminated => exact h.2.2.2

theorem t1At_loop {i : ℕ} (hc : s.counter = i) (hi : i ≤ max) (hh : s.handlers = 0)
    (hr : s.t1Ready = true) (hp : s.t1ToContinue = true) :
    T1At max (s.gotoT1 (.loop max i)) (.loop max i) := by
  unfold T1Pc.loop
  split_ifs with hlt
  · exact ⟨⟨hc, hlt⟩, hh, hr, hp⟩
  · exact ⟨(by change s.counter = max; omega), hh, hr, hp⟩

theorem loop_view (max i : ℕ) : (T1Pc.loop max i).inside = false ∧
    T1Pc.loop max i ≠ .notCreated ∧ T1Pc.loop max i ≠ .waitContinue := by
  unfold T1Pc.loop
  split_ifs <;> exact ⟨rfl, nofun, nofun⟩

theorem inv_goes {pc : T1Pc} (h : Inv stop max s) (hnew : s.t1 ≠ .notCreated)
    (hgo : T1Goes max s s.t1 pc) : Inv stop max (s.gotoT1 pc) := by
  have ht := h.t1
  have hpc : Silent s.t1 pc ∧ pc.inside = s.t1.inside := by
    generalize s.t1 = p at hgo
    cases hgo with
    | starting | again =>
      exact ⟨⟨(loop_view _ _).2.1, (loop_view _ _).2.2, nofun, rfl⟩, (loop_view _ _).1⟩
    | started => exact ⟨⟨nofun, nofun, fun _ => rfl, rfl⟩, rfl⟩
    | continues | cancelled | ended | exits | spurious =>
      exact ⟨⟨nofun, nofun, nofun, rfl⟩, rfl⟩
  refine inv_silent h hnew hpc.1 hpc.2 id ?_
  change T1At max (s.gotoT1 pc) pc
  generalize hq : s.t1 = p at hgo
  rw [hq] at ht
  cases hgo with
  | started => exact ht
  | continues hc => exact ⟨ht.1, ht.2.1, ht.2.2, hc⟩
  | starting => exact t1At_loop ht.1 (Nat.zero_le max) ht.2.1 ht.2.2.1 ht.2.2.2
  | again i hr => exact t1At_loop ht.1.1 ht.1.2 ht.2.1 ht.2.2.1 ht.2.2.2
  | cancelled i hr =>
    obtain ⟨⟨hc, hi⟩, hh, hready, hcont⟩ := ht
    exact ⟨.inl hr, hc.trans_le hi, hh, hready, hcont⟩
  | ended => exact ht
  | exits =>
    obtain ⟨hc, hh, hready, hcont⟩ := ht
    exact ⟨.inr hc, hc.le, hh, hready, hcont⟩
  | spurious => exact ht

theorem inv_locks {pc : T1Pc} (h : Inv stop max s) (hnew : s.t1 ≠ .notCreated)
    (hl : T1Locks s.t1 pc) (ho : s.mutex = none) :
    Inv stop max { s with mutex := some .t1, t1 := pc } := by
  have hg := h.guards
  have ht := h.t1
  rw [ho] at hg
  have hpc : Silent s.t1 pc ∧ pc.inside = true := by
    generalize s.t1 = p at hl
    cases hl with
    | lockReady => exact ⟨⟨nofun, nofun, fun _ => rfl, rfl⟩, rfl⟩
    | relockContinue | lockCount => exact ⟨⟨nofun, nofun, nofun, rfl⟩, rfl⟩
  obtain ⟨hgo, hin⟩ := hpc
  refine ⟨hg.acquire hin (inside_t1 rfl), ?_, ?_, h.unlocks⟩
  · change T1At max s pc
    generalize s.t1 = p at hl ht
    cases hl <;> exact ht
  · exact mainAt_silent h.main rfl rfl id rfl ⟨hnew, hgo.created⟩ (fun _ => hgo.awake)
      hgo.willSignal hgo.signalsCount

theorem inv_unlocks {pc : T1Pc} (h : Inv stop max s) (hnew : s.t1 ≠ .notCreated)
    (hl : T1Unlocks s s.t1 pc) (ho : s.mutex = some .t1) :
    Inv stop max { s with mutex := none, t1 := pc } := by
  have hg := h.guards
  have ht := h.t1
  rw [ho] at hg
  have hpc : pc.inside = false ∧ pc ≠ .notCreated ∧
      (s.t1ToContinue = true → pc ≠ .waitContinue) ∧ s.t1.willSignal = false ∧
      s.t1.signalsCount = false := by
    generalize s.t1 = p at hl
    cases hl with
    | waitContinue hc =>
      refine ⟨rfl, nofun, ?_, rfl, rfl⟩
      exact fun ht => absurd (hc.symm.trans ht) Bool.false_ne_true
    | unlockContinue | unlockCount => exact ⟨rfl, nofun, fun _ => nofun, rfl, rfl⟩
  obtain ⟨hin, hpnew, hpwait, hsig, hsc⟩ := hpc
  refine ⟨hg.release ?_ (inside_t1 rfl), ?_, ?_, h.unlocks⟩
  · change ¬ pc.inside = true
    rw [hin]
    exact Bool.false_ne_true
  · change T1At max s pc
    generalize s.t1 = p at hl ht
    cases hl <;> exact ht
  · refine mainAt_silent h.main rfl rfl id rfl ⟨hnew, hpnew⟩ hpwait ?_ hsc
    intro hs
    cases hsig.symm.trans hs

theorem inv_signals {pc : T1Pc} (h : Inv stop max s) (hnew : s.t1 ≠ .notCreated)
    (hl : T1Signals s.t1 pc) : Inv stop max { s with mainPc := s.wakeMain, t1 := pc } := by
  have ht := h.t1
  have hpc : pc.inside = s.t1.inside ∧ pc ≠ .notCreated ∧ pc ≠ .waitContinue := by
    generalize s.t1 = p at hl
    cases hl <;> exact ⟨rfl, nofun, nofun⟩
  obtain ⟨hin, hawake⟩ := hpc
  refine ⟨h.guards.congr (inside_same (wakeMain_inside s) hin), ?_, mainAt_wake h.main pc hnew hawake,
    h.unlocks⟩
  change T1At max s pc
  generalize s.t1 = p at hl ht
  cases hl <;> exact ht

theorem T1Move.created (hm : T1Move max s t) : s.t1 ≠ .notCreated := by
  intro hpc
  cases hm with
  | locks _ hl | unlocks _ hl | signals _ hl | goes _ hl => rw [hpc] at hl; cases hl
  | cancelled _ hl => simp [hpc] at hl
  | ready hl | pushes _ hl | counts _ hl | pops _ hl | cancelledWaiting _ hl | relocksCancel hl
  | handles hl => cases hpc.symm.trans hl

theorem inv_t1 (hstop : 1 ≤ stop) (h : Inv stop max s) (hm : T1Move max s t) :
    Inv stop max t := by
  have hnew := hm.created
  have ht := h.t1
  cases hm with
  | locks pc hl ho => exact inv_locks h hnew hl ho
  | unlocks pc hl ho => exact inv_unlocks h hnew hl ho
  | signals pc hl => exact inv_signals h hnew hl
  | goes pc hgo => exact inv_goes h hnew hgo
  | ready hpc =>
    rw [hpc] at ht
    refine inv_silent h hnew ?_ ?_ (fun _ => rfl) ⟨ht.1, ht.2, rfl⟩
    · rw [hpc]
      exact ⟨nofun, nofun, fun _ => rfl, rfl⟩
    · rw [hpc]
      rfl
  | pushes i hpc =>
    rw [hpc] at ht
    obtain ⟨hc, hh, hready, hcont⟩ := ht
    refine inv_silent h hnew ?_ ?_ id ⟨hc, congrArg (· + 1) hh, hready, hcont⟩
    · rw [hpc]
      exact ⟨nofun, nofun, nofun, rfl⟩
    · rw [hpc]
      rfl
  | counts i hpc =>
    rw [hpc] at ht
    obtain ⟨⟨hc, hi⟩, hh, hready, hcont⟩ := ht
    refine ⟨h.guards.congr (inside_same rfl ?_), ⟨⟨congrArg (· + 1) hc, hi⟩, hh, hready, hcont⟩, ?_,
      h.unlocks⟩
    · rw [hpc]
      rfl
    · refine mainAt_t1 h.main rfl rfl id (Nat.le_succ _) ⟨hnew, nofun⟩ (fun _ => nofun) ?_ ?_
      · rw [hpc]
        exact fun _ => nofun
      · exact fun _ _ => .inr rfl
  | pops i hpc =>
    rw [hpc] at ht
    obtain ⟨hc, hh, hready, hcont⟩ := ht
    refine inv_silent h hnew ?_ ?_ id ⟨hc, congrArg (· - 1) hh, hready, hcont⟩
    · rw [hpc]
      exact ⟨nofun, nofun, nofun, rfl⟩
    · rw [hpc]
      rfl
  | cancelled hr hpc =>
    -- A request comes after the first round, so only the last `printf` is left to act at.
    have hle := counter_of_requested h.main hr
    rcases hpc with hpc | hpc | hpc | hpc <;> rw [hpc] at ht
    · obtain ⟨hc, hh, hready, hcont⟩ := ht
      refine inv_silent h hnew ?_ ?_ id ⟨.inl hr, hc.le, hh, hready, hcont⟩
      · rw [hpc]
        exact ⟨nofun, nofun, nofun, rfl⟩
      · rw [hpc]
        rfl
    all_goals
      have hc := ht.1
      omega
  | cancelledWaiting hr hpc =>
    rw [hpc] at ht
    have hle := counter_of_requested h.main hr
    have hc := ht.1
    omega
  | relocksCancel hpc =>
    rw [hpc] at ht
    exact ht.elim
  | handles hpc =>
    rw [hpc] at ht
    have hrun : s.runHandlers = s.gotoT1 .terminated := by
      unfold State.runHandlers
      rw [ht.2.2.1]
    rw [hrun]
    refine inv_silent h hnew ?_ ?_ id ht
    · rw [hpc]
      exact ⟨nofun, nofun, nofun, rfl⟩
    · rw [hpc]
      rfl

theorem inv_reachable (hstop : 1 ≤ stop) (hr : (cancelling stop max).Reachable s) :
    Inv stop max s := by
  apply System.Reachable.induct _ _ hr
  · rintro _ rfl
    exact inv_initial stop max
  · intro s a t _ h hn
    rcases next_move hn with hm | hm
    · exact inv_main h hm
    · exact inv_t1 hstop h hm

end LinuxSystemProgramming.Cancellation
