import LinuxSystemProgramming.HandOver.Moves

namespace LinuxSystemProgramming.HandOver

open Mutex Transition

namespace MainPc

def starting : MainPc → Bool
  | .malloc | .initMutex | .initCondFromMain | .initCondFromT1 | .initFields | .create => true
  | .failed => true
  | _ => false

def mallocd : MainPc → Bool
  | .malloc | .failed => false
  | _ => true

def made : MainPc → Object → Bool
  | .malloc, _ | .initMutex, _ | .failed, _ => false
  | .initCondFromMain, o => decide (o = .mutex)
  | .initCondFromT1, o => decide (o ≠ .condFromT1)
  | _, _ => true

def inside : MainPc → Bool
  | .testReady | .waitReady | .setProceed | .signalProceed | .unlock => true
  | _ => false

def past : MainPc → Bool
  | .forget | .exiting | .terminated => true
  | _ => false

end MainPc

namespace T1Pc

def inside : T1Pc → Bool
  | .setReady | .signalReady | .testProceed | .waitProceed | .unlock => true
  | _ => false

def willSignal : T1Pc → Bool
  | .started | .lock | .setReady | .signalReady => true
  | _ => false

def working : T1Pc → Bool
  | .unlock | .received | .printArg | .workDone | .destroyMutex | .destroyCondFromMain => true
  | .destroyCondFromT1 | .free | .exiting | .terminated => true
  | _ => false

def destroyed : T1Pc → Object → Bool
  | .destroyCondFromMain, o => decide (o = .mutex)
  | .destroyCondFromT1, o => decide (o ≠ .condFromT1)
  | .free, _ | .exiting, _ | .terminated, _ => true
  | _, _ => false

def freed : T1Pc → Bool
  | .exiting | .terminated => true
  | _ => false

end T1Pc

def State.inside (s : State) : Tid → Prop
  | .main => s.mainPc.inside = true
  | .t1 => s.t1.inside = true

structure Ledger (s : State) : Prop where
  live (o : Object) : s.live o = (s.mainPc.made o && !s.t1.destroyed o)
  destroys (o : Object) : s.destroys o = (s.t1.destroyed o).toNat
  allocated : s.allocated = (s.mainPc.mallocd && !s.t1.freed)
  frees : s.frees = s.t1.freed.toNat

def MainAt (s : State) : MainPc → Prop
  | .malloc | .initMutex | .initCondFromMain | .initCondFromT1 | .initFields | .failed =>
      s.t1 = .notCreated
  | .create => s.t1 = .notCreated ∧ s.data.t1Ready = false ∧ s.data.t1ToProceed = false ∧
      s.data.arg = 42
  | .detach | .lock | .testReady | .relockReady | .setProceed =>
      s.t1 ≠ .notCreated ∧ s.data.t1ToProceed = false
  | .waitReady =>
      s.t1 ≠ .notCreated ∧ s.data.t1ToProceed = false ∧ s.data.t1Ready = false
  | .waitingReady =>
      s.t1 ≠ .notCreated ∧ s.data.t1ToProceed = false ∧ s.t1.willSignal = true
  | .signalProceed => s.t1 ≠ .notCreated ∧ s.data.t1ToProceed = true
  | .unlock | .forget | .exiting | .terminated =>
      s.t1 ≠ .notCreated ∧ s.data.t1ToProceed = true ∧ s.t1 ≠ .waitingProceed

def T1At (s : State) : T1Pc → Prop
  | .notCreated | .started | .lock | .setReady => True
  | .signalReady | .testProceed | .waitingProceed | .relockProceed => s.data.t1Ready = true
  | .waitProceed => s.data.t1Ready = true ∧ s.data.t1ToProceed = false
  | .unlock | .received | .printArg | .workDone | .destroyMutex | .destroyCondFromMain
  | .destroyCondFromT1 | .free | .exiting | .terminated =>
      s.data.t1Ready = true ∧ s.data.t1ToProceed = true ∧ s.mainPc.past = true

structure Inv (s : State) : Prop where
  ledger : Ledger s
  guards : s.mainPc.made .mutex = true → Guards s.data.mutex s.inside
  main : MainAt s s.mainPc
  t1 : T1At s s.t1
  arg : s.mainPc.starting = false → s.data.arg = 42
  printed : ∀ v ∈ s.printed, v = 42

variable {s t : State}

theorem inv_initial (d : SharedData) : Inv (.initial d) := by
  constructor
  · constructor
    · intro o
      rfl
    · intro o
      rfl
    · rfl
    · rfl
  · intro hmade
    cases hmade
  · rfl
  · trivial
  · intro hs
    cases hs
  · intro v hv
    cases hv

theorem Inv.notCreated (h : Inv s) (hs : s.mainPc.starting = true) : s.t1 = .notCreated := by
  have hm := h.main
  cases hpc : s.mainPc <;> rw [hpc] at hm hs
  case create => exact hm.1
  case malloc | initMutex | initCondFromMain | initCondFromT1 | initFields | failed => exact hm
  all_goals cases hs

theorem Inv.inits {o : Object} {pc : MainPc} (h : Inv s) (hi : MainInits o s.mainPc pc) :
    s.t1 = .notCreated := by
  apply h.notCreated
  generalize s.mainPc = p at hi
  cases hi <;> rfl

theorem Inv.started (h : Inv s) (hnew : s.t1 ≠ .notCreated) : s.mainPc.starting = false :=
  eq_false_of_ne_true (fun hs => hnew (h.notCreated hs))

theorem made_of_started {pc : MainPc} (hs : pc.starting = false) (o : Object) :
    pc.made o = true := by
  cases pc <;> first | rfl | cases hs

theorem Inv.guarded (h : Inv s) (hnew : s.t1 ≠ .notCreated) : Guards s.data.mutex s.inside :=
  h.guards (made_of_started (h.started hnew) _)

theorem Inv.exclusive (h : Inv s) (hm : s.mainPc.inside = true) (ht : s.t1.inside = true) :
    False := by
  have hnew : s.t1 ≠ .notCreated := by
    intro hpc
    rw [hpc] at ht
    cases ht
  have hg := h.guarded hnew
  cases ((hg .main).mp hm).symm.trans ((hg .t1).mp ht)

theorem inside_main (ht : t.t1.inside = s.t1.inside) (τ : Tid) (hτ : τ ≠ .main) :
    t.inside τ ↔ s.inside τ := by
  cases τ with
  | main => exact absurd rfl hτ
  | t1 => simp only [State.inside, ht]

theorem inside_t1 (hm : t.mainPc.inside = s.mainPc.inside) (τ : Tid) (hτ : τ ≠ .t1) :
    t.inside τ ↔ s.inside τ := by
  cases τ with
  | main => simp only [State.inside, hm]
  | t1 => exact absurd rfl hτ

theorem inside_same (hm : t.mainPc.inside = s.mainPc.inside) (ht : t.t1.inside = s.t1.inside)
    (τ : Tid) : t.inside τ ↔ s.inside τ := by
  cases τ with
  | main => simp only [State.inside, hm]
  | t1 => simp only [State.inside, ht]

theorem MainPc.wake_same (c : Object) (pc : MainPc) : (pc.wake c).inside = pc.inside ∧
    (∀ o, (pc.wake c).made o = pc.made o) ∧ (pc.wake c).mallocd = pc.mallocd ∧
    (pc.wake c).past = pc.past ∧ (pc.wake c).starting = pc.starting := by
  cases pc
  case waitingReady =>
    unfold MainPc.wake
    split_ifs <;> exact ⟨rfl, fun _ => rfl, rfl, rfl, rfl⟩
  all_goals exact ⟨rfl, fun _ => rfl, rfl, rfl, rfl⟩

theorem T1Pc.wake_same (c : Object) (pc : T1Pc) : (pc.wake c).inside = pc.inside ∧
    (∀ o, (pc.wake c).destroyed o = pc.destroyed o) ∧ (pc.wake c).freed = pc.freed := by
  cases pc
  case waitingProceed =>
    unfold T1Pc.wake
    split_ifs <;> exact ⟨rfl, fun _ => rfl, rfl⟩
  all_goals exact ⟨rfl, fun _ => rfl, rfl⟩

theorem T1Pc.wake_awake {pc : T1Pc} (hnew : pc ≠ .notCreated) :
    pc.wake .condFromMain ≠ .notCreated ∧ pc.wake .condFromMain ≠ .waitingProceed := by
  cases pc
  case notCreated => exact absurd rfl hnew
  all_goals
    constructor
    · decide
    · decide

theorem Ledger.congr (h : Ledger s) (hlive : t.live = s.live) (hdes : t.destroys = s.destroys)
    (hall : t.allocated = s.allocated) (hfrees : t.frees = s.frees)
    (hm : (∀ o, t.mainPc.made o = s.mainPc.made o) ∧ t.mainPc.mallocd = s.mainPc.mallocd)
    (ht : (∀ o, t.t1.destroyed o = s.t1.destroyed o) ∧ t.t1.freed = s.t1.freed) : Ledger t := by
  constructor
  · intro o
    rw [hlive, hm.1, ht.1, h.live]
  · intro o
    rw [hdes, ht.1, h.destroys]
  · rw [hall, hm.2, ht.2, h.allocated]
  · rw [hfrees, ht.2, h.frees]

@[simp] theorem initObject_t1 (s : State) (o : Object) : (s.initObject o).t1 = s.t1 := by
  cases o <;> rfl

@[simp] theorem initObject_live (s : State) (o : Object) :
    (s.initObject o).live = Function.update s.live o true := by
  cases o <;> rfl

theorem initObject_rest (s : State) (o : Object) : (s.initObject o).destroys = s.destroys ∧
    (s.initObject o).allocated = s.allocated ∧ (s.initObject o).frees = s.frees ∧
    (s.initObject o).printed = s.printed := by
  cases o <;> exact ⟨rfl, rfl, rfl, rfl⟩

theorem ledger_inits {o : Object} {pc : MainPc} (h : Inv s) (hi : MainInits o s.mainPc pc) :
    Ledger ((s.initObject o).goto pc) := by
  obtain ⟨hdes, hall, hfrees, -⟩ := initObject_rest s o
  have hnew := h.inits hi
  have hl := h.ledger
  constructor
  · intro o'
    change (s.initObject o).live o' = (pc.made o' && !(s.initObject o).t1.destroyed o')
    rw [initObject_live, initObject_t1]
    have ho := hl.live o'
    rw [hnew] at ho ⊢
    generalize s.mainPc = p at hi ho
    by_cases he : o' = o
    · subst he
      rw [Function.update_self]
      cases hi <;> rfl
    · rw [Function.update_of_ne he, ho]
      cases hi <;> cases o' <;> first | rfl | exact absurd rfl he
  · intro o'
    change (s.initObject o).destroys o' = ((s.initObject o).t1.destroyed o').toNat
    rw [hdes, initObject_t1]
    exact hl.destroys o'
  · change (s.initObject o).allocated = (pc.mallocd && !(s.initObject o).t1.freed)
    rw [hall, initObject_t1, hl.allocated]
    generalize s.mainPc = p at hi
    cases hi <;> rfl
  · change (s.initObject o).frees = (s.initObject o).t1.freed.toNat
    rw [hfrees, initObject_t1]
    exact hl.frees

theorem ledger_main (h : Inv s) (hm : MainMove s t) : Ledger t := by
  have hl := h.ledger
  cases hm with
  | mallocs hpc =>
    have hnew := h.notCreated (by rw [hpc]; rfl)
    obtain ⟨hlive, hdes, hall, hfrees⟩ := hl
    rw [hpc] at hlive
    refine ⟨hlive, hdes, ?_, hfrees⟩
    change true = (true && !s.t1.freed)
    rw [hnew]
    rfl
  | fails hpc =>
    obtain ⟨hlive, hdes, hall, hfrees⟩ := hl
    rw [hpc] at hlive hall
    exact ⟨hlive, hdes, hall, hfrees⟩
  | inits o pc hi => exact ledger_inits h hi
  | fills hpc =>
    refine hl.congr rfl rfl rfl rfl ?_ ⟨fun _ => rfl, rfl⟩
    rw [hpc]
    exact ⟨fun _ => rfl, rfl⟩
  | creates hpc =>
    have hnew := h.notCreated (by rw [hpc]; rfl)
    refine hl.congr rfl rfl rfl rfl ?_ ?_
    · rw [hpc]
      exact ⟨fun _ => rfl, rfl⟩
    · rw [hnew]
      exact ⟨fun _ => rfl, rfl⟩
  | locks pc hlk =>
    refine hl.congr rfl rfl rfl rfl ?_ ⟨fun _ => rfl, rfl⟩
    change (∀ o, pc.made o = s.mainPc.made o) ∧ pc.mallocd = s.mainPc.mallocd
    generalize s.mainPc = p at hlk
    cases hlk <;> exact ⟨fun _ => rfl, rfl⟩
  | unlocks pc hu =>
    refine hl.congr rfl rfl rfl rfl ?_ ⟨fun _ => rfl, rfl⟩
    change (∀ o, pc.made o = s.mainPc.made o) ∧ pc.mallocd = s.mainPc.mallocd
    generalize s.mainPc = p at hu
    cases hu <;> exact ⟨fun _ => rfl, rfl⟩
  | proceeds hpc =>
    refine hl.congr rfl rfl rfl rfl ?_ ⟨fun _ => rfl, rfl⟩
    rw [hpc]
    exact ⟨fun _ => rfl, rfl⟩
  | signals hpc =>
    refine hl.congr rfl rfl rfl rfl ?_ ?_
    · rw [hpc]
      exact ⟨fun _ => rfl, rfl⟩
    · exact (T1Pc.wake_same _ _).2
  | goes pc hg =>
    refine hl.congr rfl rfl rfl rfl ?_ ⟨fun _ => rfl, rfl⟩
    change (∀ o, pc.made o = s.mainPc.made o) ∧ pc.mallocd = s.mainPc.mallocd
    generalize s.mainPc = p at hg
    cases hg <;> exact ⟨fun _ => rfl, rfl⟩

theorem guards_main (h : Inv s) (hm : MainMove s t) (hmade : t.mainPc.made .mutex = true) :
    Guards t.data.mutex t.inside := by
  have hg := h.guards
  cases hm with
  | mallocs | fails => cases hmade
  | inits o pc hi =>
    have hnew := h.inits hi
    have hout {q : MainPc} (hq : q.inside = false) (τ : Tid) :
        ¬ ((s.initObject o).goto q).inside τ := by
      cases τ with
      | main => exact fun hin => nomatch hq.symm.trans hin
      | t1 =>
        simp only [State.inside, State.goto, initObject_t1, hnew]
        exact nofun
    generalize hp : s.mainPc = p at hi
    cases hi with
    | mutex =>
      intro τ
      constructor
      · exact fun hin => absurd hin (hout rfl τ)
      · exact fun ho => nomatch ho
    | condFromMain =>
      rw [hp] at hg
      refine (hg rfl).congr (inside_same ?_ rfl)
      rw [hp]
      rfl
    | condFromT1 =>
      rw [hp] at hg
      refine (hg rfl).congr (inside_same ?_ rfl)
      rw [hp]
      rfl
  | fills hpc =>
    rw [hpc] at hg
    refine (hg rfl).congr (inside_same ?_ rfl)
    rw [hpc]
    rfl
  | creates hpc =>
    have hnew := h.notCreated (by rw [hpc]; rfl)
    rw [hpc] at hg
    refine (hg rfl).congr (inside_same ?_ ?_)
    · rw [hpc]
      rfl
    · rw [hnew]
      rfl
  | locks pc hl ho =>
    have hs : s.mainPc.made .mutex = true ∧ pc.inside = true := by
      generalize s.mainPc = p at hl
      cases hl <;> exact ⟨rfl, rfl⟩
    rw [ho] at hg
    exact (hg hs.1).acquire hs.2 (inside_main rfl)
  | unlocks pc hu ho =>
    have hs : s.mainPc.made .mutex = true ∧ pc.inside = false := by
      generalize s.mainPc = p at hu
      cases hu <;> exact ⟨rfl, rfl⟩
    rw [ho] at hg
    refine (hg hs.1).release ?_ (inside_main rfl)
    exact fun hin => nomatch hs.2.symm.trans hin
  | proceeds hpc =>
    rw [hpc] at hg
    refine (hg rfl).congr (inside_same ?_ rfl)
    rw [hpc]
    rfl
  | signals hpc =>
    rw [hpc] at hg
    refine (hg rfl).congr (inside_same ?_ (T1Pc.wake_same _ _).1)
    rw [hpc]
    rfl
  | goes pc hgo =>
    have hs : s.mainPc.made .mutex = true ∧ pc.inside = s.mainPc.inside := by
      generalize s.mainPc = p at hgo
      cases hgo <;> exact ⟨rfl, rfl⟩
    exact (hg hs.1).congr (inside_same hs.2 rfl)

theorem Inv.willSignal (h : Inv s) (hnew : s.t1 ≠ .notCreated) (hr : s.data.t1Ready = false) :
    s.t1.willSignal = true := by
  have ht := h.t1
  cases hpc : s.t1 <;> rw [hpc] at ht hnew
  case notCreated => exact absurd rfl hnew
  case started | lock | setReady => rfl
  case signalReady | testProceed | waitingProceed | relockProceed => cases hr.symm.trans ht
  all_goals cases hr.symm.trans ht.1

theorem mainAt_main (h : Inv s) (hm : MainMove s t) : MainAt t t.mainPc := by
  have hmain := h.main
  cases hm with
  | mallocs hpc | fails hpc =>
    rw [hpc] at hmain
    exact hmain
  | inits o pc hi =>
    change MainAt ((s.initObject o).goto pc) pc
    have hnew : ((s.initObject o).goto pc).t1 = .notCreated := by
      change (s.initObject o).t1 = .notCreated
      rw [initObject_t1, h.inits hi]
    generalize s.mainPc = p at hi
    cases hi <;> exact hnew
  | fills hpc =>
    rw [hpc] at hmain
    exact ⟨hmain, rfl, rfl, rfl⟩
  | creates hpc =>
    rw [hpc] at hmain
    exact ⟨nofun, hmain.2.2.1⟩
  | locks pc hl =>
    change MainAt _ pc
    generalize s.mainPc = p at hl hmain
    cases hl <;> exact hmain
  | unlocks pc hu =>
    change MainAt _ pc
    generalize s.mainPc = p at hu hmain
    cases hu with
    | waitReady => exact ⟨hmain.1, hmain.2.1, h.willSignal hmain.1 hmain.2.2⟩
    | unlock => exact hmain
  | proceeds hpc =>
    rw [hpc] at hmain
    exact ⟨hmain.1, rfl⟩
  | signals hpc =>
    rw [hpc] at hmain
    obtain ⟨hnew, hcont⟩ := hmain
    obtain ⟨hnew', hawake⟩ := T1Pc.wake_awake hnew
    exact ⟨hnew', hcont, hawake⟩
  | goes pc hgo =>
    change MainAt _ pc
    generalize s.mainPc = p at hgo hmain
    cases hgo with
    | notReady hr => exact ⟨hmain.1, hmain.2, hr⟩
    | spurious => exact ⟨hmain.1, hmain.2.1⟩
    | _ => exact hmain

theorem T1At.mono {pc : T1Pc} (h : T1At s pc) (hr : s.data.t1Ready = true → t.data.t1Ready = true)
    (hp : t.data.t1ToProceed = s.data.t1ToProceed)
    (hpast : s.mainPc.past = true → t.mainPc.past = true) : T1At t pc := by
  cases pc with
  | notCreated | started | lock | setReady => trivial
  | signalReady | testProceed | waitingProceed | relockProceed => exact hr h
  | waitProceed => exact ⟨hr h.1, hp.trans h.2⟩
  | unlock | received | printArg | workDone | destroyMutex | destroyCondFromMain
  | destroyCondFromT1 | free | exiting | terminated =>
    exact ⟨hr h.1, hp.trans h.2.1, hpast h.2.2⟩

theorem t1At_new (hnew : t.t1 = .notCreated) : T1At t t.t1 := by
  rw [hnew]
  trivial

theorem t1At_main (h : Inv s) (hm : MainMove s t) : T1At t t.t1 := by
  have ht := h.t1
  cases hm with
  | mallocs hpc | fails hpc | fills hpc => exact t1At_new (h.notCreated (by rw [hpc]; rfl))
  | inits o pc hi =>
    apply t1At_new
    change (s.initObject o).t1 = .notCreated
    rw [initObject_t1, h.inits hi]
  | creates => trivial
  | locks pc hl =>
    refine ht.mono id rfl ?_
    generalize s.mainPc = p at hl
    cases hl <;> exact nofun
  | unlocks pc hu =>
    refine ht.mono id rfl ?_
    generalize s.mainPc = p at hu
    cases hu <;> exact nofun
  | proceeds hpc =>
    have hmain := h.main
    rw [hpc] at hmain
    -- Only a thread inside could have found the flag false, and `main` is.
    change T1At _ s.t1
    cases hp : s.t1 <;> rw [hp] at ht
    case notCreated | started | lock | setReady => trivial
    case signalReady | testProceed | waitingProceed | relockProceed => exact ht
    case waitProceed =>
      have hin : s.mainPc.inside = true := by rw [hpc]; rfl
      exact (h.exclusive hin (by rw [hp]; rfl)).elim
    all_goals cases hmain.2.symm.trans ht.2.1
  | signals hpc =>
    have hw : T1At s (s.t1.wake .condFromMain) := by
      cases hp : s.t1 <;> rw [hp] at ht <;> exact ht
    refine hw.mono id rfl ?_
    rw [hpc]
    exact nofun
  | goes pc hgo =>
    refine ht.mono id rfl ?_
    generalize s.mainPc = p at hgo
    cases hgo with
    | forget | exits => exact id
    | _ => exact nofun

theorem T1Move.created (hm : T1Move s t) : s.t1 ≠ .notCreated ∧ t.t1 ≠ .notCreated := by
  cases hm with
  | locks pc hl =>
    change s.t1 ≠ .notCreated ∧ pc ≠ .notCreated
    generalize s.t1 = p at hl
    cases hl <;> exact ⟨nofun, nofun⟩
  | unlocks pc hu =>
    change s.t1 ≠ .notCreated ∧ pc ≠ .notCreated
    generalize s.t1 = p at hu
    cases hu <;> exact ⟨nofun, nofun⟩
  | destroys o pc hd =>
    change s.t1 ≠ .notCreated ∧ pc ≠ .notCreated
    generalize s.t1 = p at hd
    cases hd <;> exact ⟨nofun, nofun⟩
  | goes pc hgo =>
    change s.t1 ≠ .notCreated ∧ pc ≠ .notCreated
    generalize s.t1 = p at hgo
    cases hgo <;> exact ⟨nofun, nofun⟩
  | ready hpc | signals hpc | prints hpc | frees hpc =>
    rw [hpc]
    exact ⟨nofun, nofun⟩

theorem ledger_destroys {o : Object} {pc : T1Pc} (h : Inv s) (hd : T1Destroys o s.t1 pc) :
    Ledger { s with live := Function.update s.live o false
                    destroys := Function.update s.destroys o (s.destroys o + 1), t1 := pc } := by
  have hnew : s.t1 ≠ .notCreated := by
    generalize s.t1 = p at hd
    cases hd <;> exact nofun
  have hmade := made_of_started (h.started hnew)
  obtain ⟨hlive, hdes, hall, hfrees⟩ := h.ledger
  generalize s.t1 = p at *
  constructor
  · intro o'
    change Function.update s.live o false o' = (s.mainPc.made o' && !pc.destroyed o')
    by_cases he : o' = o
    · rw [he, Function.update_self, hmade]
      cases hd <;> rfl
    · rw [Function.update_of_ne he, hlive, hmade]
      cases hd <;> cases o' <;> first | rfl | exact absurd rfl he
  · intro o'
    change Function.update s.destroys o (s.destroys o + 1) o' = (pc.destroyed o').toNat
    by_cases he : o' = o
    · rw [he, Function.update_self, hdes]
      cases hd <;> rfl
    · rw [Function.update_of_ne he, hdes]
      cases hd <;> cases o' <;> first | rfl | exact absurd rfl he
  · rw [hall]
    cases hd <;> rfl
  · rw [hfrees]
    cases hd <;> rfl

theorem ledger_t1 (h : Inv s) (hm : T1Move s t) : Ledger t := by
  have hnew := hm.created.1
  have hl := h.ledger
  cases hm with
  | locks pc hlk =>
    refine hl.congr rfl rfl rfl rfl ⟨fun _ => rfl, rfl⟩ ?_
    change (∀ o, pc.destroyed o = s.t1.destroyed o) ∧ pc.freed = s.t1.freed
    generalize s.t1 = p at hlk
    cases hlk <;> exact ⟨fun _ => rfl, rfl⟩
  | unlocks pc hu =>
    refine hl.congr rfl rfl rfl rfl ⟨fun _ => rfl, rfl⟩ ?_
    change (∀ o, pc.destroyed o = s.t1.destroyed o) ∧ pc.freed = s.t1.freed
    generalize s.t1 = p at hu
    cases hu <;> exact ⟨fun _ => rfl, rfl⟩
  | ready hpc | prints hpc =>
    refine hl.congr rfl rfl rfl rfl ⟨fun _ => rfl, rfl⟩ ?_
    rw [hpc]
    exact ⟨fun _ => rfl, rfl⟩
  | signals hpc =>
    obtain ⟨-, hmade, hmal, -⟩ := MainPc.wake_same .condFromT1 s.mainPc
    refine hl.congr rfl rfl rfl rfl ⟨hmade, hmal⟩ ?_
    rw [hpc]
    exact ⟨fun _ => rfl, rfl⟩
  | destroys o pc hd => exact ledger_destroys h hd
  | frees hpc =>
    obtain ⟨hlive, hdes, hall, hfrees⟩ := hl
    rw [hpc] at hlive hdes hfrees
    refine ⟨hlive, hdes, ?_, ?_⟩
    · exact (Bool.and_false _).symm
    · exact congrArg (· + 1) hfrees
  | goes pc hgo =>
    refine hl.congr rfl rfl rfl rfl ⟨fun _ => rfl, rfl⟩ ?_
    change (∀ o, pc.destroyed o = s.t1.destroyed o) ∧ pc.freed = s.t1.freed
    generalize s.t1 = p at hgo
    cases hgo <;> exact ⟨fun _ => rfl, rfl⟩

theorem guards_t1 (h : Inv s) (hm : T1Move s t) : Guards t.data.mutex t.inside := by
  have hg := h.guarded hm.created.1
  cases hm with
  | locks pc hl ho =>
    have hin : pc.inside = true := by
      generalize s.t1 = p at hl
      cases hl <;> rfl
    rw [ho] at hg
    exact hg.acquire hin (inside_t1 rfl)
  | unlocks pc hu ho =>
    have hout : pc.inside = false := by
      generalize s.t1 = p at hu
      cases hu <;> rfl
    rw [ho] at hg
    refine hg.release ?_ (inside_t1 rfl)
    exact fun hin => nomatch hout.symm.trans hin
  | ready hpc | prints hpc | frees hpc =>
    refine hg.congr (inside_same rfl ?_)
    rw [hpc]
    rfl
  | signals hpc =>
    refine hg.congr (inside_same (MainPc.wake_same _ _).1 ?_)
    rw [hpc]
    rfl
  | destroys o pc hd =>
    refine hg.congr (inside_same rfl ?_)
    change pc.inside = s.t1.inside
    generalize s.t1 = p at hd
    cases hd <;> rfl
  | goes pc hgo =>
    refine hg.congr (inside_same rfl ?_)
    change pc.inside = s.t1.inside
    generalize s.t1 = p at hgo
    cases hgo <;> rfl

theorem MainAt.frame {pc : MainPc} (h : MainAt s pc) (hnew : s.t1 ≠ .notCreated ∧ t.t1 ≠ .notCreated)
    (hp : t.data.t1ToProceed = s.data.t1ToProceed)
    (hr : pc = .waitReady → t.data.t1Ready = s.data.t1Ready)
    (hsig : pc = .waitingReady → s.t1.willSignal = true → t.t1.willSignal = true)
    (hwait : s.data.t1ToProceed = true → t.t1 ≠ .waitingProceed) : MainAt t pc := by
  cases pc with
  | malloc | initMutex | initCondFromMain | initCondFromT1 | initFields | failed =>
    exact absurd h hnew.1
  | create => exact absurd h.1 hnew.1
  | detach | lock | testReady | relockReady | setProceed => exact ⟨hnew.2, hp.trans h.2⟩
  | waitReady => exact ⟨hnew.2, hp.trans h.2.1, (hr rfl).trans h.2.2⟩
  | waitingReady => exact ⟨hnew.2, hp.trans h.2.1, hsig rfl h.2.2⟩
  | signalProceed => exact ⟨hnew.2, hp.trans h.2⟩
  | unlock | forget | exiting | terminated => exact ⟨hnew.2, hp.trans h.2.1, hwait h.2.1⟩

theorem mainAt_t1 (h : Inv s) (hm : T1Move s t) : MainAt t t.mainPc := by
  have hnew := hm.created
  have hmain := h.main
  have ht := h.t1
  cases hm with
  | locks pc hl =>
    refine hmain.frame hnew rfl (fun _ => rfl) ?_ ?_
    · intro _ hsig
      change pc.willSignal = true
      generalize s.t1 = p at hl hsig
      cases hl with
      | lock => rfl
      | relockProceed => cases hsig
    · intro _
      change pc ≠ .waitingProceed
      generalize s.t1 = p at hl
      cases hl <;> exact nofun
  | unlocks pc hu =>
    refine hmain.frame hnew rfl (fun _ => rfl) ?_ ?_
    · intro _ hsig
      generalize s.t1 = p at hu hsig
      cases hu <;> cases hsig
    · intro hcont
      change pc ≠ .waitingProceed
      generalize s.t1 = p at hu ht
      cases hu with
      | waitProceed => cases hcont.symm.trans ht.2
      | unlock => exact nofun
  | ready hpc =>
    refine hmain.frame hnew rfl ?_ (fun _ _ => rfl) (fun _ => nofun)
    intro hwr
    exact (h.exclusive (by rw [hwr]; rfl) (by rw [hpc]; rfl)).elim
  | signals hpc =>
    have hframe {q : MainPc} (hq : MainAt s q) (hne : q ≠ .waitingReady) :
        MainAt { s with mainPc := s.mainPc.wake .condFromT1, t1 := .testProceed } q :=
      hq.frame hnew rfl (fun _ => rfl) (fun he => absurd he hne) (fun _ => nofun)
    change MainAt _ (s.mainPc.wake .condFromT1)
    cases hp : s.mainPc <;> rw [hp] at hmain hframe
    case waitingReady => exact ⟨hnew.2, hmain.2.1⟩
    all_goals exact hframe hmain nofun
  | prints hpc | frees hpc =>
    refine hmain.frame hnew rfl (fun _ => rfl) ?_ (fun _ => nofun)
    intro _ hsig
    rw [hpc] at hsig
    cases hsig
  | destroys o pc hd =>
    refine hmain.frame hnew rfl (fun _ => rfl) ?_ ?_
    · intro _ hsig
      generalize s.t1 = p at hd hsig
      cases hd <;> cases hsig
    · intro _
      change pc ≠ .waitingProceed
      generalize s.t1 = p at hd
      cases hd <;> exact nofun
  | goes pc hgo =>
    refine hmain.frame hnew rfl (fun _ => rfl) ?_ ?_
    · intro _ hsig
      change pc.willSignal = true
      generalize s.t1 = p at hgo hsig
      cases hgo with
      | started => rfl
      | _ => cases hsig
    · intro _
      change pc ≠ .waitingProceed
      generalize s.t1 = p at hgo
      cases hgo <;> exact nofun

theorem Inv.past (h : Inv s) (hin : s.t1.inside = true) (hp : s.data.t1ToProceed = true) :
    s.mainPc.past = true := by
  have hmain := h.main
  have hnew : s.t1 ≠ .notCreated := by
    intro hpc
    rw [hpc] at hin
    cases hin
  cases hpc : s.mainPc <;> rw [hpc] at hmain
  case malloc | initMutex | initCondFromMain | initCondFromT1 | initFields | failed =>
    exact absurd hmain hnew
  case create => exact absurd hmain.1 hnew
  case detach | lock | testReady | relockReady | setProceed => cases hp.symm.trans hmain.2
  case waitReady | waitingReady => cases hp.symm.trans hmain.2.1
  case signalProceed | unlock => exact (h.exclusive (by rw [hpc]; rfl) hin).elim
  all_goals rfl

theorem t1At_t1 (h : Inv s) (hm : T1Move s t) : T1At t t.t1 := by
  have ht := h.t1
  cases hm with
  | locks pc hl =>
    change T1At _ pc
    generalize s.t1 = p at hl ht
    cases hl with
    | lock => trivial
    | relockProceed => exact ht
  | unlocks pc hu =>
    change T1At _ pc
    generalize s.t1 = p at hu ht
    cases hu with
    | waitProceed => exact ht.1
    | unlock => exact ht
  | ready => exact rfl
  | signals hpc =>
    rw [hpc] at ht
    exact ht
  | prints hpc | frees hpc =>
    rw [hpc] at ht
    exact ht
  | destroys o pc hd =>
    change T1At _ pc
    generalize s.t1 = p at hd ht
    cases hd <;> exact ht
  | goes pc hgo =>
    change T1At _ pc
    generalize hpc : s.t1 = p at hgo ht
    cases hgo with
    | started => trivial
    | proceeds hp => exact ⟨ht, hp, h.past (by rw [hpc]; rfl) hp⟩
    | notYet hp => exact ⟨ht, hp⟩
    | _ => exact ht

theorem inv_main (h : Inv s) (hm : MainMove s t) : Inv t := by
  refine ⟨ledger_main h hm, guards_main h hm, mainAt_main h hm, t1At_main h hm, ?_, ?_⟩
  · intro hs
    cases hm with
    | creates hpc =>
      have hmain := h.main
      rw [hpc] at hmain
      exact hmain.2.2.2
    | mallocs | fails | fills => cases hs
    | inits o pc hi =>
      change pc.starting = false at hs
      generalize s.mainPc = p at hi
      cases hi <;> cases hs
    | locks pc hl =>
      apply h.arg
      generalize s.mainPc = p at hl
      cases hl <;> rfl
    | unlocks pc hu =>
      apply h.arg
      generalize s.mainPc = p at hu
      cases hu <;> rfl
    | proceeds hpc | signals hpc => exact h.arg (by rw [hpc]; rfl)
    | goes pc hgo =>
      apply h.arg
      generalize s.mainPc = p at hgo
      cases hgo <;> rfl
  · have hp := h.printed
    cases hm with
    | inits o pc hi =>
      change ∀ v ∈ (s.initObject o).printed, v = 42
      rw [(initObject_rest s o).2.2.2]
      exact hp
    | _ => exact hp

theorem inv_t1 (h : Inv s) (hm : T1Move s t) : Inv t := by
  have hs := h.started hm.created.1
  have harg : t.data.arg = 42 := by
    rw [← h.arg hs]
    cases hm <;> rfl
  refine ⟨ledger_t1 h hm, fun _ => guards_t1 h hm, mainAt_t1 h hm, t1At_t1 h hm, fun _ => harg, ?_⟩
  have hp := h.printed
  cases hm with
  | prints hpc =>
    intro v hv
    rcases List.mem_append.mp hv with hv | hv
    · exact hp v hv
    · rw [List.mem_singleton.mp hv]
      exact harg
  | _ => exact hp

theorem inv_reachable (hr : handOver.Reachable s) : Inv s := by
  apply System.Reachable.induct _ _ hr
  · rintro _ ⟨d, rfl⟩
    exact inv_initial d
  · intro s a t _ h hn
    rcases next_move hn with hm | hm
    · exact inv_main h hm
    · exact inv_t1 h hm

end LinuxSystemProgramming.HandOver
