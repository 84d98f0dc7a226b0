import LinuxSystemProgramming.ReadyQueue.Threads

namespace LinuxSystemProgramming.ReadyQueue

open Mutex RingBuffer

variable {N : ℕ}

def MainPc.insideG : MainPc → Bool
  | .testEmpty | .pop | .unlockPopped _ | .unlockG => true
  | _ => false

def MainPc.insideT (i : ℕ) : MainPc → Bool
  | .testT id | .countReady id | .proceed id | .signalT id | .unlockT id => id = i
  | _ => false

def MainPc.created (N : ℕ) : MainPc → ℕ
  | .create i => i
  | _ => N

def MainPc.inFlight : MainPc → List ℕ
  | .unlockPopped id | .lockT id | .testT id | .countReady id => [id]
  | _ => []

def MainPc.proceeding (i : ℕ) : MainPc → Bool
  | .proceed id => id = i
  | _ => false

structure MainView where
  created : ℕ
  inFlight : List ℕ
  insideT : ℕ → Bool
  proceeding : ℕ → Bool

def MainPc.view (N : ℕ) (p : MainPc) : MainView :=
  ⟨p.created N, p.inFlight, fun i => p.insideT i, fun i => p.proceeding i⟩

def MainPc.collecting : MainPc → Bool
  | .lockG | .testEmpty | .waitG | .relockG => true
  | _ => false

def MainPc.leftCollection : MainPc → Bool
  | .joinTest | .joinLoop _ | .tryjoin _ | .destroy _ _ | .usleep | .exiting | .terminated => true
  | _ => false

def WorkerPc.isCreated : WorkerPc → Bool
  | .notCreated => false
  | _ => true

def WorkerPc.insideG : WorkerPc → Bool
  | .push | .signalMain | .unlockPush => true
  | _ => false

def WorkerPc.insideOwn : WorkerPc → Bool
  | .signalReady | .unlockReady | .testProceed | .unlockProceed => true
  | _ => false

def WorkerPc.hasPushed : WorkerPc → Bool
  | .notCreated | .lockReady | .signalReady | .unlockReady | .lockPush | .push => false
  | _ => true

def WorkerPc.pastWait : WorkerPc → Bool
  | .unlockProceed | .exiting | .terminated => true
  | _ => false

inductive MainLocks : MainPc → MainPc → Prop
  | lockG : MainLocks .lockG .testEmpty
  | relockG : MainLocks .relockG .testEmpty
  | relockPop : MainLocks .relockPop .pop

inductive MainUnlocks : MainPc → MainPc → Prop
  | popped (id : ℕ) : MainUnlocks (.unlockPopped id) (.lockT id)
  | empty : MainUnlocks .unlockG .collect

inductive MainJoins (s : State N) : MainPc → MainPc → Prop
  | first (h : s.finishedThreads < N) : MainJoins s .joinTest (.joinLoop 0)
  | exit (h : ¬ s.finishedThreads < N) : MainJoins s .joinTest .exiting
  | skip {i : ℕ} (hi : i < N) (h : s.t i = false) : MainJoins s (.joinLoop i) (.joinLoop (i + 1))
  | tryjoin {i : ℕ} (hi : i < N) (h : s.t i = true) : MainJoins s (.joinLoop i) (.tryjoin i)
  | round {i : ℕ} (hi : ¬ i < N) : MainJoins s (.joinLoop i) .usleep
  | busy {i : ℕ} (h : s.pc i ≠ .terminated) : MainJoins s (.tryjoin i) (.joinLoop (i + 1))
  | again : MainJoins s .usleep .joinTest
  | ended : MainJoins s .exiting .terminated

theorem MainLocks.view {p q : MainPc} (h : MainLocks p q) : q.view N = p.view N := by
  cases h <;> rfl

theorem MainUnlocks.view {p q : MainPc} (h : MainUnlocks p q) : q.view N = p.view N := by
  cases h <;> rfl

theorem MainJoins.view {s : State N} {p q : MainPc} (h : MainJoins s p q) :
    q.view N = p.view N := by
  cases h <;> rfl

theorem insideT_of_view {p q : MainPc} (h : q.view N = p.view N) (i : ℕ) :
    q.insideT i = p.insideT i := congrFun (congrArg MainView.insideT h) i

inductive MainMove (s : State N) : State N → Prop
  | create (i : ℕ) (h : s.mainPc = .create i) (hi : i < N) : MainMove s { s with
      tData := initData s.tData i, pc := Function.update s.pc i .lockReady,
      t := Function.update s.t i true, mainPc := .create (i + 1) }
  | created (i : ℕ) (h : s.mainPc = .create i) (hi : ¬ i < N) : MainMove s (s.goto .collect)
  | again (h : s.mainPc = .collect) (hc : s.countOfReadyThreads < N) : MainMove s (s.goto .lockG)
  | leave (h : s.mainPc = .collect) (hc : ¬ s.countOfReadyThreads < N) :
      MainMove s (s.goto .joinTest)
  | lock (pc : MainPc) (h : MainLocks s.mainPc pc) (ho : s.mutexGSync = none) :
      MainMove s { s with mutexGSync := some .main, mainPc := pc }
  | unlock (pc : MainPc) (h : MainUnlocks s.mainPc pc) (ho : s.mutexGSync = some .main) :
      MainMove s { s with mutexGSync := none, mainPc := pc }
  | wait (h : s.mainPc = .testEmpty) (he : s.readyQueue.head = s.readyQueue.tail)
      (ho : s.mutexGSync = some .main) : MainMove s { s with mutexGSync := none, mainPc := .waitG }
  | nonempty (h : s.mainPc = .testEmpty) : MainMove s (s.goto .pop)
  | popped (id : ℕ) (q : Ring ℕ N) (h : s.mainPc = .pop) (hq : s.readyQueue.pop = some (id, q)) :
      MainMove s { s with readyQueue := q, popped := s.popped ++ [id], mainPc := .unlockPopped id }
  | drained (h : s.mainPc = .pop) : MainMove s (s.goto .unlockG)
  | lockT (id : ℕ) (h : s.mainPc = .lockT id) (ho : (s.tData id).mutex = none) :
      MainMove s { s with tData := setMutex s.tData id (some .main), mainPc := .testT id }
  | already (id : ℕ) (h : s.mainPc = .testT id) (ht : (s.tData id).toProceed = true) :
      MainMove s (s.goto (.unlockT id))
  | fresh (id : ℕ) (h : s.mainPc = .testT id) (ht : (s.tData id).toProceed = false) :
      MainMove s (s.goto (.countReady id))
  | count (id : ℕ) (h : s.mainPc = .countReady id) : MainMove s { s with
      countOfReadyThreads := s.countOfReadyThreads + 1, counted := s.counted ++ [id],
      mainPc := .proceed id }
  | proceed (id : ℕ) (h : s.mainPc = .proceed id) :
      MainMove s { s with tData := setToProceed s.tData id, mainPc := .signalT id }
  | signalT (id : ℕ) (h : s.mainPc = .signalT id) :
      MainMove s { s with pc := s.wake id, mainPc := .unlockT id }
  | unlockT (id : ℕ) (h : s.mainPc = .unlockT id) (ho : (s.tData id).mutex = some .main) :
      MainMove s { s with tData := setMutex s.tData id none, mainPc := .relockPop }
  | joins (pc : MainPc) (h : MainJoins s s.mainPc pc) : MainMove s (s.goto pc)
  | joined (i : ℕ) (h : s.mainPc = .tryjoin i) (ht : s.pc i = .terminated) : MainMove s { s with
      t := Function.update s.t i false, finishedThreads := s.finishedThreads + 1,
      mainPc := .destroy i .mutex }
  | destroy (i : ℕ) (object : Object) (h : s.mainPc = .destroy i object) : MainMove s { s with
      destroyed := s.destroyed ++ [(i, object)], mainPc := State.afterDestroy i object }
  | spurious (h : s.mainPc = .waitG) : MainMove s (s.goto .relockG)

theorem State.acquireG_move {s t : State N} {pc : MainPc} (h : s.acquireG pc = some t)
    (hl : MainLocks s.mainPc pc) : MainMove s t := by
  obtain ⟨m, hm, rfl⟩ := Option.map_eq_some_iff.mp h
  obtain ⟨ho, rfl⟩ := acquire_eq_some.mp hm
  exact .lock pc hl ho

theorem State.releaseG_move {s t : State N} {pc : MainPc} (h : s.releaseG pc = some t)
    (hu : MainUnlocks s.mainPc pc) : MainMove s t := by
  obtain ⟨m, hm, rfl⟩ := Option.map_eq_some_iff.mp h
  obtain ⟨ho, rfl⟩ := release_eq_some.mp hm
  exact .unlock pc hu ho

theorem State.main_move {s t : State N} (h : s.main = some t) : MainMove s t := by
  cases hpc : s.mainPc with
  | create i =>
    simp only [State.main, hpc] at h
    split_ifs at h with hi <;> obtain rfl := Option.some.inj h
    · exact .create i hpc hi
    · exact .created i hpc hi
  | collect =>
    simp only [State.main, hpc] at h
    obtain rfl := Option.some.inj h
    split_ifs with hc
    · exact .again hpc hc
    · exact .leave hpc hc
  | lockG =>
    simp only [State.main, hpc] at h
    exact State.acquireG_move h (hpc ▸ .lockG)
  | testEmpty =>
    simp only [State.main, hpc] at h
    split_ifs at h with he
    · obtain ⟨m, hm, rfl⟩ := Option.map_eq_some_iff.mp h
      obtain ⟨ho, rfl⟩ := release_eq_some.mp hm
      exact .wait hpc he ho
    · obtain rfl := Option.some.inj h
      exact .nonempty hpc
  | waitG => simp [State.main, hpc] at h
  | relockG =>
    simp only [State.main, hpc] at h
    exact State.acquireG_move h (hpc ▸ .relockG)
  | pop =>
    simp only [State.main, hpc] at h
    cases hq : s.readyQueue.pop with
    | none =>
      simp only [hq] at h
      obtain rfl := Option.some.inj h
      exact .drained hpc
    | some item =>
      simp only [hq] at h
      obtain rfl := Option.some.inj h
      exact .popped item.1 item.2 hpc hq
  | unlockPopped id =>
    simp only [State.main, hpc] at h
    exact State.releaseG_move h (hpc ▸ .popped id)
  | lockT id =>
    simp only [State.main, hpc, Option.ite_none_right_eq_some] at h
    obtain ⟨m, hm, rfl⟩ := Option.map_eq_some_iff.mp h.2
    obtain ⟨ho, rfl⟩ := acquire_eq_some.mp hm
    exact .lockT id hpc ho
  | testT id =>
    simp only [State.main, hpc] at h
    obtain rfl := Option.some.inj h
    cases ht : (s.tData id).toProceed with
    | true => exact .already id hpc ht
    | false => exact .fresh id hpc ht
  | countReady id =>
    simp only [State.main, hpc] at h
    exact Option.some.inj h ▸ .count id hpc
  | proceed id =>
    simp only [State.main, hpc] at h
    exact Option.some.inj h ▸ .proceed id hpc
  | signalT id =>
    simp only [State.main, hpc] at h
    exact Option.some.inj h ▸ .signalT id hpc
  | unlockT id =>
    simp only [State.main, hpc] at h
    obtain ⟨m, hm, rfl⟩ := Option.map_eq_some_iff.mp h
    obtain ⟨ho, rfl⟩ := release_eq_some.mp hm
    exact .unlockT id hpc ho
  | relockPop =>
    simp only [State.main, hpc] at h
    exact State.acquireG_move h (hpc ▸ .relockPop)
  | unlockG =>
    simp only [State.main, hpc] at h
    exact State.releaseG_move h (hpc ▸ .empty)
  | joinTest =>
    simp only [State.main, hpc] at h
    obtain rfl := Option.some.inj h
    split_ifs with hf
    · exact .joins _ (hpc ▸ .first hf)
    · exact .joins _ (hpc ▸ .exit hf)
  | joinLoop i =>
    simp only [State.main, hpc] at h
    obtain rfl := Option.some.inj h
    split_ifs with hi ht
    · exact .joins _ (hpc ▸ .tryjoin hi ht)
    · exact .joins _ (hpc ▸ .skip hi (Bool.eq_false_iff.mpr ht))
    · exact .joins _ (hpc ▸ .round hi)
  | tryjoin i =>
    simp only [State.main, hpc] at h
    split_ifs at h with ht <;> obtain rfl := Option.some.inj h
    · exact .joined i hpc ht
    · exact .joins _ (hpc ▸ .busy ht)
  | destroy i object =>
    simp only [State.main, hpc] at h
    exact Option.some.inj h ▸ .destroy i object hpc
  | usleep =>
    simp only [State.main, hpc] at h
    exact Option.some.inj h ▸ .joins _ (hpc ▸ .again)
  | exiting =>
    simp only [State.main, hpc] at h
    exact Option.some.inj h ▸ .joins _ (hpc ▸ .ended)
  | terminated => simp [State.main, hpc] at h

inductive WorkerLocks : WorkerPc → WorkerPc → Prop
  | ready : WorkerLocks .lockReady .signalReady
  | proceed : WorkerLocks .lockProceed .testProceed
  | woken : WorkerLocks .relock .testProceed

inductive WorkerUnlocks : WorkerPc → WorkerPc → Prop
  | ready : WorkerUnlocks .unlockReady .lockPush
  | proceed : WorkerUnlocks .unlockProceed .exiting

inductive WorkerMove (s : State N) (i : ℕ) : State N → Prop
  | lockOwn (pc : WorkerPc) (h : WorkerLocks (s.pc i) pc) (ho : (s.tData i).mutex = none) :
      WorkerMove s i { s with
        tData := setMutex s.tData i (some (.worker i)), pc := Function.update s.pc i pc }
  | unlockOwn (pc : WorkerPc) (h : WorkerUnlocks (s.pc i) pc)
      (ho : (s.tData i).mutex = some (.worker i)) : WorkerMove s i { s with
        tData := setMutex s.tData i none, pc := Function.update s.pc i pc }
  | signalReady (h : s.pc i = .signalReady) :
      WorkerMove s i ({ s with tData := setReady s.tData i }.setPc i .unlockReady)
  | lockPush (h : s.pc i = .lockPush) (ho : s.mutexGSync = none) :
      WorkerMove s i ({ s with mutexGSync := some (.worker i) }.setPc i .push)
  | push (h : s.pc i = .push) :
      WorkerMove s i ((s.readyQueuePush (s.tData i).id).setPc i .signalMain)
  | signalMain (h : s.pc i = .signalMain) :
      WorkerMove s i ({ s with mainPc := s.wakeMain }.setPc i .unlockPush)
  | unlockPush (h : s.pc i = .unlockPush) (ho : s.mutexGSync = some (.worker i)) :
      WorkerMove s i ({ s with mutexGSync := none }.setPc i .lockProceed)
  | go (h : s.pc i = .testProceed) (ht : (s.tData i).toProceed = true) :
      WorkerMove s i (s.setPc i .unlockProceed)
  | wait (h : s.pc i = .testProceed) (ht : (s.tData i).toProceed = false)
      (ho : (s.tData i).mutex = some (.worker i)) : WorkerMove s i { s with
        tData := setMutex s.tData i none, pc := Function.update s.pc i .waiting }
  | ended (h : s.pc i = .exiting) : WorkerMove s i (s.setPc i .terminated)
  | spurious (h : s.pc i = .waiting) : WorkerMove s i (s.setPc i .relock)

theorem State.acquireOwn_move {s t : State N} {i : ℕ} {pc : WorkerPc}
    (h : s.acquireOwn i pc = some t) (hl : WorkerLocks (s.pc i) pc) : WorkerMove s i t := by
  obtain ⟨m, hm, rfl⟩ := Option.map_eq_some_iff.mp h
  obtain ⟨ho, rfl⟩ := acquire_eq_some.mp hm
  exact .lockOwn pc hl ho

theorem State.releaseOwn_move {s t : State N} {i : ℕ} {pc : WorkerPc}
    (h : s.releaseOwn i pc = some t) (hu : WorkerUnlocks (s.pc i) pc) : WorkerMove s i t := by
  obtain ⟨m, hm, rfl⟩ := Option.map_eq_some_iff.mp h
  obtain ⟨ho, rfl⟩ := release_eq_some.mp hm
  exact .unlockOwn pc hu ho

theorem State.threadHandler_move {s t : State N} {i : ℕ} (h : s.threadHandler i = some t) :
    WorkerMove s i t := by
  cases hpc : s.pc i <;> simp only [State.threadHandler, hpc, reduceCtorEq] at h
  case lockReady => exact State.acquireOwn_move h (hpc ▸ .ready)
  case signalReady => exact Option.some.inj h ▸ .signalReady hpc
  case unlockReady => exact State.releaseOwn_move h (hpc ▸ .ready)
  case lockPush =>
    obtain ⟨m, hm, rfl⟩ := Option.map_eq_some_iff.mp h
    obtain ⟨ho, rfl⟩ := acquire_eq_some.mp hm
    exact .lockPush hpc ho
  case push => exact Option.some.inj h ▸ .push hpc
  case signalMain => exact Option.some.inj h ▸ .signalMain hpc
  case unlockPush =>
    obtain ⟨m, hm, rfl⟩ := Option.map_eq_some_iff.mp h
    obtain ⟨ho, rfl⟩ := release_eq_some.mp hm
    exact .unlockPush hpc ho
  case lockProceed => exact State.acquireOwn_move h (hpc ▸ .proceed)
  case testProceed =>
    split_ifs at h with ht
    · exact Option.some.inj h ▸ .go hpc ht
    · obtain ⟨m, hm, rfl⟩ := Option.map_eq_some_iff.mp h
      obtain ⟨ho, rfl⟩ := release_eq_some.mp hm
      exact .wait hpc (Bool.eq_false_iff.mpr ht) ho
  case relock => exact State.acquireOwn_move h (hpc ▸ .woken)
  case unlockProceed => exact State.releaseOwn_move h (hpc ▸ .proceed)
  case exiting => exact Option.some.inj h ▸ .ended hpc

theorem update_class {α β : Type*} (f : α → β) {g : ℕ → α} {i : ℕ} {x : α} (h : f x = f (g i))
    (j : ℕ) : f (Function.update g i x j) = f (g j) := by
  by_cases hj : j = i
  · rw [hj, Function.update_self, h]
  · rw [Function.update_of_ne hj]

@[simp] theorem setMutex_id (d : ℕ → ThreadData) (i j : ℕ) (m : Option Tid) :
    (setMutex d i m j).id = (d j).id := by
  apply update_class ThreadData.id
  rfl

@[simp] theorem setMutex_toProceed (d : ℕ → ThreadData) (i j : ℕ) (m : Option Tid) :
    (setMutex d i m j).toProceed = (d j).toProceed := by
  apply update_class ThreadData.toProceed
  rfl

@[simp] theorem setReady_id (d : ℕ → ThreadData) (i j : ℕ) : (setReady d i j).id = (d j).id := by
  apply update_class ThreadData.id
  rfl

@[simp] theorem setReady_toProceed (d : ℕ → ThreadData) (i j : ℕ) :
    (setReady d i j).toProceed = (d j).toProceed := by
  apply update_class ThreadData.toProceed
  rfl

@[simp] theorem setReady_mutex (d : ℕ → ThreadData) (i j : ℕ) :
    (setReady d i j).mutex = (d j).mutex := by
  apply update_class ThreadData.mutex
  rfl

@[simp] theorem setToProceed_id (d : ℕ → ThreadData) (i j : ℕ) :
    (setToProceed d i j).id = (d j).id := by
  apply update_class ThreadData.id
  rfl

@[simp] theorem setToProceed_mutex (d : ℕ → ThreadData) (i j : ℕ) :
    (setToProceed d i j).mutex = (d j).mutex := by
  apply update_class ThreadData.mutex
  rfl

theorem wake_class {β : Type*} (f : WorkerPc → β) (h : f .relock = f .waiting) (s : State N)
    (i j : ℕ) : f (s.wake i j) = f (s.pc j) := by
  unfold State.wake
  split_ifs with hw
  · exact update_class f (h.trans (congrArg f hw.symm)) j
  · rfl

theorem readyQueuePush_keeps (s : State N) (id : ℕ) :
    (s.readyQueuePush id).pc = s.pc ∧ (s.readyQueuePush id).tData = s.tData ∧
      (s.readyQueuePush id).mainPc = s.mainPc ∧ (s.readyQueuePush id).popped = s.popped ∧
      (s.readyQueuePush id).counted = s.counted ∧
      (s.readyQueuePush id).countOfReadyThreads = s.countOfReadyThreads ∧
      (s.readyQueuePush id).mutexGSync = s.mutexGSync ∧ (s.readyQueuePush id).t = s.t ∧
      (s.readyQueuePush id).finishedThreads = s.finishedThreads ∧
      (s.readyQueuePush id).destroyed = s.destroyed := by
  unfold State.readyQueuePush
  split <;> simp

namespace WorkerMove

variable {s t : State N} {i : ℕ}

theorem pc_other (h : WorkerMove s i t) {j : ℕ} (hj : j ≠ i) : t.pc j = s.pc j := by
  cases h with
  | push hpc => simp only [State.setPc, readyQueuePush_keeps, Function.update_of_ne hj]
  | _ => exact Function.update_of_ne hj _ _

theorem isCreated (h : WorkerMove s i t) : (s.pc i).isCreated = true ∧ (t.pc i).isCreated = true := by
  cases h with
  | lockOwn pc h | unlockOwn pc h =>
    simp only [Function.update_self]
    generalize s.pc i = p at h
    cases h <;> exact ⟨rfl, rfl⟩
  | signalReady hpc | lockPush hpc | push hpc | signalMain hpc | unlockPush hpc | go hpc
  | wait hpc | ended hpc | spurious hpc =>
    simp only [State.setPc, Function.update_self, hpc]
    exact ⟨rfl, rfl⟩

theorem not_terminated (h : WorkerMove s i t) : s.pc i ≠ .terminated := by
  intro ht
  cases h with
  | lockOwn pc h | unlockOwn pc h =>
    rw [ht] at h
    cases h
  | signalReady hpc | lockPush hpc | push hpc | signalMain hpc | unlockPush hpc | go hpc
  | wait hpc | ended hpc | spurious hpc =>
    rw [ht] at hpc
    cases hpc

theorem keeps_created (h : WorkerMove s i t) (j : ℕ) : (t.pc j).isCreated = (s.pc j).isCreated := by
  by_cases hj : j = i
  · rw [hj, h.isCreated.1, h.isCreated.2]
  · rw [h.pc_other hj]

theorem keeps_id (h : WorkerMove s i t) (j : ℕ) : (t.tData j).id = (s.tData j).id := by
  cases h with
  | push hpc => simp only [State.setPc, readyQueuePush_keeps]
  | lockOwn _ _ | unlockOwn _ _ | wait _ => exact setMutex_id _ _ _ _
  | signalReady _ => exact setReady_id _ _ _
  | _ => rfl

theorem keeps_toProceed (h : WorkerMove s i t) (j : ℕ) :
    (t.tData j).toProceed = (s.tData j).toProceed := by
  cases h with
  | push hpc => simp only [State.setPc, readyQueuePush_keeps]
  | lockOwn _ _ | unlockOwn _ _ | wait _ => exact setMutex_toProceed _ _ _ _
  | signalReady _ => exact setReady_toProceed _ _ _
  | _ => rfl

theorem mutex_other (h : WorkerMove s i t) {j : ℕ} (hj : j ≠ i) :
    (t.tData j).mutex = (s.tData j).mutex := by
  cases h with
  | push hpc => simp only [State.setPc, readyQueuePush_keeps]
  | lockOwn _ _ | unlockOwn _ _ | wait _ => simp only [setMutex, Function.update_of_ne hj]
  | signalReady _ => exact setReady_mutex _ _ _
  | _ => rfl

theorem mainPc_cases (h : WorkerMove s i t) :
    t.mainPc = s.mainPc ∨ s.mainPc = .waitG ∧ t.mainPc = .relockG := by
  cases h with
  | push hpc => exact .inl (readyQueuePush_keeps _ _).2.2.1
  | signalMain hpc =>
    change s.wakeMain = s.mainPc ∨ s.mainPc = .waitG ∧ s.wakeMain = .relockG
    unfold State.wakeMain
    split_ifs with hw
    · exact .inr ⟨hw, rfl⟩
    · exact .inl rfl
  | _ => exact .inl rfl

theorem mainPc_class {β : Type*} (h : WorkerMove s i t) (f : MainPc → β)
    (hf : f .relockG = f .waitG) : f t.mainPc = f s.mainPc := by
  rcases h.mainPc_cases with he | ⟨hs, ht⟩
  · rw [he]
  · rw [hs, ht, hf]

theorem keeps_main (h : WorkerMove s i t) : t.popped = s.popped ∧ t.counted = s.counted ∧
    t.countOfReadyThreads = s.countOfReadyThreads ∧ t.t = s.t ∧
    t.finishedThreads = s.finishedThreads ∧ t.destroyed = s.destroyed := by
  cases h with
  | push hpc => simp only [State.setPc, readyQueuePush_keeps, and_self]
  | _ => exact ⟨rfl, rfl, rfl, rfl, rfl, rfl⟩

end WorkerMove

theorem State.next_move {s t : State N} {a : Action} (h : s.next a = some t) :
    MainMove s t ∨ ∃ i, WorkerMove s i t := by
  cases a with
  | main => exact .inl (State.main_move h)
  | worker i => exact .inr ⟨i, State.threadHandler_move h⟩
  | spuriousMain =>
    obtain ⟨hpc, ht⟩ := Option.ite_none_right_eq_some.mp h
    exact .inl (Option.some.inj ht ▸ .spurious hpc)
  | spuriousWorker i =>
    obtain ⟨hpc, ht⟩ := Option.ite_none_right_eq_some.mp h
    exact .inr ⟨i, Option.some.inj ht ▸ .spurious hpc⟩

end LinuxSystemProgramming.ReadyQueue
