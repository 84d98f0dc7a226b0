import LinuxSystemProgramming.WorkerPool.Threads
import Mathlib.Tactic.Ring

namespace LinuxSystemProgramming.WorkerPool

open Counting Mutex Semaphores Transition

variable {T V L : ℕ}

def ThreadPc.inside : ThreadPc → Bool
  | .loop _ _ | .lock _ | .load _ | .store _ _ | .unlock | .semPost | .fault => true
  | _ => false

def ThreadPc.locked : ThreadPc → Bool
  | .load _ | .store _ _ | .unlock => true
  | _ => false

def ThreadPc.active : ThreadPc → Bool
  | .notCreated | .terminated => false
  | _ => true

def ThreadPc.stored : ThreadPc → Bool
  | .unlock | .semPost | .returning | .terminated => true
  | _ => false

def MainPc.created (T : ℕ) : MainPc → ℕ
  | .semInit => 0
  | .create i => i
  | _ => T

def MainPc.joined (T : ℕ) : MainPc → ℕ
  | .semInit | .create _ | .exited false => 0
  | .join i => i
  | .semDestroy | .mutexDestroy | .exited true => T

def MainPc.joinedAll : MainPc → Bool
  | .semDestroy | .mutexDestroy | .exited true => true
  | _ => false

def State.inside (s : State T) : ℕ := count ThreadPc.inside s.threads

def NoFailure (_ : State T) : Action T → Prop
  | .main a => a = .run
  | .thread _ a => a = .run

instance (s : State T) (a : Action T) : Decidable (NoFailure s a) :=
  match a with
  | .main a | .thread _ a => inferInstanceAs (Decidable (a = .run))

inductive ThreadMove (L : ℕ) (s : State T) (i : Fin T) : State T → Prop
  | enters (sem : Semaphore) (hpc : s.threads i = .semWait) (hw : s.sem.wait = some sem) :
      ThreadMove L s i ({ s with
        sem := sem, acquired := Function.update s.acquired i true }.setThread i (.loop 0 0))
  | counts (j l : ℕ) (hpc : s.threads i = .loop j l) (hj : j < L) :
      ThreadMove L s i (s.setThread i (.loop (j + 1) (l + 1)))
  | counted (j l : ℕ) (hpc : s.threads i = .loop j l) (hj : ¬ j < L) :
      ThreadMove L s i (s.setThread i (.lock l))
  | loopOverflows (j l : ℕ) (hpc : s.threads i = .loop j l) (hj : j < L)
      (ho : ¬ (l + 1 ≤ intMax ∧ j + 1 ≤ intMax)) : ThreadMove L s i (s.setThread i .fault)
  | locks (l : ℕ) (hpc : s.threads i = .lock l) (ho : s.mtx = none) :
      ThreadMove L s i ({ s with mtx := some i }.setThread i (.load l))
  | loads (l : ℕ) (hpc : s.threads i = .load l) :
      ThreadMove L s i (s.setThread i (.store l s.glob))
  | stores (l g : ℕ) (hpc : s.threads i = .store l g) :
      ThreadMove L s i ({ s with glob := g + l }.setThread i .unlock)
  | storeOverflows (l g : ℕ) (hpc : s.threads i = .store l g) (ho : ¬ g + l ≤ intMax) :
      ThreadMove L s i (s.setThread i .fault)
  | unlocks (hpc : s.threads i = .unlock) (ho : s.mtx = some i) :
      ThreadMove L s i ({ s with mtx := none }.setThread i .semPost)
  | posts (hpc : s.threads i = .semPost) :
      ThreadMove L s i ({ s with sem := s.sem.post }.setThread i .returning)
  | returns (hpc : s.threads i = .returning) : ThreadMove L s i (s.setThread i .terminated)

variable {s t : State T}

theorem thread_move {i : Fin T} (hm : s.threadFunc L i .run = some t) : ThreadMove L s i t := by
  cases hpc : s.threads i <;> simp only [State.threadFunc, hpc, reduceCtorEq] at hm
  case semWait =>
    obtain ⟨sem, hw, rfl⟩ := Option.map_eq_some_iff.mp hm
    exact .enters sem hpc hw
  case loop j l =>
    unfold State.loop at hm
    split_ifs at hm with hj ho
    · exact Option.some.inj hm ▸ .counts j l hpc hj
    · exact Option.some.inj hm ▸ .loopOverflows j l hpc hj ho
    · exact Option.some.inj hm ▸ .counted j l hpc hj
  case lock l =>
    obtain ⟨m, ha, rfl⟩ := Option.map_eq_some_iff.mp hm
    obtain ⟨ho, rfl⟩ := acquire_eq_some.mp ha
    exact .locks l hpc ho
  case load l => exact Option.some.inj hm ▸ .loads l hpc
  case store l g =>
    unfold State.store at hm
    split_ifs at hm with ho
    · exact Option.some.inj hm ▸ .stores l g hpc
    · exact Option.some.inj hm ▸ .storeOverflows l g hpc ho
  case unlock =>
    obtain ⟨m, ha, rfl⟩ := Option.map_eq_some_iff.mp hm
    obtain ⟨ho, rfl⟩ := release_eq_some.mp ha
    exact .unlocks hpc ho
  case semPost => exact Option.some.inj hm ▸ .posts hpc
  case returning => exact Option.some.inj hm ▸ .returns hpc

theorem thread_of_next {i : Fin T} (hn : (pool T V L).next s (.thread i .run) = some t) :
    ThreadMove L s i t := by
  simp only [pool, State.next] at hn
  split at hn
  · cases hn
  · exact thread_move hn

theorem createLoop_created {i : ℕ} (hi : i ≤ T) : (createLoop T i).created T = i := by
  unfold createLoop joinLoop
  split_ifs
  · rfl
  · change T = i
    omega
  · change T = i
    omega

theorem createLoop_joined (T i : ℕ) : (createLoop T i).joined T = 0 := by
  unfold createLoop joinLoop
  split_ifs
  · rfl
  · rfl
  · change T = 0
    omega

theorem joinLoop_created (T i : ℕ) : (joinLoop T i).created T = T := by
  unfold joinLoop
  split_ifs <;> rfl

theorem joinLoop_joined {i : ℕ} (hi : i ≤ T) : (joinLoop T i).joined T = i := by
  unfold joinLoop
  split_ifs
  · rfl
  · change T = i
    omega

def ThreadOk (L glob : ℕ) : ThreadPc → Prop
  | .loop j l => l = j ∧ j ≤ L
  | .lock l | .load l => l = L
  | .store l g => l = L ∧ g = glob
  | .fault => False
  | _ => True

structure Admission (V : ℕ) (s : State T) : Prop where
  bound : s.main.created T ≤ T ∧ s.main.joined T ≤ T
  created : ∀ i : Fin T, s.main.created T ≤ i → s.threads i = .notCreated
  joined : ∀ i : Fin T, i < s.main.joined T → s.threads i = .terminated
  units : s.main ≠ .semInit → s.sem.Conserves s.inside V
  earned : ∀ i, (s.threads i).inside = true → s.acquired i = true

structure Sums (L : ℕ) (s : State T) : Prop where
  guards : Guards s.mtx (fun i => (s.threads i).locked = true)
  threads : ∀ i, ThreadOk L s.glob (s.threads i)
  glob : s.glob = L * count ThreadPc.stored s.threads

theorem admission_initial (V T : ℕ) : Admission V (State.initial T) := by
  refine ⟨⟨Nat.zero_le T, Nat.zero_le T⟩, fun _ _ => rfl, ?_, ?_, ?_⟩
  · exact fun i hi => absurd hi (Nat.not_lt_zero i)
  · exact fun h => absurd rfl h
  · exact fun i hi => nomatch hi

theorem sums_initial (L T : ℕ) : Sums L (State.initial T) := by
  refine ⟨?_, fun _ => trivial, ?_⟩
  · intro i
    simp [State.initial, ThreadPc.locked]
  · have hc : count ThreadPc.stored (State.initial T).threads = 0 := count_eq_zero fun _ => rfl
    rw [hc]
    rfl

theorem Admission.thread_step (h : Admission V s) {i : Fin T} {p q : ThreadPc}
    (hpc : s.threads i = p) (hact : p.active = true) (hm : t.main = s.main)
    (ht : t.threads = Function.update s.threads i q)
    (hu : s.sem.Conserves s.inside V →
      t.sem.Conserves (count ThreadPc.inside (Function.update s.threads i q)) V)
    (he : q.inside = true → t.acquired i = true)
    (hea : ∀ j, j ≠ i → t.acquired j = s.acquired j) : Admission V t := by
  refine ⟨?_, ?_, ?_, ?_, ?_⟩
  · rw [hm]
    exact h.bound
  · intro j hj
    rw [hm] at hj
    have hji : j ≠ i := by
      rintro rfl
      rw [← hpc, h.created j hj] at hact
      cases hact
    rw [ht, Function.update_of_ne hji]
    exact h.created j hj
  · intro j hj
    rw [hm] at hj
    have hji : j ≠ i := by
      rintro rfl
      rw [← hpc, h.joined j hj] at hact
      cases hact
    rw [ht, Function.update_of_ne hji]
    exact h.joined j hj
  · intro hne
    rw [hm] at hne
    unfold State.inside
    rw [ht]
    exact hu (h.units hne)
  · intro j hj
    rw [ht] at hj
    by_cases hji : j = i
    · subst hji
      rw [Function.update_self] at hj
      exact he hj
    · rw [Function.update_of_ne hji] at hj
      rw [hea j hji]
      exact h.earned j hj

theorem Admission.thread_stays (h : Admission V s) {i : Fin T} {p q : ThreadPc}
    (hpc : s.threads i = p) (ht : t.threads = Function.update s.threads i q)
    (hact : p.active = true) (hin : q.inside = p.inside) (hm : t.main = s.main)
    (hsem : t.sem = s.sem) (ha : t.acquired = s.acquired) : Admission V t := by
  subst hpc
  refine h.thread_step rfl hact hm ht ?_ ?_ (fun _ _ => by rw [ha])
  · rw [count_same hin, hsem]
    exact id
  · intro hpin
    rw [ha]
    exact h.earned i (hin ▸ hpin)

theorem admission_thread (h : Admission V s) {i : Fin T} (hm : ThreadMove L s i t) :
    Admission V t := by
  cases hm with
  | enters sem hpc hw =>
    refine h.thread_step (q := .loop 0 0) hpc rfl rfl rfl ?_ ?_ ?_
    · intro hu
      rw [count_enter (by rw [hpc]; rfl) rfl]
      exact hu.wait hw
    · exact fun _ => Function.update_self _ _ _
    · exact fun j hj => Function.update_of_ne hj _ _
  | posts hpc =>
    refine h.thread_step (q := .returning) hpc rfl rfl rfl ?_ ?_ (fun _ _ => rfl)
    · exact fun hu => hu.post (count_leave (by rw [hpc]; rfl) rfl)
    · exact fun hin => nomatch hin
  | counts _ _ hpc | counted _ _ hpc | loopOverflows _ _ hpc | locks _ hpc | loads _ hpc
  | stores _ _ hpc | storeOverflows _ _ hpc | unlocks hpc | returns hpc =>
    exact h.thread_stays hpc rfl rfl rfl rfl rfl rfl

theorem locked_other {i j : Fin T} {pc : ThreadPc} (hji : j ≠ i) :
    (Function.update s.threads i pc j).locked = true ↔ (s.threads j).locked = true := by
  rw [Function.update_of_ne hji]

theorem locked_same {i : Fin T} {pc : ThreadPc} (hl : pc.locked = (s.threads i).locked)
    (j : Fin T) :
    (Function.update s.threads i pc j).locked = true ↔ (s.threads j).locked = true := by
  by_cases hji : j = i
  · rw [hji, Function.update_self, hl]
  · exact locked_other hji

theorem Sums.thread_step (h : Sums L s) {i : Fin T} {q : ThreadPc}
    (ht : t.threads = Function.update s.threads i q)
    (hg : Guards t.mtx (fun j => (t.threads j).locked = true)) (hok : ThreadOk L t.glob q)
    (hglob : t.glob = s.glob) (hst : q.stored = (s.threads i).stored) : Sums L t := by
  refine ⟨hg, ?_, ?_⟩
  · intro j
    rw [ht]
    by_cases hji : j = i
    · rwa [hji, Function.update_self]
    · rw [Function.update_of_ne hji, hglob]
      exact h.threads j
  · rw [ht, count_same hst, hglob]
    exact h.glob

theorem Sums.thread_quiet (h : Sums L s) {i : Fin T} {p q : ThreadPc} (hpc : s.threads i = p)
    (hmtx : t.mtx = s.mtx) (hglob : t.glob = s.glob)
    (ht : t.threads = Function.update s.threads i q) (hl : q.locked = p.locked)
    (hst : q.stored = p.stored) (hok : ThreadOk L s.glob q) : Sums L t := by
  subst hpc
  refine h.thread_step ht ?_ (hglob ▸ hok) hglob hst
  rw [hmtx]
  apply h.guards.congr
  intro j
  rw [ht]
  exact locked_same hl j

theorem Sums.glob_add_le (h : Sums L s) {i : Fin T} (hi : (s.threads i).stored = false) :
    s.glob + L ≤ T * L := by
  have hle := count_le_card ThreadPc.stored (Function.update s.threads i .unlock)
  rw [count_enter hi rfl, Fintype.card_fin] at hle
  calc s.glob + L = (count ThreadPc.stored s.threads + 1) * L := by rw [h.glob]; ring
    _ ≤ T * L := Nat.mul_le_mul_right L hle

theorem sums_stores (h : Sums L s) {i : Fin T} {l g : ℕ} (hpc : s.threads i = .store l g) :
    Sums L ({ s with glob := g + l }.setThread i .unlock) := by
  have hok := h.threads i
  rw [hpc] at hok
  obtain ⟨rfl, rfl⟩ := hok
  have howner : s.mtx = some i := by
    apply (h.guards i).mp
    rw [hpc, ThreadPc.locked]
  refine ⟨?_, ?_, ?_⟩
  · exact h.guards.congr (locked_same (by rw [hpc]; rfl))
  · intro j
    change ThreadOk l (s.glob + l) (Function.update s.threads i .unlock j)
    by_cases hji : j = i
    · rw [hji, Function.update_self]
      trivial
    · rw [Function.update_of_ne hji]
      have hjok := h.threads j
      have hlocked : (s.threads j).locked ≠ true := by
        intro hl
        exact hji (Option.some.inj (((h.guards j).mp hl).symm.trans howner))
      generalize s.threads j = p at hjok hlocked
      cases p with
      | store => exact absurd rfl hlocked
      | _ => exact hjok
  · change s.glob + l = l * count _ (Function.update s.threads i .unlock)
    rw [count_enter (by rw [hpc]; rfl) rfl, Nat.mul_succ, ← h.glob]

theorem sums_thread (hmax : T * L ≤ intMax) (h : Sums L s) {i : Fin T} (hm : ThreadMove L s i t) :
    Sums L t := by
  have hok := h.threads i
  have hg := h.guards
  have hL : L ≤ T * L := Nat.le_mul_of_pos_left L (Nat.lt_of_le_of_lt (Nat.zero_le i) i.isLt)
  cases hm with
  | enters sem hpc hw => exact h.thread_quiet hpc rfl rfl rfl rfl rfl ⟨rfl, Nat.zero_le L⟩
  | counts j l hpc hj =>
    rw [hpc] at hok
    exact h.thread_quiet hpc rfl rfl rfl rfl rfl ⟨congrArg (· + 1) hok.1, hj⟩
  | counted j l hpc hj =>
    rw [hpc] at hok
    obtain ⟨rfl, hle⟩ := hok
    refine h.thread_quiet (q := .lock l) hpc rfl rfl rfl rfl rfl ?_
    change l = L
    omega
  | loopOverflows j l hpc hj ho =>
    rw [hpc] at hok
    obtain ⟨rfl, -⟩ := hok
    omega
  | locks l hpc ho =>
    rw [hpc] at hok
    rw [ho] at hg
    refine h.thread_step (q := .load l) rfl ?_ hok rfl (by rw [hpc]; rfl)
    apply hg.acquire
    · change (Function.update s.threads i (.load l) i).locked = true
      rw [Function.update_self]
      rfl
    · exact fun j hj => locked_other hj
  | loads l hpc =>
    rw [hpc] at hok
    exact h.thread_quiet (q := .store l s.glob) hpc rfl rfl rfl rfl rfl ⟨hok, rfl⟩
  | stores l g hpc => exact sums_stores h hpc
  | storeOverflows l g hpc ho =>
    rw [hpc] at hok
    obtain ⟨rfl, rfl⟩ := hok
    have hle := h.glob_add_le (i := i) (by rw [hpc]; rfl)
    omega
  | unlocks hpc ho =>
    rw [ho] at hg
    refine h.thread_step (q := .semPost) rfl ?_ trivial rfl (by rw [hpc]; rfl)
    apply hg.release
    · change ¬ (Function.update s.threads i .semPost i).locked = true
      rw [Function.update_self]
      exact Bool.false_ne_true
    · exact fun j hj => locked_other hj
  | posts hpc => exact h.thread_quiet hpc rfl rfl rfl rfl rfl trivial
  | returns hpc => exact h.thread_quiet hpc rfl rfl rfl rfl rfl trivial

theorem Admission.main_step (h : Admission V s) (ht : t.threads = s.threads)
    (ha : t.acquired = s.acquired) (hb : t.main.created T ≤ T ∧ t.main.joined T ≤ T)
    (hc : s.main.created T ≤ t.main.created T)
    (hj : ∀ i : Fin T, i < t.main.joined T → s.threads i = .terminated)
    (hu : t.main ≠ .semInit → t.sem.Conserves s.inside V) : Admission V t := by
  refine ⟨hb, ?_, ?_, ?_, ?_⟩
  · rw [ht]
    exact fun i hi => h.created i (le_trans hc hi)
  · rwa [ht]
  · unfold State.inside
    rwa [ht]
  · rw [ht, ha]
    exact h.earned

theorem Sums.main_step (h : Sums L s) (ht : t.threads = s.threads) (hglob : t.glob = s.glob)
    (hmtx : t.mtx = s.mtx) : Sums L t := by
  refine ⟨?_, ?_, ?_⟩
  · rw [ht, hmtx]
    exact h.guards
  · rw [ht, hglob]
    exact h.threads
  · rw [ht, hglob]
    exact h.glob

theorem Admission.fresh (h : Admission V s) {i : ℕ} (hpc : s.main = .create i) (hi : i < T) :
    s.threads ⟨i, hi⟩ = .notCreated := h.created ⟨i, hi⟩ (by rw [hpc]; exact le_refl i)

theorem admission_create (h : Admission V s) {i : ℕ} (hpc : s.main = .create i) (hi : i < T) :
    Admission V ((s.setThread ⟨i, hi⟩ .semWait).goto (createLoop T (i + 1))) := by
  have hfresh := h.fresh hpc hi
  have hcreated := createLoop_created (T := T) (i := i + 1) hi
  have hjoined := createLoop_joined T (i + 1)
  refine ⟨⟨?_, ?_⟩, ?_, ?_, ?_, ?_⟩
  · exact hcreated.trans_le hi
  · exact hjoined.trans_le (Nat.zero_le T)
  · intro j hj
    have hj' : i + 1 ≤ j := hcreated.symm.trans_le hj
    have hji : j ≠ ⟨i, hi⟩ := by
      rintro rfl
      exact absurd hj' (Nat.not_succ_le_self i)
    change Function.update s.threads ⟨i, hi⟩ .semWait j = .notCreated
    rw [Function.update_of_ne hji]
    exact h.created j (by rw [hpc]; exact Nat.le_of_succ_le hj')
  · intro j hj
    exact absurd (hj.trans_eq hjoined) (Nat.not_lt_zero _)
  · intro _
    change s.sem.Conserves (count _ (Function.update s.threads ⟨i, hi⟩ .semWait)) V
    rw [count_same (by rw [hfresh]; rfl)]
    exact h.units (by simp [hpc])
  · intro j hj
    change (Function.update s.threads ⟨i, hi⟩ .semWait j).inside = true at hj
    by_cases hji : j = ⟨i, hi⟩
    · rw [hji, Function.update_self] at hj
      cases hj
    · rw [Function.update_of_ne hji] at hj
      exact h.earned j hj

theorem Admission.outside_semInit (h : Admission V s) (hpc : s.main = .semInit) : s.inside = 0 := by
  apply count_eq_zero
  intro i
  rw [h.created i (by rw [hpc]; exact Nat.zero_le _)]
  rfl

theorem admission_main (h : Admission V s) (hm : s.mainMain V .run = some t) : Admission V t := by
  cases hpc : s.main <;> simp only [State.mainMain, hpc, reduceCtorEq] at hm
  case semInit =>
    cases hm
    refine h.main_step rfl rfl ⟨?_, ?_⟩ ?_ ?_ ?_
    · exact (createLoop_created (Nat.zero_le T)).trans_le (Nat.zero_le T)
    · exact (createLoop_joined T 0).trans_le (Nat.zero_le T)
    · rw [hpc]
      exact Nat.zero_le _
    · intro i hi
      exact absurd (hi.trans_eq (createLoop_joined T 0)) (Nat.not_lt_zero _)
    · intro _
      rw [h.outside_semInit hpc]
      rfl
  case create i =>
    split_ifs at hm with hi
    cases hm
    exact admission_create h hpc hi
  case join i =>
    split_ifs at hm with hi hend
    cases hm
    refine h.main_step rfl rfl ⟨?_, ?_⟩ ?_ ?_ (fun _ => h.units (by simp [hpc]))
    · exact (joinLoop_created T (i + 1)).le
    · exact (joinLoop_joined hi).trans_le hi
    · exact h.bound.1.trans_eq (joinLoop_created T (i + 1)).symm
    · intro j hj
      have hj' : j < i + 1 := hj.trans_eq (joinLoop_joined hi)
      by_cases hji : (j : ℕ) = i
      · obtain rfl : j = ⟨i, hi⟩ := Fin.ext hji
        exact hend
      · exact h.joined j (by rw [hpc]; change (j : ℕ) < i; omega)
  case semDestroy | mutexDestroy =>
    cases hm
    refine h.main_step rfl rfl ⟨le_refl T, le_refl T⟩ h.bound.1 ?_ ?_
    · intro i _
      exact h.joined i (by rw [hpc]; exact i.isLt)
    · exact fun _ => h.units (by simp [hpc])

theorem sums_main (ha : Admission V s) (h : Sums L s) (hm : s.mainMain V .run = some t) :
    Sums L t := by
  cases hpc : s.main <;> simp only [State.mainMain, hpc, reduceCtorEq] at hm
  case create i =>
    split_ifs at hm with hi
    cases hm
    have hfresh := ha.fresh hpc hi
    exact h.thread_quiet (q := .semWait) hfresh rfl rfl rfl rfl rfl trivial
  case join i =>
    split_ifs at hm with hi hend
    cases hm
    exact h.main_step rfl rfl rfl
  case semInit | semDestroy | mutexDestroy =>
    cases hm
    exact h.main_step rfl rfl rfl

theorem admission_reachable (hr : (pool T V L).ReachableWhile NoFailure s) : Admission V s := by
  apply System.ReachableWhile.induct _ _ hr
  · rintro _ rfl
    exact admission_initial V T
  · intro s a t _ h hc hn
    cases a with
    | main a =>
      obtain rfl : a = .run := hc
      exact admission_main h hn
    | thread i a =>
      obtain rfl : a = .run := hc
      exact admission_thread h (thread_of_next hn)

theorem sums_reachable (hmax : T * L ≤ intMax) (hr : (pool T V L).ReachableWhile NoFailure s) :
    Sums L s := by
  apply System.ReachableWhile.induct _ _ hr
  · rintro _ rfl
    exact sums_initial L T
  · intro s a t hr h hc hn
    cases a with
    | main a =>
      obtain rfl : a = .run := hc
      exact sums_main (admission_reachable hr) h hn
    | thread i a =>
      obtain rfl : a = .run := hc
      exact sums_thread hmax h (thread_of_next hn)

theorem MainPc.joined_of_joinedAll {pc : MainPc} (h : pc.joinedAll = true) : pc.joined T = T := by
  cases pc with
  | semDestroy | mutexDestroy => rfl
  | exited success =>
    cases success with
    | true => rfl
    | false => cases h
  | _ => cases h

theorem Admission.inside_le (h : Admission V s) : s.inside ≤ V := by
  by_cases hm : s.main = .semInit
  · rw [h.outside_semInit hm]
    exact Nat.zero_le V
  · exact (h.units hm).holders_le

/-- The semaphore admits at most `V` threads, the mutex one; no update of `glob` is lost; and what
`main` destroys has no user left. -/
theorem pool_safe (T V L : ℕ) (hmax : T * L ≤ intMax) {s : State T}
    (hr : (pool T V L).ReachableWhile NoFailure s) :
    s.inside ≤ V ∧ (∀ i j, (s.threads i).locked = true → (s.threads j).locked = true → i = j) ∧
      (∀ i, s.threads i ≠ .fault) ∧
      (s.main.joinedAll = true → s.glob = T * L ∧ s.sem.value = V ∧ s.mtx = none ∧
        ∀ i, s.threads i = .terminated) := by
  have ha := admission_reachable hr
  have h := sums_reachable hmax hr
  refine ⟨ha.inside_le, ?_, ?_, ?_⟩
  · intro i j hi hj
    exact Option.some.inj (((h.guards i).mp hi).symm.trans ((h.guards j).mp hj))
  · intro i hi
    have hok := h.threads i
    rw [hi] at hok
    exact hok
  · intro hall
    have hend (i : Fin T) : s.threads i = .terminated :=
      ha.joined i (i.isLt.trans_eq (MainPc.joined_of_joinedAll hall).symm)
    have hne : s.main ≠ .semInit := by
      intro hm
      rw [hm] at hall
      cases hall
    have hin : s.inside = 0 := count_eq_zero fun i => by rw [hend i]; rfl
    have hunits := ha.units hne
    rw [hin] at hunits
    have hstored : count ThreadPc.stored s.threads = T := by
      have hc : count ThreadPc.stored s.threads = count id (fun _ : Fin T => true) :=
        count_congr fun i => by rw [hend i]; rfl
      simpa [count] using hc
    refine ⟨?_, hunits, ?_, hend⟩
    · rw [h.glob, hstored, Nat.mul_comm]
    · rcases h.guards.free_or_inside with hfree | ⟨i, hi⟩
      · exact hfree
      · rw [hend i] at hi
        cases hi

def runs (n : ℕ) (a : Attempt → Action T) : List (Action T) := List.replicate n (a .run)

theorem pool_safe_joined : ∃ s : State cntThreads, s.main = .exited true ∧
    s.glob = cntThreads * 2 ∧ s.sem.value = svalInitial := by
  have hrun : ((pool cntThreads svalInitial 2).runWhile (fun s a => decide (NoFailure s a))
      (State.initial _) (runs 4 .main ++ runs 2 (.thread 0) ++ runs 4 (.thread 1) ++
        runs 8 (.thread 0) ++ runs 10 (.thread 2) ++ runs 6 (.thread 1) ++ runs 5 .main)).map
          (fun s => s.main) = some (.exited true) := by decide +kernel
  obtain ⟨s, hs, hm⟩ := Option.map_eq_some_iff.mp hrun
  have hr : (pool cntThreads svalInitial 2).ReachableWhile NoFailure s :=
    .run (fun _ _ => of_decide_eq_true) _ (.init rfl) hs
  obtain ⟨hg, hv, -⟩ := (pool_safe cntThreads svalInitial 2 (by decide) hr).2.2.2 (by rw [hm]; rfl)
  exact ⟨s, hm, hg, hv⟩

end LinuxSystemProgramming.WorkerPool
