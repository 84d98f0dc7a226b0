import LinuxSystemProgramming.Lib.EndlessRuns
import LinuxSystemProgramming.ReadyQueue.Wakeups
import Mathlib.Algebra.Order.BigOperators.Group.Finset

namespace LinuxSystemProgramming.ReadyQueue

open Mutex RingBuffer Transition

variable {N : ℕ} {s t : State N} {i : ℕ}

def Action.spurious : Action → Bool
  | .main | .worker _ => false
  | .spuriousMain | .spuriousWorker _ => true

-- A signal pays for the thread that it wakes.
def WorkerPc.left : WorkerPc → ℕ
  | .notCreated => 17
  | .lockReady => 16
  | .signalReady => 15
  | .unlockReady => 14
  | .lockPush => 13
  | .push => 12
  | .signalMain => 11
  | .unlockPush => 7
  | .lockProceed => 6
  | .relock => 5
  | .testProceed => 4
  | .waiting => 3
  | .unlockProceed => 2
  | .exiting => 1
  | .terminated => 0

def MainPc.left (empty : Bool) : MainPc → ℕ
  | .unlockPopped _ => 17
  | .lockT _ => 16
  | .testT _ => 15
  | .countReady _ => 14
  | .proceed _ => 13
  | .signalT _ => 12
  | .unlockT _ => 9
  | .relockPop => 8
  | .pop => if empty then 7 else 2
  | .unlockG | .create _ => 6
  | .collect => 5
  | .lockG | .relockG => 4
  | .testEmpty => 3
  | .waitG => 1
  | .destroy _ .mutex => 5
  | .destroy _ .condToT => 4
  | .destroy _ .condFromT => 3
  | .joinTest | .joinLoop _ | .tryjoin _ | .usleep => 2
  | .exiting => 1
  | .terminated => 0

def State.mainLeft (s : State N) : ℕ :=
  s.mainPc.left (decide (s.readyQueue.head = s.readyQueue.tail)) + 16 * (N - s.popped.length) +
    4 * (N - s.finishedThreads)

def State.left (s : State N) : ℕ := s.mainLeft + ∑ i ∈ Finset.range N, (s.pc i).left

def MainPc.polls : MainPc → Bool
  | .joinTest | .joinLoop _ | .tryjoin _ | .usleep => true
  | _ => false

theorem sum_range_change {f g : ℕ → ℕ} (hi : i < N) (h : ∀ j, j ≠ i → g j = f j) :
    ∑ j ∈ Finset.range N, g j + f i = ∑ j ∈ Finset.range N, f j + g i := by
  have hmem := Finset.mem_range.mpr hi
  have hsame : ∑ j ∈ (Finset.range N).erase i, g j = ∑ j ∈ (Finset.range N).erase i, f j :=
    Finset.sum_congr rfl fun j hj => h j (Finset.ne_of_mem_erase hj)
  rw [← Finset.add_sum_erase _ g hmem, ← Finset.add_sum_erase _ f hmem, hsame]
  omega

theorem MainPc.left_outside {pc : MainPc} (h : pc.insideG = false) (b b' : Bool) :
    pc.left b = pc.left b' := by
  cases pc <;> first | cases h; done | rfl | rename_i object; cases object <;> rfl

theorem worker_lt (h : Inv s) (hm : WorkerMove s i t) : i < N := by
  have hc : i < s.mainPc.created N := (h.threads.created i).mp hm.isCreated.1
  exact hc.trans_le h.threads.bound

theorem worker_left_of (h : Inv s) (hm : WorkerMove s i t)
    (hlt : (t.pc i).left + t.mainPc.left (decide (t.readyQueue.head = t.readyQueue.tail)) <
      (s.pc i).left + s.mainPc.left (decide (s.readyQueue.head = s.readyQueue.tail))) :
    t.left < s.left := by
  obtain ⟨hpopped, -, -, -, hfinished, -⟩ := hm.keeps_main
  have hsum := sum_range_change (f := fun j => (s.pc j).left) (g := fun j => (t.pc j).left)
    (worker_lt h hm) fun j hj => congrArg WorkerPc.left (hm.pc_other hj)
  simp only [State.left, State.mainLeft, hpopped, hfinished]
  omega

theorem wakeMain_left (b : Bool) : s.wakeMain.left b ≤ s.mainPc.left b + 3 := by
  unfold State.wakeMain
  split_ifs with hw
  · rw [hw]
    exact le_refl 4
  · exact Nat.le_add_right _ _

theorem worker_left (h : Inv s) (hn : s.threadHandler i = some t) : t.left < s.left := by
  have hm := State.threadHandler_move hn
  apply worker_left_of h hm
  cases hm with
  | lockOwn pc hl | unlockOwn pc hl =>
    apply Nat.add_lt_add_right
    change (Function.update s.pc i pc i).left < _
    rw [Function.update_self]
    generalize s.pc i = p at hl
    cases hl <;> decide
  | push hpc =>
    have hout : s.mainPc.insideG = false := by
      apply Bool.eq_false_iff.mpr
      intro hin
      have hmain := (h.locks.global .main).mp hin
      have hworker := (h.locks.global (.worker i)).mp (by
        rw [State.insideG, hpc]
        rfl)
      cases hmain.symm.trans hworker
    have hmain : (s.readyQueuePush (s.tData i).id).mainPc = s.mainPc :=
      (readyQueuePush_keeps s _).2.2.1
    simp only [State.setPc, Function.update_self, hmain, hpc,
      MainPc.left_outside hout _ false, WorkerPc.left]
    omega
  | signalMain hpc =>
    have hwake := wakeMain_left (s := s) (decide (s.readyQueue.head = s.readyQueue.tail))
    change (Function.update s.pc i .unlockPush i).left +
      s.wakeMain.left (decide (s.readyQueue.head = s.readyQueue.tail)) < _
    rw [Function.update_self, hpc]
    simp only [WorkerPc.left]
    omega
  | spurious hpc => simp [State.threadHandler, hpc] at hn
  | signalReady hpc | lockPush hpc | unlockPush hpc | go hpc | wait hpc | ended hpc =>
    apply Nat.add_lt_add_right
    change (Function.update s.pc i _ i).left < _
    rw [Function.update_self, hpc]
    decide

structure Polls (s t : State N) : Prop where
  joins : MainJoins s s.mainPc t.mainPc
  goto : t = s.goto t.mainPc
  before : s.mainPc.polls = true
  after : t.mainPc.polls = true

theorem MainLocks.left_lt {p q : MainPc} (h : MainLocks p q) (b : Bool) : q.left b < p.left b := by
  cases h <;> cases b <;> decide

theorem MainUnlocks.left_lt {p q : MainPc} (h : MainUnlocks p q) (b : Bool) :
    q.left b < p.left b := by
  cases h <;> exact Nat.lt_succ_self _

theorem main_left_of (hp : t.popped = s.popped) (hf : t.finishedThreads = s.finishedThreads)
    (hw : t.pc = s.pc)
    (hlt : t.mainPc.left (decide (t.readyQueue.head = t.readyQueue.tail)) <
      s.mainPc.left (decide (s.readyQueue.head = s.readyQueue.tail))) : t.left < s.left := by
  simp only [State.left, State.mainLeft, hp, hf, hw]
  omega

theorem popped_left (h : Inv s) (h' : Inv t) {id : ℕ} (hp : t.popped = s.popped ++ [id])
    (hf : t.finishedThreads = s.finishedThreads) (hw : t.pc = s.pc)
    (hlt : t.mainPc.left (decide (t.readyQueue.head = t.readyQueue.tail)) <
      s.mainPc.left (decide (s.readyQueue.head = s.readyQueue.tail)) + 16) : t.left < s.left := by
  have hnd := h'.queued.popped_nodup
  rw [hp] at hnd
  have hnew : id ∉ s.popped := fun hid =>
    (List.nodup_append.mp hnd).2.2 id hid id (List.mem_singleton_self id) rfl
  have hid : id < N := by
    apply h'.queued.lt h'.threads
    apply h'.queued.popped_subset
    rw [hp]
    exact List.mem_append_right _ (List.mem_singleton_self id)
  have hlen := length_lt_of_missing h.queued.popped_nodup
    (fun j hj => h.queued.lt h.threads (h.queued.popped_subset hj)) hnew hid
  simp only [State.left, State.mainLeft, hp, hf, hw, List.length_append, List.length_singleton]
  omega

theorem joined_left (h' : Inv t) (hp : t.popped = s.popped)
    (hf : t.finishedThreads = s.finishedThreads + 1) (hw : t.pc = s.pc)
    (hl : t.mainPc.leftCollection = true)
    (hlt : t.mainPc.left (decide (t.readyQueue.head = t.readyQueue.tail)) <
      s.mainPc.left (decide (s.readyQueue.head = s.readyQueue.tail)) + 4) : t.left < s.left := by
  have hfin := h'.joined.finished hl
  have hle := Finset.card_le_card (Finset.filter_subset (fun i => t.t i = false) (Finset.range N))
  rw [Finset.card_range] at hle
  change t.joinedThreads.card ≤ N at hle
  simp only [State.left, State.mainLeft, hp, hf, hw]
  omega

theorem wake_left (s : State N) (id : ℕ) :
    ∑ i ∈ Finset.range N, (s.wake id i).left ≤ ∑ i ∈ Finset.range N, (s.pc i).left + 2 := by
  unfold State.wake
  split_ifs with hw
  · by_cases hid : id < N
    · have hsum := sum_range_change (f := fun j => (s.pc j).left)
        (g := fun j => (Function.update s.pc id .relock j).left) hid
        fun j hj => by rw [Function.update_of_ne hj]
      rw [Function.update_self, hw] at hsum
      change _ + 3 = _ + 5 at hsum
      omega
    · apply le_trans (Finset.sum_le_sum (g := fun j => (s.pc j).left) _) (Nat.le_add_right _ _)
      intro j hj
      have hne : j ≠ id := by
        rintro rfl
        exact hid (Finset.mem_range.mp hj)
      rw [Function.update_of_ne hne]
  · exact Nat.le_add_right _ _

theorem main_left (h : Inv s) (h' : Inv t) (hn : s.main = some t) :
    t.left < s.left ∨ Polls s t := by
  have hm := State.main_move hn
  cases hm with
  | joins pc hl =>
    have hl' := hl
    generalize hpc : s.mainPc = p at hl
    cases hl with
    | exit | ended =>
      left
      refine main_left_of rfl rfl rfl ?_
      rw [hpc]
      exact Nat.lt_succ_self _
    | _ => exact .inr ⟨hl', rfl, by rw [hpc]; rfl, rfl⟩
  | popped id q hpc hq =>
    left
    refine popped_left h h' rfl rfl rfl ?_
    have hne : s.readyQueue.head ≠ s.readyQueue.tail := by
      intro he
      simp [Ring.pop, he] at hq
    simp [hpc, hne, MainPc.left]
  | joined i hpc ht =>
    left
    refine joined_left h' rfl rfl rfl rfl ?_
    simp [hpc, MainPc.left]
  | create i hpc hi =>
    left
    have hsum := sum_range_change (f := fun j => (s.pc j).left)
      (g := fun j => (Function.update s.pc i .lockReady j).left) hi
      fun j hj => by rw [Function.update_of_ne hj]
    rw [Function.update_self, h.threads.fresh hpc] at hsum
    change _ + 17 = _ + 16 at hsum
    simp only [State.left, State.mainLeft, hpc, MainPc.left]
    omega
  | signalT id hpc =>
    left
    have hwake := wake_left s id
    simp only [State.left, State.mainLeft, hpc, MainPc.left]
    omega
  | nonempty hpc =>
    left
    refine main_left_of rfl rfl rfl ?_
    have hne : s.readyQueue.head ≠ s.readyQueue.tail := by
      intro he
      simp only [State.main, hpc, he, if_true] at hn
      obtain ⟨m, -, hgo⟩ := Option.map_eq_some_iff.mp hn
      cases congrArg State.mainPc hgo
    simp [hpc, hne, State.goto, MainPc.left]
  | drained hpc =>
    left
    refine main_left_of rfl rfl rfl ?_
    have he : s.readyQueue.head = s.readyQueue.tail := by
      by_contra hne
      simp only [State.main, hpc, Ring.pop, hne, if_false] at hn
      cases congrArg State.mainPc (Option.some.inj hn)
    simp [hpc, he, State.goto, MainPc.left]
  | lock pc hl ho => exact .inl (main_left_of rfl rfl rfl (hl.left_lt _))
  | unlock pc hl ho => exact .inl (main_left_of rfl rfl rfl (hl.left_lt _))
  | destroy i object hpc =>
    left
    refine main_left_of rfl rfl rfl ?_
    rw [hpc]
    cases object <;> exact Nat.lt_succ_self _
  | created _ hpc | again hpc | leave hpc | wait hpc | lockT _ hpc | already _ hpc | fresh _ hpc
  | count _ hpc | proceed _ hpc | unlockT _ hpc =>
    left
    refine main_left_of rfl rfl rfl ?_
    simp [hpc, State.goto, MainPc.left]
  | spurious hpc => simp [State.main, hpc] at hn

theorem polls_left (h : Polls s t) : t.left = s.left := by
  have heq : ∀ (p : MainPc) (b : Bool), p.polls = true → p.left b = 2 := by
    intro p b hp
    cases p <;> first | rfl | cases hp
  rw [h.goto]
  simp only [State.left, State.mainLeft, State.goto, heq _ _ h.before, heq _ _ h.after]

theorem leftCollection_of_polls {p : MainPc} (h : p.polls = true) : p.leftCollection = true := by
  cases p <;> first | rfl | cases h

theorem next_left (h : Inv s) {a : Action} (ha : a.spurious = false) (hn : s.next a = some t) :
    t.left < s.left ∨ a = .main ∧ Polls s t := by
  cases a with
  | main =>
    rcases main_left h (inv_next h (a := .main) hn) hn with hlt | hp
    · exact .inl hlt
    · exact .inr ⟨rfl, hp⟩
  | worker i => exact .inl (worker_left h hn)
  | spuriousMain | spuriousWorker => cases ha

theorem outside_of_left {p : MainPc} (h : p.leftCollection = true) :
    p.insideG = false ∧ (∀ i, p.insideT i = false) ∧ p.created N = N ∧ ∀ i, p ≠ .signalT i := by
  cases p <;> first | cases h; done | exact ⟨rfl, fun _ => rfl, rfl, fun _ => by simp⟩

theorem free_or_worker {owner : Option Tid} {inside : Tid → Prop} (h : Guards owner inside)
    (hmain : ¬ inside .main)
    (hworker : ∀ j, inside (.worker j) → ∃ t, s.threadHandler j = some t) :
    owner = none ∨ ∃ j, (s.threadHandler j).isSome = true := by
  rcases h.free_or_inside with hfree | ⟨τ, hτ⟩
  · exact .inl hfree
  · cases τ with
    | main => exact absurd hτ hmain
    | worker j => exact .inr ⟨j, Option.isSome_iff_exists.mpr (hworker j hτ)⟩

theorem joining_goes (h : Inv s) (hw : Wakes s) (hl : s.mainPc.leftCollection = true)
    (hi : i < N) (ht : s.pc i ≠ .terminated) : ∃ j, (s.threadHandler j).isSome = true := by
  have hout := outside_of_left (N := N) hl
  have hown : (s.tData i).mutex = none ∨ ∃ j, (s.threadHandler j).isSome = true := by
    apply free_or_worker (h.locks.own i)
    · exact Bool.eq_false_iff.mp (hout.2.1 i)
    · exact fun j hj => insideOwn_goes h.locks hj.2
  have hglobal : s.mutexGSync = none ∨ ∃ j, (s.threadHandler j).isSome = true :=
    free_or_worker h.locks.global (Bool.eq_false_iff.mp hout.1) fun j => insideG_goes h.locks
  cases hpc : s.pc i with
  | notCreated =>
    have hc : (s.pc i).isCreated = true := by
      apply (h.threads.created i).mpr
      change i < s.mainPc.created N
      rwa [hout.2.2.1]
    rw [hpc] at hc
    cases hc
  | waiting => exact absurd (hw.worker i hpc (h.all_flagged hl hi)) (hout.2.2.2 i)
  | lockReady | lockProceed | relock =>
    rcases hown with hfree | hgoes
    · refine ⟨i, ?_⟩
      simp only [State.threadHandler, hpc, State.acquireOwn, hfree]
      rfl
    · exact hgoes
  | lockPush =>
    rcases hglobal with hfree | hgoes
    · refine ⟨i, ?_⟩
      simp only [State.threadHandler, hpc, hfree]
      rfl
    · exact hgoes
  | push | signalMain | unlockPush =>
    exact ⟨i, Option.isSome_iff_exists.mpr (insideG_goes h.locks (by rw [hpc]; rfl))⟩
  | signalReady | unlockReady | testProceed | unlockProceed =>
    exact ⟨i, Option.isSome_iff_exists.mpr (insideOwn_goes h.locks (by rw [hpc]; rfl))⟩
  | exiting =>
    refine ⟨i, ?_⟩
    simp only [State.threadHandler, hpc]
    rfl
  | terminated => exact absurd hpc ht

theorem threadHandler_goto (s : State N) (pc : MainPc) (i : ℕ) :
    ((s.goto pc).threadHandler i).isSome = (s.threadHandler i).isSome := by
  cases hpc : s.pc i <;> cases hp : (s.tData i).toProceed <;>
    simp [State.threadHandler, State.goto, hpc, hp, State.acquireOwn, State.releaseOwn]

def pollRank (N : ℕ) (t : ℕ → Bool) : MainPc → ℕ
  | .joinLoop i => N + 1 - i + if ∃ k, k < N ∧ i ≤ k ∧ t k = true then 0 else N + 5
  | .usleep => N + 4
  | .joinTest => N + 3
  | _ => 0

theorem polls_rank (h : Inv s) (hall : ∀ i, i < N → s.pc i = .terminated) (hp : Polls s t) :
    pollRank N s.t t.mainPc < pollRank N s.t s.mainPc := by
  have hj := hp.joins
  have hafter := hp.after
  have hjoined := h.joined
  have hl := leftCollection_of_polls hp.before
  generalize t.mainPc = q at hj hafter
  cases hpc : s.mainPc <;> rw [hpc] at hj hl <;> cases hj
  case joinTest.first hf =>
    have hleft : ∃ k, k < N ∧ 0 ≤ k ∧ s.t k = true := by
      by_contra hnone
      have hset : s.joinedThreads = Finset.range N := by
        apply Finset.filter_true_of_mem
        intro k hk
        by_contra ht
        exact hnone ⟨k, Finset.mem_range.mp hk, Nat.zero_le k, Bool.eq_true_of_not_eq_false ht⟩
      have hfin := hjoined.finished (by rw [hpc]; rfl)
      rw [hset, Finset.card_range] at hfin
      omega
    simp only [pollRank, if_pos hleft]
    omega
  case joinLoop.skip i hi ht =>
    have hiff : (∃ k, k < N ∧ i + 1 ≤ k ∧ s.t k = true) ↔ ∃ k, k < N ∧ i ≤ k ∧ s.t k = true := by
      constructor
      · rintro ⟨k, hk, hik, htk⟩
        exact ⟨k, hk, by omega, htk⟩
      · rintro ⟨k, hk, hik, htk⟩
        have hne : i ≠ k := by
          rintro rfl
          rw [ht] at htk
          cases htk
        exact ⟨k, hk, by omega, htk⟩
    simp only [pollRank, hiff]
    omega
  case joinLoop.tryjoin i hi ht =>
    simp only [pollRank]
    omega
  case joinLoop.round i hi =>
    have hnone : ¬ ∃ k, k < N ∧ i ≤ k ∧ s.t k = true := by
      rintro ⟨k, hk, hik, -⟩
      omega
    simp only [pollRank, if_neg hnone]
    omega
  case tryjoin.busy i ht => exact absurd (hall i (hjoined.tryjoin i hpc).1) ht
  case usleep.again => exact Nat.lt_succ_self _
  all_goals cases hafter

theorem polls_forever {r : (readyQueue N).Endless} (h : (readyQueue N).Reachable (r.state 0))
    (hs : ∀ n, (r.action n).spurious = false) :
    ∃ n, ∀ m, n ≤ m → r.action m = .main ∧ Polls (r.state m) (r.state (m + 1)) := by
  apply r.settles State.left
  intro n
  have hi := inv_reachable (r.reachable h n)
  rcases next_left hi (hs n) (r.next n) with hlt | ⟨ha, hp⟩
  · exact .inl hlt
  · exact .inr ⟨⟨ha, hp⟩, polls_left hp⟩

theorem state_of_polls {r : (readyQueue N).Endless} {n : ℕ}
    (hp : ∀ m, n ≤ m → Polls (r.state m) (r.state (m + 1))) {m : ℕ} (hm : n ≤ m) :
    r.state m = (r.state n).goto (r.state m).mainPc := by
  induction m, hm using Nat.le_induction with
  | base => rfl
  | succ m hm ih =>
    have hgo := (hp m hm).goto
    rw [ih] at hgo
    exact hgo

theorem endless_starves {r : (readyQueue N).Endless} (h : (readyQueue N).Reachable (r.state 0))
    (hs : ∀ n, (r.action n).spurious = false) : ∃ i, r.Starves (.worker i) := by
  obtain ⟨n, hn⟩ := polls_forever h hs
  have hr := r.reachable h n
  have hi := inv_reachable hr
  have hstate {m : ℕ} (hm : n ≤ m) := state_of_polls (fun m hm => (hn m hm).2) hm
  have hl := leftCollection_of_polls (hn n (le_refl n)).2.before
  by_cases hall : ∀ i, i < N → (r.state n).pc i = .terminated
  · exfalso
    obtain ⟨m, hm, hlt⟩ :=
      r.not_always_lower (fun s => pollRank N (r.state n).t s.mainPc) n
    apply hlt
    have hrank := polls_rank (inv_reachable (r.reachable h m)) ?_ (hn m hm).2
    · rw [hstate hm] at hrank
      exact hrank
    · rw [hstate hm]
      exact hall
  · push Not at hall
    obtain ⟨i, hiN, hit⟩ := hall
    obtain ⟨j, hj⟩ := joining_goes hi (wakes_reachable hr) hl hiN hit
    refine ⟨j, n, fun m hm => ⟨?_, ?_⟩⟩
    · rw [hstate hm]
      exact (threadHandler_goto _ _ _).trans hj
    · rw [(hn m hm).1]
      exact Action.noConfusion

def Cleaned (s : State N) : Prop :=
  s.mainPc.leftCollection = true → ∀ i, i < N → s.t i = false →
    ∀ o, o ∉ s.mainPc.remaining i → (i, o) ∈ s.destroyed

theorem Cleaned.congr (h : Cleaned s) (hl : t.mainPc.leftCollection = s.mainPc.leftCollection)
    (ht : t.t = s.t) (hd : t.destroyed = s.destroyed)
    (hr : ∀ i, t.mainPc.remaining i = s.mainPc.remaining i) : Cleaned t := by
  unfold Cleaned
  rw [hl, ht, hd]
  intro hleft i hi hti o ho
  exact h hleft i hi hti o (hr i ▸ ho)

theorem cleaned_worker (hm : WorkerMove s i t) (h : Cleaned s) : Cleaned t := by
  obtain ⟨-, -, -, ht, -, hd⟩ := hm.keeps_main
  exact h.congr (hm.mainPc_class _ rfl) ht hd fun j => hm.mainPc_class (MainPc.remaining j) rfl

theorem cleaned_destroy {k : ℕ} {object : Object} (hpc : s.mainPc = .destroy k object)
    (h : Cleaned s) : Cleaned { s with
      destroyed := s.destroyed ++ [(k, object)], mainPc := State.afterDestroy k object } := by
  intro _ i hi hti o ho
  by_cases hio : (i, o) = (k, object)
  · rw [hio]
    exact List.mem_append_right _ (List.mem_singleton_self _)
  · apply List.mem_append_left
    refine h (by rw [hpc]; rfl) i hi hti o ?_
    rw [hpc]
    intro hmem
    cases object <;> cases o <;> simp_all [State.afterDestroy, MainPc.remaining]

theorem cleaned_main (hm : MainMove s t) (hj : Joined s) (h : Cleaned s) : Cleaned t := by
  cases hm with
  | leave hpc hc =>
    intro _ i hi hti
    have hnone := (hj.none (by rw [hpc]; rfl)).2 i (by rw [hpc]; exact hi)
    cases hnone.symm.trans hti
  | joined k hpc ht =>
    intro _ i hi hti o ho
    by_cases hik : i = k
    · subst hik
      cases o <;> simp [MainPc.remaining] at ho
    · change Function.update s.t k false i = false at hti
      rw [Function.update_of_ne hik] at hti
      refine h (by rw [hpc]; rfl) i hi hti o ?_
      rw [hpc]
      exact List.not_mem_nil
  | destroy k object hpc => exact cleaned_destroy hpc h
  | joins pc hl =>
    refine h.congr hl.left rfl rfl ?_
    intro i
    change pc.remaining i = s.mainPc.remaining i
    generalize s.mainPc = p at hl
    cases hl <;> rfl
  | lock pc hl | unlock pc hl =>
    intro hleft
    change pc.leftCollection = true at hleft
    generalize s.mainPc = p at hl
    cases hl <;> cases hleft
  | _ =>
    intro hleft
    cases hleft

theorem cleaned_reachable (h : (readyQueue N).Reachable s) : Cleaned s := by
  apply System.Reachable.induct _ _ h
  · rintro _ rfl hleft
    cases hleft
  · intro s a t hr hs hn
    rcases State.next_move hn with hm | ⟨i, hm⟩
    · exact cleaned_main hm (inv_reachable hr).joined hs
    · exact cleaned_worker hm hs

theorem stuck_iff (h : Inv s) (hw : Wakes s) :
    (∀ a, a.spurious = false → s.next a = none) ↔ s.mainPc = .terminated := by
  constructor
  · intro hstuck
    by_contra ht
    rcases main_goes h hw ht with ⟨t, hm⟩ | ⟨i, t, hm⟩
    · cases (hstuck .main rfl).symm.trans hm
    · cases (hstuck (.worker i) rfl).symm.trans hm
  · intro hpc a ha
    cases a with
    | main => simp [State.next, State.main, hpc]
    | worker i =>
      have hend := all_terminated h hpc i
      cases hi : s.pc i <;> rw [hi] at hend
      case notCreated | terminated => simp [State.next, State.threadHandler, hi]
      all_goals cases hend rfl
    | spuriousMain | spuriousWorker => cases ha

structure Served (s : State N) : Prop where
  ended : ∀ i, i < N → s.pc i = .terminated
  proceed : ∀ i, i < N → (s.tData i).toProceed = true
  counted : s.counted.Perm (List.range N)
  nodup : s.destroyed.Nodup
  destroyed : ∀ i o, (i, o) ∈ s.destroyed ↔ i < N

theorem served_of_terminated (h : Inv s) (hc : Cleaned s) (hpc : s.mainPc = .terminated) :
    Served s := by
  have hl : s.mainPc.leftCollection = true := by
    rw [hpc]
    rfl
  have ht : ∀ i, i < N → s.t i = false := h.joined.ended (.inr hpc)
  refine ⟨?_, fun i => h.all_flagged hl, ?_, h.destroyed.nodup, ?_⟩
  · intro i hi
    exact h.joined.terminated i (by rwa [hpc]) (ht i hi)
  · apply (List.perm_ext_iff_of_nodup (h.counted.nodup h.queued) List.nodup_range).mpr
    intro i
    rw [List.mem_range]
    exact ⟨h.counted_lt, fun hi => h.flagged (h.all_flagged hl hi)⟩
  · intro i o
    constructor
    · exact fun hd => (h.destroyed.joined i o hd).1
    · intro hi
      apply hc hl i hi (ht i hi)
      rw [hpc]
      exact List.not_mem_nil

/-- A run without spurious wake-ups goes on for ever only if `main` polls in it from some state on
and a thread is starved, and it ends only with `main`, when all the threads have been given leave,
joined and cleaned up. -/
theorem handshake_ends (N : ℕ) :
    (∀ r : (readyQueue N).Endless, (readyQueue N).Reachable (r.state 0) →
      (∀ n, (r.action n).spurious = false) → (∃ i, r.Starves (.worker i)) ∧
        ∃ n, ∀ m, n ≤ m → r.action m = .main ∧ Polls (r.state m) (r.state (m + 1))) ∧
      ∀ s : State N, (readyQueue N).Reachable s →
        ((∀ a, a.spurious = false → s.next a = none) ↔ s.mainPc = .terminated) ∧
        (s.mainPc = .terminated → Served s) := by
  refine ⟨fun r h hs => ⟨endless_starves h hs, polls_forever h hs⟩, fun s h => ?_⟩
  have hi := inv_reachable h
  exact ⟨stuck_iff hi (wakes_reachable h), served_of_terminated hi (cleaned_reachable h)⟩

def polled : MainPc → MainPc
  | .usleep => .joinTest
  | .joinTest => .joinLoop 0
  | .joinLoop 0 => .tryjoin 0
  | .tryjoin _ => .joinLoop 1
  | _ => .usleep

theorem polled_iterate (n : ℕ) :
    polled^[n] .usleep ∈ [MainPc.usleep, .joinTest, .joinLoop 0, .tryjoin 0, .joinLoop 1] := by
  induction n with
  | zero => exact List.mem_cons_self
  | succ n ih =>
    rw [Function.iterate_succ_apply']
    revert ih
    generalize polled^[n] .usleep = p
    revert p
    decide

def polling : List Action :=
  List.replicate 5 .main ++ List.replicate 7 (.worker 0) ++ List.replicate 18 .main

theorem handshake_ends_one : (∃ r : (readyQueue 1).Endless, ∃ i, r.Starves (.worker i)) ∧
    ∃ s : State 1, s.mainPc = .terminated ∧ Served s := by
  constructor
  · have hrun : ((readyQueue 1).run (State.initial 1) polling).map
        (fun s => (s.mainPc, s.pc 0, s.t 0, s.finishedThreads)) =
          some (.usleep, .lockProceed, true, 0) := by decide +kernel
    obtain ⟨s, hs, he⟩ := Option.map_eq_some_iff.mp hrun
    simp only [Prod.mk.injEq] at he
    obtain ⟨hmain, hpc, ht, hf⟩ := he
    have hr : (readyQueue 1).Reachable s := .run polling (.init rfl) hs
    have hnext : ∀ n, (readyQueue 1).next (s.goto (polled^[n] .usleep)) .main =
        some (s.goto (polled^[n + 1] .usleep)) := by
      intro n
      have hmem := polled_iterate n
      rw [Function.iterate_succ_apply']
      generalize polled^[n] .usleep = p at hmem
      simp only [List.mem_cons, List.not_mem_nil, or_false] at hmem
      rcases hmem with rfl | rfl | rfl | rfl | rfl <;>
        simp [readyQueue, State.next, State.main, State.goto, polled, hpc, ht, hf]
    let r : (readyQueue 1).Endless := ⟨fun n => s.goto (polled^[n] .usleep), fun _ => .main, hnext⟩
    have hstart : r.state 0 = s := by
      change s.goto .usleep = s
      rw [← hmain]
      rfl
    exact ⟨r, ((handshake_ends 1).1 r (hstart ▸ hr) fun _ => rfl).1⟩
  · have hrun : ((readyQueue 1).run (State.initial 1) (polling ++ List.replicate 4 (.worker 0) ++
        List.replicate 11 .main)).map (fun s => s.mainPc) = some .terminated := by decide +kernel
    obtain ⟨s, hs, hpc⟩ := Option.map_eq_some_iff.mp hrun
    have hr : (readyQueue 1).Reachable s := .run _ (.init rfl) hs
    exact ⟨s, hpc, ((handshake_ends 1).2 s hr).2 hpc⟩

end LinuxSystemProgramming.ReadyQueue
