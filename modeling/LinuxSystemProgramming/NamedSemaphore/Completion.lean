import LinuxSystemProgramming.Lib.Counting
import LinuxSystemProgramming.Lib.SemaphoreLedger
import LinuxSystemProgramming.NamedSemaphore.Moves

namespace LinuxSystemProgramming.NamedSemaphore

open Counting NamedObjects Semaphores Transition

variable {V K : ℕ}

def Kernel.handles (V : ℕ) (k : Kernel) : Handles :=
  ⟨(k.sem.openCreate (.init V)).2, (k.semDoneCnt.openCreate (.init semDoneCntInitialValue)).2⟩

def Kernel.foundSem (V : ℕ) (k : Kernel) : ℕ :=
  ((k.sem.openCreate (.init V)).1.object (k.handles V).sem).value

def Kernel.foundDoneCnt (V : ℕ) (k : Kernel) : ℕ :=
  ((k.semDoneCnt.openCreate (.init semDoneCntInitialValue)).1.object
    (k.handles V).semDoneCnt).value

def P1Pc.taken (K : ℕ) : P1Pc → Option ℕ
  | .openSem | .openDoneCnt _ | .wait _ | .critical _ _ => some 0
  | .waitDoneCnt _ i => some i
  | .closeDoneCnt _ | .closeSem _ | .unlinkDoneCnt | .unlinkSem | .exited true => some K
  | .exited false | .killed => none

def P1Pc.closing : P1Pc → Bool
  | .closeDoneCnt _ | .closeSem _ | .unlinkDoneCnt | .unlinkSem | .exited true => true
  | _ => false

def JoinerPc.mayPost : JoinerPc → Bool
  | .openSem | .openDoneCnt _ | .wait _ | .critical _ _ | .postDoneCnt _ => true
  | _ => false

def P1At (K : ℕ) (o : Handles) (k : Kernel) : P1Pc → Prop
  | .openSem => k.sem.Awaits o.sem ∧ k.semDoneCnt.Awaits o.semDoneCnt
  | .openDoneCnt sem => (∀ i, sem = some i → i = o.sem ∧ k.sem.named = some o.sem) ∧
      k.semDoneCnt.Awaits o.semDoneCnt
  | .wait h | .critical h _ | .closeDoneCnt h | .closeSem h =>
      h = o ∧ k.sem.named = some o.sem ∧ k.semDoneCnt.named = some o.semDoneCnt
  | .waitDoneCnt h i =>
      i < K ∧ h = o ∧ k.sem.named = some o.sem ∧ k.semDoneCnt.named = some o.semDoneCnt
  | .unlinkDoneCnt => k.sem.named = some o.sem ∧ k.semDoneCnt.named = some o.semDoneCnt
  | .unlinkSem => k.sem.named = some o.sem ∧ o.semDoneCnt < k.semDoneCnt.fresh
  | .exited true => o.sem < k.sem.fresh ∧ o.semDoneCnt < k.semDoneCnt.fresh
  | .exited false | .killed => True

def JoinerAt (o : Handles) (k : Kernel) : JoinerPc → Prop
  | .openDoneCnt sem => ∀ i, sem = some i → i = o.sem ∧ o.sem < k.sem.fresh
  | .wait h | .critical h _ | .postDoneCnt h | .closeDoneCnt h | .closeSem h =>
      h = o ∧ o.sem < k.sem.fresh ∧ o.semDoneCnt < k.semDoneCnt.fresh
  | .openSem | .exited _ | .killed => True

structure Inv (V : ℕ) (k₀ : Kernel) (s : State K) : Prop where
  sem : s.kernel.sem.Stands (k₀.handles V).sem
  semDoneCnt : s.kernel.semDoneCnt.Stands (k₀.handles V).semDoneCnt
  p1 : P1At K (k₀.handles V) s.kernel s.p1
  joiners : ∀ i, JoinerAt (k₀.handles V) s.kernel (s.joiners i)
  posted : ∀ i, (s.joiners i).mayPost = true → s.posted i = false
  taken : ∀ n, s.p1.taken K = some n → Ledger s.kernel.semDoneCnt (k₀.handles V).semDoneCnt
    semDoneCntInitialValue (k₀.foundDoneCnt V) (count id s.posted) n

variable {k₀ : Kernel} {s t : State K}

theorem inv_start (V K : ℕ) (k₀ : Kernel) : Inv V k₀ (State.start K k₀) := by
  obtain ⟨hs, hsa⟩ := Store.stands_openCreate k₀.sem (.init V)
  obtain ⟨hd, hda⟩ := Store.stands_openCreate k₀.semDoneCnt (.init semDoneCntInitialValue)
  refine ⟨hs, hd, ⟨hsa, hda⟩, fun _ => trivial, fun _ _ => rfl, ?_⟩
  intro n hn
  obtain rfl := Option.some.inj hn
  exact (Ledger.of_openCreate _ _).congr (count_eq_zero fun _ => rfl) rfl

theorem JoinerAt.mono {o : Handles} {k k' : Kernel} {pc : JoinerPc} (h : JoinerAt o k pc)
    (hs : k.sem.fresh ≤ k'.sem.fresh) (hd : k.semDoneCnt.fresh ≤ k'.semDoneCnt.fresh) :
    JoinerAt o k' pc := by
  cases pc with
  | openDoneCnt sem =>
    intro i hi
    obtain ⟨rfl, hlt⟩ := h i hi
    exact ⟨rfl, lt_of_lt_of_le hlt hs⟩
  | wait | critical | postDoneCnt | closeDoneCnt | closeSem =>
    obtain ⟨rfl, hls, hld⟩ := h
    exact ⟨rfl, lt_of_lt_of_le hls hs, lt_of_lt_of_le hld hd⟩
  | openSem | exited | killed => trivial

theorem Inv.p1_step (h : Inv V k₀ s) (hj : t.joiners = s.joiners) (hp : t.posted = s.posted)
    (hs : t.kernel.sem.Stands (k₀.handles V).sem)
    (hd : t.kernel.semDoneCnt.Stands (k₀.handles V).semDoneCnt)
    (hfs : s.kernel.sem.fresh ≤ t.kernel.sem.fresh)
    (hfd : s.kernel.semDoneCnt.fresh ≤ t.kernel.semDoneCnt.fresh)
    (hat : P1At K (k₀.handles V) t.kernel t.p1)
    (hl : ∀ n, t.p1.taken K = some n → Ledger t.kernel.semDoneCnt (k₀.handles V).semDoneCnt
      semDoneCntInitialValue (k₀.foundDoneCnt V) (count id s.posted) n) : Inv V k₀ t := by
  refine ⟨hs, hd, hat, ?_, ?_, ?_⟩
  · intro i
    rw [hj]
    exact (h.joiners i).mono hfs hfd
  · rw [hj, hp]
    exact h.posted
  · rw [hp]
    exact hl

theorem P1Pc.taken_loop {h : Handles} {i : ℕ} (hi : i ≤ K) :
    (P1Pc.loop K h i).taken K = some i := by
  unfold P1Pc.loop
  split_ifs with hlt
  · rfl
  · exact congrArg some (by omega)

theorem p1At_loop {o : Handles} {k : Kernel} {i : ℕ} (hs : k.sem.named = some o.sem)
    (hd : k.semDoneCnt.named = some o.semDoneCnt) : P1At K o k (.loop K o i) := by
  unfold P1Pc.loop
  split_ifs with hlt
  · exact ⟨hlt, rfl, hs, hd⟩
  · exact ⟨rfl, hs, hd⟩

theorem inv_p1_quiet {a : Attempt} {pc : P1Pc} (h : Inv V k₀ s) (hq : P1Quiet K s.p1 a pc) :
    Inv V k₀ (s.goto pc) := by
  have hp := h.p1
  have hl := h.taken
  refine h.p1_step rfl rfl h.sem h.semDoneCnt (le_refl _) (le_refl _) ?_ ?_
  · change P1At K _ s.kernel pc
    generalize s.p1 = p at hq hp
    cases hq with
    | openSem => exact ⟨by simp, hp.2⟩
    | openDoneCnt | waitDoneCnt | killed => trivial
    | wait => exact hp
    | post h b =>
      obtain ⟨rfl, hs, hd⟩ := hp
      exact p1At_loop hs hd
    | closeDoneCnt => exact hp
    | closeSem => exact hp.2
    | unlinkDoneCnt => exact ⟨hp.1, s.kernel.semDoneCnt.named_lt _ hp.2⟩
    | unlinkSem => exact ⟨s.kernel.sem.named_lt _ hp.1, hp.2⟩
  · change ∀ n, pc.taken K = some n → _
    generalize s.p1 = p at hq hl
    cases hq with
    | openDoneCnt | waitDoneCnt | killed => exact fun _ hn => nomatch hn
    | post h b => rwa [P1Pc.taken_loop (Nat.zero_le K)]
    | openSem | wait | closeDoneCnt | closeSem | unlinkDoneCnt | unlinkSem => exact hl

theorem inv_p1 {a : Attempt} (h : Inv V k₀ s) (hm : P1Move V s a t) : Inv V k₀ t := by
  have hp := h.p1
  cases hm with
  | opensSem hpc =>
    rw [hpc] at hp
    obtain ⟨ho, hn⟩ := h.sem.openCreate hp.1 (.init V)
    refine h.p1_step rfl rfl (h.sem.openCreate_stands hp.1 _) h.semDoneCnt ?_ ?_ ?_ ?_
    · exact Store.openCreate_fresh _ _
    · exact le_refl _
    · refine ⟨fun i hi => ?_, hp.2⟩
      exact ⟨(Option.some.inj hi).symm.trans ho, hn⟩
    · exact fun n hn => h.taken n (hpc ▸ hn)
  | opensDoneCnt sem hpc =>
    rw [hpc] at hp
    obtain ⟨ho, hn⟩ := h.semDoneCnt.openCreate hp.2 (.init semDoneCntInitialValue)
    refine h.p1_step rfl rfl h.sem (h.semDoneCnt.openCreate_stands hp.2 _) ?_ ?_ ?_ ?_
    · exact le_refl _
    · exact Store.openCreate_fresh _ _
    · cases sem with
      | none => trivial
      | some i =>
        obtain ⟨rfl, hs⟩ := hp.1 i rfl
        refine ⟨?_, hs, hn⟩
        rw [ho]
    · have hl := h.taken 0 (by rw [hpc, P1Pc.taken])
      intro n hn
      cases sem with
      | none => cases hn
      | some i =>
        cases hn
        exact hl.openCreate h.semDoneCnt hp.2
  | enters o x hpc hw =>
    rw [hpc] at hp
    have hs : (s.kernel.sem.modify o.sem (fun _ => x)).Stands (k₀.handles V).sem := h.sem.modify
    exact h.p1_step rfl rfl hs h.semDoneCnt (le_refl _) (le_refl _) hp
      (fun n hn => h.taken n (hpc ▸ hn))
  | leaves o b hpc =>
    rw [hpc] at hp
    obtain ⟨rfl, hs, hd⟩ := hp
    refine h.p1_step rfl rfl h.sem.modify h.semDoneCnt (le_refl _) (le_refl _) ?_ ?_
    · exact p1At_loop hs hd
    · intro n hn
      have hn' : (P1Pc.loop K (k₀.handles V) 0).taken K = some n := hn
      rw [P1Pc.taken_loop (Nat.zero_le K)] at hn'
      exact h.taken n (hpc ▸ hn')
  | takes o i x hpc hw =>
    rw [hpc] at hp
    obtain ⟨hi, rfl, hs, hd⟩ := hp
    have hst : (s.kernel.semDoneCnt.modify (k₀.handles V).semDoneCnt (fun _ => x)).Stands
        (k₀.handles V).semDoneCnt := h.semDoneCnt.modify
    refine h.p1_step rfl rfl h.sem hst (le_refl _) (le_refl _) ?_ ?_
    · exact p1At_loop hs hd
    · intro n hn
      have hn' : (P1Pc.loop K (k₀.handles V) (i + 1)).taken K = some n := hn
      rw [P1Pc.taken_loop hi] at hn'
      obtain rfl := Option.some.inj hn'
      exact (h.taken i (by rw [hpc, P1Pc.taken])).wait (s.kernel.semDoneCnt.named_lt _ hd) hw rfl
  | unlinksDoneCnt hpc =>
    rw [hpc] at hp
    refine h.p1_step rfl rfl h.sem h.semDoneCnt.unlink (le_refl _) (le_refl _) ?_ ?_
    · exact ⟨hp.1, s.kernel.semDoneCnt.named_lt _ hp.2⟩
    · exact fun n hn => (h.taken n (hpc ▸ hn)).unlink
  | unlinksSem hpc =>
    rw [hpc] at hp
    refine h.p1_step rfl rfl h.sem.unlink h.semDoneCnt (le_refl _) (le_refl _) ?_ ?_
    · exact ⟨s.kernel.sem.named_lt _ hp.1, hp.2⟩
    · exact fun n hn => h.taken n (hpc ▸ hn)
  | quiet a pc hq => exact inv_p1_quiet h hq

theorem P1At.congr {o : Handles} {k k' : Kernel} {pc : P1Pc} (h : P1At K o k pc)
    (hs : k'.sem.named = k.sem.named ∧ k'.sem.fresh = k.sem.fresh)
    (hd : k'.semDoneCnt.named = k.semDoneCnt.named ∧ k'.semDoneCnt.fresh = k.semDoneCnt.fresh) :
    P1At K o k' pc := by
  unfold P1At Store.Awaits at *
  rw [hs.1, hs.2, hd.1, hd.2]
  exact h

theorem Inv.joiner_step (h : Inv V k₀ s) {i : Fin K} {q : JoinerPc} (hp1 : t.p1 = s.p1)
    (hj : t.joiners = Function.update s.joiners i q)
    (hs : t.kernel.sem.named = s.kernel.sem.named ∧ t.kernel.sem.fresh = s.kernel.sem.fresh)
    (hd : t.kernel.semDoneCnt.named = s.kernel.semDoneCnt.named ∧
      t.kernel.semDoneCnt.fresh = s.kernel.semDoneCnt.fresh)
    (hat : JoinerAt (k₀.handles V) s.kernel q)
    (hp : ∀ j, (Function.update s.joiners i q j).mayPost = true → t.posted j = false)
    (hl : ∀ n, s.p1.taken K = some n → Ledger t.kernel.semDoneCnt (k₀.handles V).semDoneCnt
      semDoneCntInitialValue (k₀.foundDoneCnt V) (count id t.posted) n) : Inv V k₀ t := by
  refine ⟨⟨?_, ?_⟩, ⟨?_, ?_⟩, ?_, ?_, ?_, ?_⟩
  · rw [hs.1]
    exact h.sem.named
  · rw [hs.2]
    exact h.sem.le
  · rw [hd.1]
    exact h.semDoneCnt.named
  · rw [hd.2]
    exact h.semDoneCnt.le
  · rw [hp1]
    exact h.p1.congr hs hd
  · intro j
    apply JoinerAt.mono _ hs.2.ge hd.2.ge
    rw [hj]
    by_cases hji : j = i
    · rwa [hji, Function.update_self]
    · rw [Function.update_of_ne hji]
      exact h.joiners j
  · rwa [hj]
  · rwa [hp1]

theorem Inv.posted_update (h : Inv V k₀ s) {i : Fin K} {pc : JoinerPc}
    (hpc : pc.mayPost = true → (s.joiners i).mayPost = true) (j : Fin K)
    (hj : (Function.update s.joiners i pc j).mayPost = true) : s.posted j = false := by
  by_cases hji : j = i
  · subst hji
    rw [Function.update_self] at hj
    exact h.posted j (hpc hj)
  · rw [Function.update_of_ne hji] at hj
    exact h.posted j hj

theorem inv_joiner_quiet {i : Fin K} {a : Attempt} {pc : JoinerPc} (h : Inv V k₀ s)
    (hq : JoinerQuiet s.kernel (s.joiners i) a pc) : Inv V k₀ (s.setJoiner i pc) := by
  have hat := h.joiners i
  refine h.joiner_step rfl rfl ⟨rfl, rfl⟩ ⟨rfl, rfl⟩ ?_ ?_ ?_
  · generalize s.joiners i = p at hq hat
    cases hq with
    | openSem =>
      intro j hj
      obtain rfl := h.sem.named j hj
      exact ⟨rfl, s.kernel.sem.named_lt _ hj⟩
    | openDoneCnt sem =>
      cases hd : s.kernel.semDoneCnt.named with
      | none => rw [JoinerPc.opened_none]; trivial
      | some d =>
        cases sem with
        | none => trivial
        | some j =>
          obtain ⟨rfl, hlt⟩ := hat j rfl
          obtain rfl := h.semDoneCnt.named d hd
          exact ⟨rfl, hlt, s.kernel.semDoneCnt.named_lt _ hd⟩
    | noSem => exact fun j hj => nomatch hj
    | noDoneCnt | closeSem | killed => trivial
    | wait | post | postDoneCnt | closeDoneCnt => exact hat
  · apply h.posted_update
    generalize s.joiners i = p at hq
    cases hq with
    | openSem | openDoneCnt | noSem | wait | post => exact fun _ => rfl
    | noDoneCnt | postDoneCnt | closeDoneCnt | closeSem | killed => exact fun hc => nomatch hc
  · exact h.taken

theorem inv_joiner {i : Fin K} {a : Attempt} (h : Inv V k₀ s) (hm : JoinerMove s i a t) :
    Inv V k₀ t := by
  have hat := h.joiners i
  cases hm with
  | enters o x hpc hw =>
    rw [hpc] at hat
    refine h.joiner_step (q := .critical o true) rfl rfl ⟨rfl, rfl⟩ ⟨rfl, rfl⟩ hat ?_ h.taken
    exact h.posted_update (fun _ => by rw [hpc]; rfl)
  | leaves o b hpc =>
    rw [hpc] at hat
    refine h.joiner_step (q := .postDoneCnt o) rfl rfl ⟨rfl, rfl⟩ ⟨rfl, rfl⟩ hat ?_ h.taken
    exact h.posted_update (fun _ => by rw [hpc]; rfl)
  | posts o hpc =>
    rw [hpc] at hat
    obtain ⟨rfl, hs, hd⟩ := hat
    refine h.joiner_step (q := .closeDoneCnt (k₀.handles V)) rfl rfl ⟨rfl, rfl⟩ ⟨rfl, rfl⟩
      ⟨rfl, hs, hd⟩ ?_ ?_
    · intro j hj
      by_cases hji : j = i
      · rw [hji, Function.update_self] at hj
        cases hj
      · rw [Function.update_of_ne hji] at hj
        change Function.update s.posted i true j = false
        rw [Function.update_of_ne hji]
        exact h.posted j hj
    · intro n hn
      apply (h.taken n hn).post hd
      have hc : count id (Function.update s.posted i true) = count id s.posted + 1 :=
        count_enter (h.posted i (by rw [hpc]; rfl)) rfl
      change count id (Function.update s.posted i true) + n = _
      omega
  | quiet a pc hq => exact inv_joiner_quiet h hq

theorem inv_reachable (hr : (runOf V K k₀).Reachable s) : Inv V k₀ s := by
  apply System.Reachable.induct _ _ hr
  · rintro _ rfl
    exact inv_start V K k₀
  · intro s a t _ hi hn
    cases a with
    | p1 a => exact inv_p1 hi (p1_move hn)
    | joiner i a => exact inv_joiner hi (joiner_move hn)

theorem P1Pc.taken_of_closing {pc : P1Pc} (h : pc.closing = true) : pc.taken K = some K := by
  cases pc with
  | closeDoneCnt | closeSem | unlinkDoneCnt | unlinkSem => rfl
  | exited success =>
    cases success with
    | true => rfl
    | false => cases h
  | _ => cases h

theorem Inv.exists_of_closing (h : Inv V k₀ s) (hc : s.p1.closing = true) :
    (k₀.handles V).sem < s.kernel.sem.fresh ∧
      (k₀.handles V).semDoneCnt < s.kernel.semDoneCnt.fresh := by
  have hp := h.p1
  cases hpc : s.p1 with
  | closeDoneCnt | closeSem =>
    rw [hpc] at hp
    exact ⟨s.kernel.sem.named_lt _ hp.2.1, s.kernel.semDoneCnt.named_lt _ hp.2.2⟩
  | unlinkDoneCnt =>
    rw [hpc] at hp
    exact ⟨s.kernel.sem.named_lt _ hp.1, s.kernel.semDoneCnt.named_lt _ hp.2⟩
  | unlinkSem =>
    rw [hpc] at hp
    exact ⟨s.kernel.sem.named_lt _ hp.1, hp.2⟩
  | exited success =>
    rw [hpc] at hp hc
    cases success with
    | true => exact hp
    | false => cases hc
  | _ => rw [hpc] at hc; cases hc

theorem Inv.all_posted (h : Inv V k₀ s) (hf : k₀.foundDoneCnt V = 0)
    (hc : s.p1.closing = true) :
    (∀ i, s.posted i = true) ∧
      (s.kernel.semDoneCnt.object (k₀.handles V).semDoneCnt).value = 0 := by
  have hl := (h.taken K (P1Pc.taken_of_closing hc)).present (h.exists_of_closing hc).2
  have hle : count id s.posted ≤ K := by simpa using count_le_card id s.posted
  constructor
  · apply all_of_count (p := id)
    rw [Fintype.card_fin]
    omega
  · omega

end LinuxSystemProgramming.NamedSemaphore
