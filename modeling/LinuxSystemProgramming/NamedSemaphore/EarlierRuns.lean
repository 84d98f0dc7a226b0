import LinuxSystemProgramming.NamedSemaphore.FreshRun

namespace LinuxSystemProgramming.NamedSemaphore

open Counting NamedObjects Semaphores Transition

variable {V K : ℕ}

def P1Pc.ended : P1Pc → Bool
  | .exited _ | .killed => true
  | _ => false

def JoinerPc.ended : JoinerPc → Bool
  | .exited _ | .killed => true
  | _ => false

/-- What runs leave behind in which any call may fail and any process may be killed. -/
inductive Earlier (V K : ℕ) : Kernel → Prop
  | none : Earlier V K .empty
  | run {k : Kernel} {s : State K} (h : Earlier V K k) (hr : (runOf V K k).Reachable s)
      (hp : s.p1.ended = true) (hj : ∀ i, (s.joiners i).ended = true) : Earlier V K s.kernel

def P1Pc.unlinking : P1Pc → Bool
  | .unlinkDoneCnt | .unlinkSem | .exited true => true
  | _ => false

/-- The semaphore that P1 opens has its initial value, and P1 unlinks after all its joiners. -/
def Independent (V K : ℕ) (k : Kernel) : Prop :=
  k.foundSem V = V ∧ ∀ s : State K, (runOf V K k).ReachableWhile NoFailure s →
    s.p1.unlinking = true → ∀ i, s.posted i = true

def P1Pc.outside : P1Pc → Bool
  | .openSem | .openDoneCnt _ | .wait _ | .exited false => true
  | _ => false

variable {k : Kernel} {s t : State K}

theorem Kernel.foundSem_iff (V : ℕ) (k : Kernel) : k.foundSem V = V ↔ ∀ v ∈ k.semValue, v = V := by
  unfold Kernel.foundSem Kernel.semValue Kernel.handles
  cases hn : k.sem.named with
  | none => simp [Store.openCreate_of_none _ hn, Semaphore.init]
  | some o => simp [Store.openCreate_of_named _ hn]

theorem Kernel.foundDoneCnt_iff (V : ℕ) (k : Kernel) :
    k.foundDoneCnt V = 0 ↔ ∀ v ∈ k.semDoneCntValue, v = 0 := by
  unfold Kernel.foundDoneCnt Kernel.semDoneCntValue Kernel.handles
  cases hn : k.semDoneCnt.named with
  | none => simp [Store.openCreate_of_none _ hn, Semaphore.init, semDoneCntInitialValue]
  | some o => simp [Store.openCreate_of_named _ hn]

theorem outside_p1 (hi : Inv V k s) (ha : Admission V k s) (hz : k.foundSem V = 0)
    (ho : s.p1.outside = true) (hm : P1Move V s .run t) : t.p1.outside = true := by
  have hp := hi.p1
  cases hm with
  | opensSem => rfl
  | opensDoneCnt sem hpc => cases sem <;> rfl
  | enters o x hpc hw =>
    rw [hpc] at hp
    obtain ⟨rfl, hs, -⟩ := hp
    have hv := ha.ledger.present (s.kernel.sem.named_lt _ hs)
    obtain ⟨hpos, -⟩ := Semaphore.wait_eq_some.mp hw
    omega
  | leaves _ _ hpc | takes _ _ _ hpc | unlinksDoneCnt hpc | unlinksSem hpc =>
    rw [hpc] at ho
    cases ho
  | quiet _ pc hq =>
    generalize s.p1 = p at hq ho
    cases hq <;> cases ho

theorem outside_reachable (hz : k.foundSem V = 0)
    (hr : (runOf V K k).ReachableWhile NoFailure s) : s.p1.outside = true := by
  apply System.ReachableWhile.induct _ _ hr
  · rintro _ rfl
    rfl
  · intro s a t hr ho hc hn
    cases a with
    | p1 a =>
      obtain rfl : a = .run := hc
      exact outside_p1 (inv_reachable hr.reachable) (admission_reachable hr) hz ho (p1_move hn)
    | joiner i a =>
      cases joiner_move hn <;> exact ho

theorem P1Pc.closing_of_unlinking {pc : P1Pc} (h : pc.unlinking = true) : pc.closing = true := by
  cases pc with
  | unlinkDoneCnt | unlinkSem => rfl
  | exited success =>
    cases success with
    | true => rfl
    | false => cases h
  | _ => cases h

theorem P1Pc.inside_of_unlinking {pc : P1Pc} (h : pc.unlinking = true) : pc.outside = false := by
  cases pc with
  | unlinkDoneCnt | unlinkSem => rfl
  | exited success =>
    cases success with
    | true => rfl
    | false => cases h
  | _ => cases h

structure Paced (o : Handles) (V b m : ℕ) (s : State K) : Prop where
  p1 : s.p1 = .loop K o m
  sem : s.kernel.sem.named = some o.sem
  semDoneCnt : s.kernel.semDoneCnt.named = some o.semDoneCnt
  units : (s.kernel.sem.object o.sem).value = V
  done : (s.kernel.semDoneCnt.object o.semDoneCnt).value = b
  joiners : ∀ i : Fin K, m ≤ i → s.joiners i = .openSem ∧ s.posted i = false

theorem p1_runs {u : State K} (hr : (runOf V K k).ReachableWhile NoFailure s)
    (hn : s.p1Main V .run = some u) : (runOf V K k).ReachableWhile NoFailure u :=
  .step (.p1 .run) hr rfl hn

theorem joiner_runs {u : State K} (hr : (runOf V K k).ReachableWhile NoFailure s) (i : Fin K)
    (hn : s.joinerMain i .run = some u) : (runOf V K k).ReachableWhile NoFailure u :=
  .step (.joiner i .run) hr rfl hn

def State.took (s : State K) (o : ℕ) : State K :=
  s.setSem (s.kernel.sem.modify o (fun x => { x with value := x.value - 1 }))

theorem semWait_of_pos {h : Handles} (hpos : 0 < (s.kernel.sem.object h.sem).value) :
    s.semWait h = some (s.took h.sem) := by
  unfold State.semWait Semaphore.wait
  rw [if_pos hpos]
  rfl

theorem waitDoneCnt_of_pos {h : Handles}
    (hpos : 0 < (s.kernel.semDoneCnt.object h.semDoneCnt).value) :
    s.waitDoneCnt h = some (s.setDoneCnt (s.kernel.semDoneCnt.modify h.semDoneCnt
      (fun x => { x with value := x.value - 1 }))) := by
  unfold State.waitDoneCnt Semaphore.wait
  rw [if_pos hpos]
  rfl

theorem value_took_post {st : Store Semaphore} {o : ℕ} (hpos : 0 < (st.object o).value) :
    (((st.modify o (fun x => { x with value := x.value - 1 })).modify o
      Semaphore.post).object o).value = (st.object o).value := by
  rw [Store.modify_object_self, Store.modify_object_self]
  exact Nat.sub_add_cancel hpos

theorem p1_takes {o : Handles} {m : ℕ} (hm : m < K) (hpc : s.p1 = .loop K o m)
    (hpos : 0 < (s.kernel.semDoneCnt.object o.semDoneCnt).value) :
    s.p1Main V .run = some ((s.setDoneCnt (s.kernel.semDoneCnt.modify o.semDoneCnt
      (fun x => { x with value := x.value - 1 }))).goto (.loop K o (m + 1))) := by
  rw [P1Pc.loop, if_pos hm] at hpc
  simp only [State.p1Main, hpc, waitDoneCnt_of_pos hpos, Option.map_some]

theorem paced_zero (K : ℕ) (hV : 0 < V) (hf : k.foundSem V = V) :
    ∃ s : State K, (runOf V K k).ReachableWhile NoFailure s ∧
      Paced (k.handles V) V (k.foundDoneCnt V) 0 s := by
  obtain ⟨hs, hsa⟩ := Store.stands_openCreate k.sem (.init V)
  obtain ⟨hd, hda⟩ := Store.stands_openCreate k.semDoneCnt (.init semDoneCntInitialValue)
  let opened : State K := ⟨⟨(k.sem.openCreate (.init V)).1,
    (k.semDoneCnt.openCreate (.init semDoneCntInitialValue)).1⟩, .wait (k.handles V),
    fun _ => .openSem, fun _ => false⟩
  have hopen : (runOf V K k).ReachableWhile NoFailure opened := p1_runs (p1_runs (.init rfl) rfl) rfl
  have hpos : 0 < (opened.kernel.sem.object (k.handles V).sem).value :=
    lt_of_lt_of_eq hV hf.symm
  have henter : opened.p1Main V .run =
      some ((opened.took (k.handles V).sem).goto (.critical (k.handles V) true)) := by
    change (opened.semWait (k.handles V)).map _ = _
    rw [semWait_of_pos hpos]
    rfl
  refine ⟨_, p1_runs (p1_runs hopen henter) rfl, rfl, ?_, ?_, ?_, rfl, fun _ _ => ⟨rfl, rfl⟩⟩
  · exact (hs.openCreate hsa (.init V)).2
  · exact (hd.openCreate hda (.init semDoneCntInitialValue)).2
  · exact (value_took_post hpos).trans hf

theorem joiner_passes {o : Handles} (hr : (runOf V K k).ReachableWhile NoFailure s) (i : Fin K)
    (hpc : s.joiners i = .openSem) (hs : s.kernel.sem.named = some o.sem)
    (hd : s.kernel.semDoneCnt.named = some o.semDoneCnt)
    (hpos : 0 < (s.kernel.sem.object o.sem).value) :
    ∃ t : State K, (runOf V K k).ReachableWhile NoFailure t ∧ t.p1 = s.p1 ∧
      t.kernel.sem.named = some o.sem ∧ t.kernel.semDoneCnt.named = some o.semDoneCnt ∧
      (t.kernel.sem.object o.sem).value = (s.kernel.sem.object o.sem).value ∧
      (t.kernel.semDoneCnt.object o.semDoneCnt).value =
        (s.kernel.semDoneCnt.object o.semDoneCnt).value + 1 ∧
      ∀ j, j ≠ i → t.joiners j = s.joiners j ∧ t.posted j = s.posted j := by
  let s₁ := s.setJoiner i (.openDoneCnt (some o.sem))
  let s₂ := s₁.setJoiner i (.wait o)
  let s₃ := (s₂.took o.sem).setJoiner i (.critical o true)
  let s₄ := (s₃.semPost o).setJoiner i (.postDoneCnt o)
  have hpc₁ : s₁.joiners i = .openDoneCnt (some o.sem) := Function.update_self _ _ _
  have hpc₂ : s₂.joiners i = .wait o := Function.update_self _ _ _
  have hpc₃ : s₃.joiners i = .critical o true := Function.update_self _ _ _
  have hpc₄ : s₄.joiners i = .postDoneCnt o := Function.update_self _ _ _
  have hd₁ : s₁.kernel.semDoneCnt.named = some o.semDoneCnt := hd
  have h₁ : s.joinerMain i .run = some s₁ := by simp only [State.joinerMain, hpc, hs, s₁]
  have h₂ : s₁.joinerMain i .run = some s₂ := by
    simp only [State.joinerMain, hpc₁, hd₁]
    rfl
  have h₃ : s₂.joinerMain i .run = some s₃ := by
    simp only [State.joinerMain, hpc₂]
    rw [semWait_of_pos (s := s₂) hpos]
    rfl
  have h₄ : s₃.joinerMain i .run = some s₄ := by simp only [State.joinerMain, hpc₃, s₄]
  have h₅ : s₄.joinerMain i .run = some ((s₄.postDoneCnt o i).setJoiner i (.closeDoneCnt o)) := by
    simp only [State.joinerMain, hpc₄]
  have hr₄ := joiner_runs (joiner_runs (joiner_runs (joiner_runs hr i h₁) i h₂) i h₃) i h₄
  refine ⟨_, joiner_runs hr₄ i h₅, rfl, hs, hd, value_took_post hpos, ?_, ?_⟩
  · change ((s.kernel.semDoneCnt.modify _ Semaphore.post).object _).value = _
    rw [Store.modify_object_self]
    rfl
  · intro j hj
    constructor
    · simp only [s₄, s₃, s₂, s₁, State.setJoiner, State.postDoneCnt, State.semPost, State.setSem,
        State.setDoneCnt, State.took, Function.update_of_ne hj]
    · exact Function.update_of_ne hj _ _

theorem paced_succ {o : Handles} {b m : ℕ} (hV : 0 < V) (hb : 0 < b) (hm : m < K)
    (hr : (runOf V K k).ReachableWhile NoFailure s) (h : Paced o V b m s) :
    ∃ t : State K, (runOf V K k).ReachableWhile NoFailure t ∧ Paced o V b (m + 1) t := by
  obtain ⟨hpc, hs, hd, hunits, hdone, hj⟩ := h
  have htake := p1_takes (V := V) hm hpc (hdone.symm ▸ hb)
  obtain ⟨t, ht, hp1, hts, htd, htu, htdone, htj⟩ := joiner_passes (o := o) (p1_runs hr htake)
    ⟨m, hm⟩ (hj ⟨m, hm⟩ (le_refl m)).1 hs hd (hunits.symm ▸ hV)
  refine ⟨t, ht, hp1, hts, htd, htu.trans hunits, ?_, ?_⟩
  · rw [htdone]
    change ((s.kernel.semDoneCnt.modify o.semDoneCnt
      (fun x => { x with value := x.value - 1 })).object o.semDoneCnt).value + 1 = b
    rw [Store.modify_object_self]
    simp only
    omega
  · intro i hi
    have hne : i ≠ ⟨m, hm⟩ := by
      rintro rfl
      simp only at hi
      omega
    obtain ⟨hji, hpi⟩ := htj i hne
    obtain ⟨hopen, hposted⟩ := hj i (by omega)
    exact ⟨hji.trans hopen, hpi.trans hposted⟩

theorem paced_reachable {b : ℕ} (hV : 0 < V) (hf : k.foundSem V = V) (hb : k.foundDoneCnt V = b)
    (hpos : 0 < b) (m : ℕ) (hm : m ≤ K) :
    ∃ s : State K, (runOf V K k).ReachableWhile NoFailure s ∧ Paced (k.handles V) V b m s := by
  induction m with
  | zero => exact hb ▸ paced_zero K hV hf
  | succ m ih =>
    obtain ⟨s, hr, h⟩ := ih (by omega)
    exact paced_succ hV hpos hm hr h

theorem unlinks_early (hV : 0 < V) (hK : 0 < K) (hf : k.foundSem V = V)
    (hpos : 0 < k.foundDoneCnt V) :
    ∃ s : State K, (runOf V K k).ReachableWhile NoFailure s ∧ s.p1.unlinking = true ∧
      ∃ i, s.posted i = false := by
  obtain ⟨s, hr, h⟩ := paced_reachable hV hf rfl hpos (K - 1) (Nat.sub_le K 1)
  have hlt : K - 1 < K := by omega
  have htake := p1_takes (V := V) hlt h.p1 (h.done.symm ▸ hpos)
  have hend : P1Pc.loop K (k.handles V) (K - 1 + 1) = .closeDoneCnt (k.handles V) :=
    if_neg (by omega)
  rw [hend] at htake
  have hr' := p1_runs (p1_runs (p1_runs hr htake) rfl) rfl
  exact ⟨_, hr', rfl, ⟨K - 1, hlt⟩, (h.joiners ⟨K - 1, hlt⟩ (le_refl _)).2⟩

/-- The run is independent of the earlier ones exactly when these have left `/sem1` with its
initial value, or not at all, and nothing in `sem_done_cnt`, unless nobody waits for it. -/
theorem independent_iff (V K : ℕ) (k : Kernel) :
    Independent V K k ↔ (∀ v ∈ k.semValue, v = V) ∧
      (K = 0 ∨ V = 0 ∨ ∀ v ∈ k.semDoneCntValue, v = 0) := by
  rw [← Kernel.foundSem_iff, ← Kernel.foundDoneCnt_iff V]
  constructor
  · rintro ⟨hf, hposted⟩
    refine ⟨hf, ?_⟩
    by_contra hne
    simp only [not_or] at hne
    obtain ⟨hK, hV, hd⟩ := hne
    obtain ⟨s, hr, hu, i, hi⟩ := unlinks_early (Nat.pos_of_ne_zero hV) (Nat.pos_of_ne_zero hK) hf
      (Nat.pos_of_ne_zero hd)
    cases hi.symm.trans (hposted s hr hu i)
  · rintro ⟨hf, hcases⟩
    refine ⟨hf, fun s hr hu i => ?_⟩
    rcases hcases with rfl | rfl | hd
    · exact i.elim0
    · have ho := outside_reachable hf hr
      cases ho.symm.trans (P1Pc.inside_of_unlinking hu)
    · exact ((inv_reachable hr.reachable).all_posted hd (P1Pc.closing_of_unlinking hu)).1 i

def State.over (s : State K) : Bool := s.p1.ended && decide (∀ i, (s.joiners i).ended = true)

theorem earlier_of_run (as : List (Action K))
    (hs : (runOf V K .empty).run (State.start K .empty) as = some s) (ho : s.over = true) :
    Earlier V K s.kernel := by
  simp only [State.over, Bool.and_eq_true, decide_eq_true_eq] at ho
  exact .run .none (.run as (.init rfl) hs) ho.1 ho.2

/-- A run whose P1 is killed while it waits for its joiners, and a run with one joiner killed in
the critical section: the next P1 unlinks before any joiner of its own has begun, or finds one unit
where it should be two. -/
theorem not_independent :
    (∃ k, Earlier semInitialValue cntJoinersExpected k ∧ k.foundSem semInitialValue = 2 ∧
      (∃ s : State cntJoinersExpected,
        (runOf semInitialValue cntJoinersExpected k).ReachableWhile NoFailure s ∧
        s.p1 = .exited true ∧ ∀ i, s.joiners i = .openSem ∧ s.posted i = false) ∧
      ¬ Independent semInitialValue cntJoinersExpected k) ∧
    ∃ k, Earlier semInitialValue cntJoinersExpected k ∧ k.foundSem semInitialValue = 1 ∧
      ¬ Independent semInitialValue cntJoinersExpected k := by
  constructor
  · have hrun : ((runOf semInitialValue cntJoinersExpected .empty).run (State.start _ .empty)
        (runs 4 .p1 ++ runs 7 (.joiner 0) ++ runs 7 (.joiner 1) ++ [.p1 .killed])).bind (fun s =>
          ((runOf semInitialValue cntJoinersExpected s.kernel).runWhile
            (fun s a => decide (NoFailure s a)) (State.start _ s.kernel) (runs 10 .p1)).map
              (fun t => (s.over, s.kernel.foundSem semInitialValue, t.p1,
                decide (∀ i, t.joiners i = .openSem ∧ t.posted i = false)))) =
        some (true, 2, .exited true, true) := by decide +kernel
    obtain ⟨s, hs, hrest⟩ := Option.bind_eq_some_iff.mp hrun
    obtain ⟨t, ht, he⟩ := Option.map_eq_some_iff.mp hrest
    simp only [Prod.mk.injEq, decide_eq_true_eq] at he
    obtain ⟨ho, hf, hp, hj⟩ := he
    have hr := System.ReachableWhile.run (D := NoFailure) (fun _ _ => of_decide_eq_true) _
      (.init rfl) ht
    refine ⟨s.kernel, earlier_of_run _ hs ho, hf, ⟨t, hr, hp, hj⟩, ?_⟩
    intro hi
    cases (hj 0).2.symm.trans (hi.2 t hr (by rw [hp]; rfl) 0)
  · have hrun : ((runOf semInitialValue cntJoinersExpected .empty).run (State.start _ .empty)
        (runs 4 .p1 ++ runs 7 (.joiner 0) ++ runs 3 (.joiner 1) ++
          [.joiner 1 .killed, .p1 .killed])).map
            (fun s => (s.over, s.kernel.foundSem semInitialValue)) = some (true, 1) := by
      decide +kernel
    obtain ⟨s, hs, he⟩ := Option.map_eq_some_iff.mp hrun
    obtain ⟨ho, hf⟩ := Prod.mk.inj he
    refine ⟨s.kernel, earlier_of_run _ hs ho, hf, ?_⟩
    intro hi
    cases hf.symm.trans hi.1

end LinuxSystemProgramming.NamedSemaphore
