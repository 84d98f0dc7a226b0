import LinuxSystemProgramming.NamedSemaphore.Completion

namespace LinuxSystemProgramming.NamedSemaphore

open Counting NamedObjects Semaphores Transition

variable {V K : ℕ}

def P1Pc.inside : P1Pc → Bool
  | .critical _ _ => true
  | _ => false

def JoinerPc.inside : JoinerPc → Bool
  | .critical _ _ => true
  | _ => false

def State.inside (s : State K) : ℕ := s.p1.inside.toNat + count JoinerPc.inside s.joiners

def Kernel.semValue (k : Kernel) : Option ℕ := k.sem.named.map (fun o => (k.sem.object o).value)

def Kernel.semDoneCntValue (k : Kernel) : Option ℕ :=
  k.semDoneCnt.named.map (fun o => (k.semDoneCnt.object o).value)

def P1Pc.unearned : P1Pc → Bool
  | .critical _ false => true
  | _ => false

def JoinerPc.unearned : JoinerPc → Bool
  | .critical _ false => true
  | _ => false

def NoFailure (_ : State K) : Action K → Prop
  | .p1 a => a = .run
  | .joiner _ a => a = .run

instance (s : State K) (a : Action K) : Decidable (NoFailure s a) :=
  match a with
  | .p1 a | .joiner _ a => inferInstanceAs (Decidable (a = .run))

structure Admission (V : ℕ) (k₀ : Kernel) (s : State K) : Prop where
  ledger : Ledger s.kernel.sem (k₀.handles V).sem V (k₀.foundSem V) 0 s.inside
  p1 : s.p1.unearned = false
  joiners : ∀ i, (s.joiners i).unearned = false

variable {k₀ : Kernel} {s t : State K}

theorem P1Pc.inside_loop {h : Handles} {i : ℕ} : (P1Pc.loop K h i).inside = false := by
  unfold P1Pc.loop
  split_ifs <;> rfl

theorem P1Pc.unearned_loop {h : Handles} {i : ℕ} : (P1Pc.loop K h i).unearned = false := by
  unfold P1Pc.loop
  split_ifs <;> rfl

theorem P1Pc.outside_opened (sem semDoneCnt : Option ℕ) :
    (P1Pc.opened sem semDoneCnt).inside = false ∧
      (P1Pc.opened sem semDoneCnt).unearned = false := by
  cases sem <;> cases semDoneCnt <;> exact ⟨rfl, rfl⟩

theorem admission_start (V K : ℕ) (k₀ : Kernel) : Admission V k₀ (State.start K k₀) := by
  refine ⟨?_, rfl, fun _ => rfl⟩
  apply (Ledger.of_openCreate k₀.sem V).congr rfl
  change 0 + count JoinerPc.inside _ = 0
  rw [Nat.zero_add]
  exact count_eq_zero fun _ => rfl

theorem Admission.p1_step (h : Admission V k₀ s) (hj : t.joiners = s.joiners)
    (hu : t.p1.unearned = false)
    (hl : Ledger t.kernel.sem (k₀.handles V).sem V (k₀.foundSem V) 0
      (t.p1.inside.toNat + count JoinerPc.inside s.joiners)) : Admission V k₀ t := by
  refine ⟨?_, hu, ?_⟩
  · unfold State.inside
    rwa [hj]
  · rw [hj]
    exact h.joiners

theorem Admission.p1_outside (h : Admission V k₀ s) (hj : t.joiners = s.joiners)
    (hu : t.p1.unearned = false) (hin : s.p1.inside = false) (hout : t.p1.inside = false)
    (hl : Ledger s.kernel.sem (k₀.handles V).sem V (k₀.foundSem V) 0 s.inside →
      Ledger t.kernel.sem (k₀.handles V).sem V (k₀.foundSem V) 0 s.inside) :
    Admission V k₀ t := by
  apply h.p1_step hj hu
  rw [hout, ← hin]
  exact hl h.ledger

theorem admission_p1 (hi : Inv V k₀ s) (h : Admission V k₀ s) (hm : P1Move V s .run t) :
    Admission V k₀ t := by
  have hp := hi.p1
  cases hm with
  | opensSem hpc =>
    rw [hpc] at hp
    refine h.p1_outside rfl rfl (by rw [hpc]; rfl) rfl ?_
    exact fun hl => hl.openCreate hi.sem hp.1
  | opensDoneCnt sem hpc =>
    obtain ⟨hin, hu⟩ := P1Pc.outside_opened sem
      (some (s.kernel.semDoneCnt.openCreate (.init semDoneCntInitialValue)).2)
    exact h.p1_outside rfl hu (by rw [hpc]; rfl) hin id
  | enters o x hpc hw =>
    rw [hpc] at hp
    obtain ⟨rfl, hs, -⟩ := hp
    refine h.p1_step rfl rfl (h.ledger.wait (s.kernel.sem.named_lt _ hs) hw ?_)
    change 1 + count JoinerPc.inside s.joiners = s.p1.inside.toNat + _ + 1
    rw [hpc]
    change 1 + count JoinerPc.inside s.joiners = 0 + _ + 1
    omega
  | leaves o b hpc =>
    rw [hpc] at hp
    obtain ⟨rfl, hs, -⟩ := hp
    refine h.p1_step rfl P1Pc.unearned_loop (h.ledger.post (s.kernel.sem.named_lt _ hs) ?_)
    change 0 + (s.p1.inside.toNat + _) = 0 + ((P1Pc.loop K _ 0).inside.toNat + _) + 1
    rw [hpc, P1Pc.inside_loop]
    change 0 + (1 + count JoinerPc.inside s.joiners) = 0 + (0 + _) + 1
    omega
  | takes o i x hpc hw =>
    exact h.p1_outside rfl P1Pc.unearned_loop (by rw [hpc]; rfl) P1Pc.inside_loop id
  | unlinksDoneCnt hpc => exact h.p1_outside rfl rfl (by rw [hpc]; rfl) rfl id
  | unlinksSem hpc => exact h.p1_outside rfl rfl (by rw [hpc]; rfl) rfl Ledger.unlink
  | quiet _ pc hq =>
    have hpc : pc.unearned = false ∧ s.p1.inside = false ∧ pc.inside = false := by
      generalize s.p1 = p at hq
      cases hq <;> exact ⟨rfl, rfl, rfl⟩
    exact h.p1_outside rfl hpc.1 hpc.2.1 hpc.2.2 id

theorem Admission.joiner_step (h : Admission V k₀ s) {i : Fin K} {q : JoinerPc}
    (hp1 : t.p1 = s.p1) (hj : t.joiners = Function.update s.joiners i q)
    (hu : q.unearned = false)
    (hl : Ledger t.kernel.sem (k₀.handles V).sem V (k₀.foundSem V) 0
      (s.p1.inside.toNat + count JoinerPc.inside (Function.update s.joiners i q))) :
    Admission V k₀ t := by
  refine ⟨?_, ?_, ?_⟩
  · unfold State.inside
    rwa [hp1, hj]
  · rw [hp1]
    exact h.p1
  · intro j
    rw [hj]
    by_cases hji : j = i
    · rwa [hji, Function.update_self]
    · rw [Function.update_of_ne hji]
      exact h.joiners j

theorem admission_joiner (hi : Inv V k₀ s) (h : Admission V k₀ s) {i : Fin K}
    (hm : JoinerMove s i .run t) : Admission V k₀ t := by
  have hat := hi.joiners i
  cases hm with
  | enters o x hpc hw =>
    rw [hpc] at hat
    obtain ⟨rfl, hlt, -⟩ := hat
    refine h.joiner_step (q := .critical _ true) rfl rfl rfl (h.ledger.wait hlt hw ?_)
    rw [count_enter (by rw [hpc]; rfl) rfl, State.inside]
    omega
  | leaves o b hpc =>
    rw [hpc] at hat
    obtain ⟨rfl, hlt, -⟩ := hat
    have hc := count_leave (p := JoinerPc.inside) (f := s.joiners) (i := i)
      (x := .postDoneCnt (k₀.handles V)) (by rw [hpc]; rfl) rfl
    refine h.joiner_step (q := .postDoneCnt _) rfl rfl rfl (h.ledger.post hlt ?_)
    rw [State.inside]
    omega
  | posts o hpc =>
    refine h.joiner_step (q := .closeDoneCnt o) rfl rfl rfl (h.ledger.congr rfl ?_)
    rw [count_same (by rw [hpc]; rfl), State.inside]
  | quiet _ pc hq =>
    have hpc : pc.unearned = false ∧ pc.inside = (s.joiners i).inside := by
      generalize s.joiners i = p at hq
      cases hq with
      | openDoneCnt sem => cases sem <;> cases s.kernel.semDoneCnt.named <;> exact ⟨rfl, rfl⟩
      | _ => exact ⟨rfl, rfl⟩
    refine h.joiner_step (q := pc) rfl rfl hpc.1 (h.ledger.congr rfl ?_)
    rw [count_same hpc.2, State.inside]

theorem admission_reachable (hr : (runOf V K k₀).ReachableWhile NoFailure s) :
    Admission V k₀ s := by
  apply System.ReachableWhile.induct _ _ hr
  · rintro _ rfl
    exact admission_start V K k₀
  · intro s a t hr h hc hn
    have hi := inv_reachable hr.reachable
    cases a with
    | p1 a =>
      obtain rfl : a = .run := hc
      exact admission_p1 hi h (p1_move hn)
    | joiner i a =>
      obtain rfl : a = .run := hc
      exact admission_joiner hi h (joiner_move hn)

theorem Kernel.foundSem_empty (V : ℕ) : Kernel.empty.foundSem V = V := rfl

theorem Kernel.foundDoneCnt_empty (V : ℕ) : Kernel.empty.foundDoneCnt V = 0 := rfl

theorem Admission.inside_le (hi : Inv V k₀ s) (h : Admission V k₀ s) :
    s.inside ≤ k₀.foundSem V := by
  rcases Nat.eq_or_lt_of_le hi.sem.le with hf | hlt
  · have ha := h.ledger.absent hf.symm
    omega
  · have hv := h.ledger.present hlt
    omega

theorem Admission.conserved (hi : Inv V k₀ s) (h : Admission V k₀ s) {v : ℕ}
    (hv : v ∈ s.kernel.semValue) : v + s.inside = k₀.foundSem V := by
  obtain ⟨o, ho, rfl⟩ := Option.map_eq_some_iff.mp hv
  have hlt := s.kernel.sem.named_lt o ho
  obtain rfl := hi.sem.named o ho
  exact h.ledger.present hlt

end LinuxSystemProgramming.NamedSemaphore
