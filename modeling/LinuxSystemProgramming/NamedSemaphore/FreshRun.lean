import LinuxSystemProgramming.NamedSemaphore.Admission

namespace LinuxSystemProgramming.NamedSemaphore

open Counting NamedObjects Semaphores Transition

variable {V K : ℕ}

def P1Pc.hasOpened : P1Pc → Bool
  | .openSem | .openDoneCnt _ => false
  | _ => true

def P1Pc.fine : P1Pc → Bool
  | .openDoneCnt none | .exited false | .killed => false
  | _ => true

def JoinerPc.left : JoinerPc → Bool
  | .closeDoneCnt _ | .closeSem _ | .exited true => true
  | _ => false

def Orderly (s : State K) : Action K → Prop
  | .p1 a => a = .run
  | .joiner i a => a = .run ∧ (s.joiners i = .openSem → s.p1.hasOpened = true)

instance (s : State K) (a : Action K) : Decidable (Orderly s a) :=
  match a with
  | .p1 a => inferInstanceAs (Decidable (a = .run))
  | .joiner i a => inferInstanceAs
      (Decidable (a = .run ∧ (s.joiners i = .openSem → s.p1.hasOpened = true)))

def JoinerFine (posted : Bool) : JoinerPc → Prop
  | .openDoneCnt sem => sem ≠ none
  | .closeDoneCnt _ | .closeSem _ | .exited true => posted = true
  | .exited false | .killed => False
  | _ => True

structure Fresh (s : State K) : Prop where
  p1 : s.p1.fine = true
  arrived : ∀ i, s.joiners i ≠ .openSem → s.p1.hasOpened = true
  joiners : ∀ i, JoinerFine (s.posted i) (s.joiners i)

variable {s t : State K}

theorem Orderly.noFailure {a : Action K} (h : Orderly s a) : NoFailure s a := by
  cases a with
  | p1 a => exact h
  | joiner i a => exact h.1

theorem noFailure_of_orderly {k₀ : Kernel} (hr : (runOf V K k₀).ReachableWhile Orderly s) :
    (runOf V K k₀).ReachableWhile NoFailure s := by
  induction hr with
  | init h => exact .init h
  | step a _ hc hs ih => exact .step a ih hc.noFailure hs

theorem Fresh.p1_step (h : Fresh s) (hj : t.joiners = s.joiners) (hp : t.posted = s.posted)
    (hf : t.p1.fine = true) (ho : s.p1.hasOpened = true → t.p1.hasOpened = true) : Fresh t := by
  refine ⟨hf, ?_, ?_⟩
  · rw [hj]
    exact fun i hi => ho (h.arrived i hi)
  · rw [hj, hp]
    exact h.joiners

theorem P1Pc.fine_loop {h : Handles} {i : ℕ} :
    (P1Pc.loop K h i).fine = true ∧ (P1Pc.loop K h i).hasOpened = true := by
  unfold P1Pc.loop
  split_ifs <;> exact ⟨rfl, rfl⟩

theorem fresh_p1 (h : Fresh s) (hm : P1Move V s .run t) : Fresh t := by
  have hf := h.p1
  cases hm with
  | opensSem hpc =>
    refine h.p1_step rfl rfl rfl ?_
    rw [hpc]
    exact fun ho => nomatch ho
  | opensDoneCnt sem hpc =>
    rw [hpc] at hf
    cases sem with
    | none => cases hf
    | some o => exact h.p1_step rfl rfl rfl (fun _ => rfl)
  | enters | unlinksDoneCnt | unlinksSem => exact h.p1_step rfl rfl rfl (fun _ => rfl)
  | leaves | takes => exact h.p1_step rfl rfl P1Pc.fine_loop.1 (fun _ => P1Pc.fine_loop.2)
  | quiet _ pc hq =>
    have hpc : pc.fine = true ∧ pc.hasOpened = true := by
      generalize s.p1 = p at hq
      cases hq <;> exact ⟨rfl, rfl⟩
    exact h.p1_step rfl rfl hpc.1 (fun _ => hpc.2)

theorem Fresh.named {k₀ : Kernel} (hi : Inv V k₀ s) (h : Fresh s) (hf : k₀.foundDoneCnt V = 0)
    (ho : s.p1.hasOpened = true) {i : Fin K} (hp : s.posted i = false) :
    s.kernel.sem.named = some (k₀.handles V).sem ∧
      s.kernel.semDoneCnt.named = some (k₀.handles V).semDoneCnt := by
  have hc : s.p1.closing = false := by
    by_contra hc
    have hall := (hi.all_posted hf (Bool.of_not_eq_false hc)).1 i
    cases hp.symm.trans hall
  have hat := hi.p1
  have hfine := h.p1
  cases hpc : s.p1 <;> rw [hpc] at hat hfine hc ho
  case openSem | openDoneCnt => cases ho
  case closeDoneCnt | closeSem | unlinkDoneCnt | unlinkSem => cases hc
  case killed => cases hfine
  case exited success => cases success with
    | true => cases hc
    | false => cases hfine
  case wait | critical => exact hat.2
  case waitDoneCnt => exact hat.2.2

theorem Fresh.joiner_step (h : Fresh s) {i : Fin K} {q : JoinerPc} (hp1 : t.p1 = s.p1)
    (hj : t.joiners = Function.update s.joiners i q)
    (hp : ∀ j, j ≠ i → t.posted j = s.posted j) (ho : s.p1.hasOpened = true)
    (hf : JoinerFine (t.posted i) q) : Fresh t := by
  refine ⟨?_, ?_, ?_⟩
  · rw [hp1]
    exact h.p1
  · rw [hp1]
    exact fun _ _ => ho
  · intro j
    rw [hj]
    by_cases hji : j = i
    · subst hji
      rwa [Function.update_self]
    · rw [Function.update_of_ne hji, hp j hji]
      exact h.joiners j

theorem fresh_joiner {k₀ : Kernel} (hi : Inv V k₀ s) (hf : k₀.foundDoneCnt V = 0) (h : Fresh s)
    {i : Fin K} (hc : s.joiners i = .openSem → s.p1.hasOpened = true)
    (hm : JoinerMove s i .run t) : Fresh t := by
  have ho : s.p1.hasOpened = true := by
    by_cases hpc : s.joiners i = .openSem
    · exact hc hpc
    · exact h.arrived i hpc
  have hfine := h.joiners i
  cases hm with
  | enters o x hpc hw =>
    exact h.joiner_step (q := .critical o true) rfl rfl (fun _ _ => rfl) ho trivial
  | leaves o b hpc =>
    exact h.joiner_step (q := .postDoneCnt o) rfl rfl (fun _ _ => rfl) ho trivial
  | posts o hpc =>
    refine h.joiner_step (q := .closeDoneCnt o) rfl rfl ?_ ho ?_
    · exact fun j hj => Function.update_of_ne hj _ _
    · exact Function.update_self _ _ _
  | quiet _ pc hq =>
    refine h.joiner_step (q := pc) rfl rfl (fun _ _ => rfl) ho ?_
    change JoinerFine (s.posted i) pc
    have hnames := fun hmay => h.named hi hf ho (hi.posted i hmay)
    generalize s.joiners i = p at hq hfine hnames
    cases hq with
    | openSem =>
      obtain ⟨hs, -⟩ := hnames rfl
      rw [hs]
      exact Option.some_ne_none _
    | openDoneCnt sem =>
      obtain ⟨-, hd⟩ := hnames rfl
      rw [hd]
      cases sem with
      | none => exact absurd rfl hfine
      | some o => trivial
    | closeDoneCnt | closeSem => exact hfine

theorem fresh_reachable {k₀ : Kernel} (hf : k₀.foundDoneCnt V = 0)
    (hr : (runOf V K k₀).ReachableWhile Orderly s) : Fresh s := by
  apply System.ReachableWhile.induct _ _ hr
  · rintro _ rfl
    exact ⟨rfl, fun _ hi => absurd rfl hi, fun _ => trivial⟩
  · intro s a t hr h hc hn
    cases a with
    | p1 a =>
      obtain rfl : a = .run := hc
      exact fresh_p1 h (p1_move hn)
    | joiner i a =>
      obtain ⟨rfl, hc⟩ := hc
      exact fresh_joiner (inv_reachable hr.reachable) hf h hc (joiner_move hn)

theorem JoinerFine.left {pc : JoinerPc} {posted : Bool} (h : JoinerFine posted pc)
    (hp : pc.mayPost = false) : pc.left = true := by
  cases pc with
  | closeDoneCnt | closeSem => rfl
  | exited success =>
    cases success with
    | true => rfl
    | false => exact h.elim
  | killed => exact h.elim
  | _ => cases hp

theorem JoinerPc.outside_of_left {pc : JoinerPc} (h : pc.left = true) : pc.inside = false := by
  cases pc with
  | critical => cases h
  | _ => rfl

theorem P1Pc.outside_of_closing {pc : P1Pc} (h : pc.closing = true) : pc.inside = false := by
  cases pc with
  | critical => cases h
  | _ => rfl

theorem Fresh.all_left {k₀ : Kernel} (hi : Inv V k₀ s) (h : Fresh s) (hf : k₀.foundDoneCnt V = 0)
    (hc : s.p1.closing = true) (i : Fin K) :
    (s.joiners i).left = true ∧ s.posted i = true := by
  have hp := (hi.all_posted hf hc).1 i
  refine ⟨(h.joiners i).left ?_, hp⟩
  by_contra hmay
  have hnot := hi.posted i (Bool.of_not_eq_false hmay)
  cases hnot.symm.trans hp

/-- At most `V` processes are inside, each with a unit of `/sem1`; P1 closes and unlinks after the
last joiner, with all the units back and none of `sem_done_cnt` left; no joiner is too late. -/
theorem completion_safe (V : ℕ) {K : ℕ} {s : State K}
    (hr : (runOf V K .empty).ReachableWhile Orderly s) :
    s.inside ≤ V ∧ (∀ v ∈ s.kernel.semValue, v + s.inside = V) ∧
      (s.p1.closing = true → ∀ i, (s.joiners i).left = true ∧ s.posted i = true) ∧
      (∀ i, s.joiners i ≠ .openDoneCnt none ∧ s.joiners i ≠ .exited false) ∧
      (s.p1 = .unlinkDoneCnt →
        s.kernel.semValue = some V ∧ s.kernel.semDoneCntValue = some 0) ∧
      (s.p1 = .unlinkSem → s.kernel.semValue = some V) := by
  have hi := inv_reachable hr.reachable
  have ha := admission_reachable (noFailure_of_orderly hr)
  have hf := fresh_reachable (Kernel.foundDoneCnt_empty V) hr
  have hleft := fun hc => hf.all_left hi (Kernel.foundDoneCnt_empty V) hc
  have hback (hc : s.p1.closing = true) (hn : s.kernel.sem.named = some 0) :
      s.kernel.semValue = some V := by
    have hin : s.inside = 0 := by
      rw [State.inside, P1Pc.outside_of_closing hc,
        count_eq_zero fun i => JoinerPc.outside_of_left (hleft hc i).1]
      rfl
    have hv : s.kernel.semValue = some (s.kernel.sem.object 0).value := congrArg _ hn
    have hsum := ha.conserved hi hv
    rw [hin, Nat.add_zero, Kernel.foundSem_empty] at hsum
    rw [hv, hsum]
  have hat := hi.p1
  refine ⟨?_, fun v hv => ha.conserved hi hv, hleft, ?_, ?_, ?_⟩
  · exact ha.inside_le hi
  · intro i
    have hj := hf.joiners i
    constructor
    · intro hpc
      rw [hpc] at hj
      exact hj rfl
    · intro hpc
      rw [hpc] at hj
      exact hj
  · intro hpc
    have hc : s.p1.closing = true := by rw [hpc]; rfl
    rw [hpc] at hat
    refine ⟨hback hc hat.1, ?_⟩
    have hd : s.kernel.semDoneCntValue = some (s.kernel.semDoneCnt.object 0).value :=
      congrArg _ hat.2
    rw [hd]
    exact congrArg some (hi.all_posted (Kernel.foundDoneCnt_empty V) hc).2
  · intro hpc
    rw [hpc] at hat
    exact hback (by rw [hpc]; rfl) hat.1

def runs (n : ℕ) (a : Attempt → Action K) : List (Action K) := List.replicate n (a .run)

theorem completion_safe_unlink :
    ∃ s : State cntJoinersExpected, s.p1 = .unlinkDoneCnt ∧
      (s.kernel.semValue = some semInitialValue ∧ s.kernel.semDoneCntValue = some 0) ∧
      ∀ i, (s.joiners i).left = true ∧ s.posted i = true := by
  have hrun : ((runOf semInitialValue cntJoinersExpected .empty).runWhile
      (fun s a => decide (Orderly s a)) (State.start _ .empty)
      (runs 3 .p1 ++ runs 3 (.joiner 0) ++ runs 1 .p1 ++ runs 4 (.joiner 1) ++ runs 2 (.joiner 0) ++
        runs 1 .p1 ++ runs 1 (.joiner 1) ++ runs 3 .p1)).map (fun s => s.p1) =
      some .unlinkDoneCnt := by decide +kernel
  obtain ⟨s, hs, hpc⟩ := Option.map_eq_some_iff.mp hrun
  have hr : (runOf semInitialValue cntJoinersExpected .empty).ReachableWhile Orderly s :=
    .run (fun _ _ => of_decide_eq_true) _ (.init rfl) hs
  obtain ⟨-, -, hleft, -, hback, -⟩ := completion_safe semInitialValue hr
  exact ⟨s, hpc, hback hpc, hleft (by rw [hpc]; rfl)⟩

end LinuxSystemProgramming.NamedSemaphore
