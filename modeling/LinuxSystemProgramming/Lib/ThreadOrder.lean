import LinuxSystemProgramming.Lib.ThreadDiscipline
import Mathlib.Logic.Relation

namespace LinuxSystemProgramming.Threads

open Mutex Transition

variable {τ φ κ ω : Type*}

inductive Edge (P : Program τ φ κ ω) : τ × ℕ → τ × ℕ → Prop
  | order {t : τ} {i : ℕ} (h : i + 1 < (P.code t).length) : Edge P (t, i) (t, i + 1)
  | flag {t u : τ} {i j : ℕ} {f : φ} {c : κ} (hs : (P.code t)[i]? = some (.set f))
      (ha : (P.code u)[j]? = some (.await f c)) : Edge P (t, i) (u, j)
  | birth {t u : τ} {i : ℕ} (hc : (P.code t)[i]? = some (.create u)) : Edge P (t, i) (u, 0)
  | join {t u : τ} {i j : ℕ} (hj : (P.code u)[j]? = some (.join t))
      (hi : i + 1 = (P.code t).length) : Edge P (t, i) (u, j)

abbrev Before (P : Program τ φ κ ω) : τ × ℕ → τ × ℕ → Prop := Relation.TransGen (Edge P)

variable {P : Program τ φ κ ω} {s s' : State τ φ} {t u : τ} {i j : ℕ}

theorem path_along_code (hij : i ≤ j) (hj : j < (P.code t).length) :
    Relation.ReflTransGen (Edge P) (t, i) (t, j) := by
  induction j with
  | zero => rw [Nat.le_zero.mp hij]
  | succ j ih =>
    by_cases hi : i = j + 1
    · rw [hi]
    · exact .tail (ih (by omega) (by omega)) (.order hj)

theorem before_of_edge (k m : ℕ) (he : Edge P (t, k) (u, m)) (hi : i ≤ k)
    (hk : k < (P.code t).length) (hm : m ≤ j) (hj : j < (P.code u).length) :
    Before P (t, i) (u, j) :=
  Relation.TransGen.trans_left (.tail' (path_along_code hi hk) he) (path_along_code hm hj)

theorem Discipline.setter_eq (D : Discipline P) {f : φ} :
    (P.code t)[i]? = some (.set f) ↔ D.setter f = (t, i) := by
  constructor
  · intro h
    exact (D.fit h).2
  · intro h
    have := D.sets f
    rwa [h] at this

theorem Discipline.creator_eq (D : Discipline P) (hu : u ≠ P.main) :
    (P.code t)[i]? = some (.create u) ↔ D.creator u = (t, i) := by
  constructor
  · intro h
    exact (D.fit h).2.2.1
  · intro h
    have := D.births u hu
    rwa [h] at this

section

variable [DecidableEq τ] [DecidableEq φ] [DecidableEq κ] {a : Action τ}

theorem mem_trace (h : P.system.Reachable s) {t : τ} {i : ℕ} :
    (t, i) ∈ s.trace ↔ i < s.pc t := by
  apply System.Reachable.induct (I := fun s => ∀ t i, (t, i) ∈ s.trace ↔ i < s.pc t) ?_ ?_ h t i
  · rintro s rfl t i
    simp [Program.initial]
  · intro s a s' _ ih hs t i
    cases (next_iff.mp hs).2.effect with
    | none ht hp hf hb => rw [ht, hp, ih]
    | @pass u x ha hm hx ht hp hf hb _ _ _ =>
      rw [ht, hp, List.mem_append, ih, List.mem_singleton, Prod.mk.injEq]
      by_cases hu : t = u
      · subst hu
        rw [State.advance_pc_self]
        simp only [true_and]
        omega
      · rw [State.advance_pc_of_ne hu]
        simp [hu]

theorem trace_nodup (h : P.system.Reachable s) : s.trace.Nodup := by
  apply System.Reachable.induct (I := fun s => s.trace.Nodup) ?_ ?_ h
  · rintro s rfl
    exact List.nodup_nil
  · intro s a s' hr ih hs
    cases (next_iff.mp hs).2.effect with
    | none ht hp hf hb => rwa [ht]
    | @pass u x ha hm hx ht hp hf hb _ _ _ =>
      rw [ht, List.nodup_append_comm]
      apply List.nodup_cons.mpr ⟨?_, ih⟩
      rw [mem_trace hr]
      omega

theorem Discipline.flag_iff (D : Discipline P) (h : P.system.Reachable s) (f : φ) :
    s.flag f = true ↔ D.setter f ∈ s.trace := by
  apply System.Reachable.induct (I := fun s => s.flag f = true ↔ D.setter f ∈ s.trace) ?_ ?_ h
  · rintro s rfl
    simp [Program.initial]
  · intro s a s' _ ih hs
    cases (next_iff.mp hs).2.effect with
    | none ht hp hf hb => rw [ht, hf, ih]
    | @pass t x ha hm hx ht hp hf hb _ _ _ =>
      have hset : x = .set f ↔ D.setter f = (t, s.pc t) := by
        rw [← D.setter_eq, ← Program.instr, hx, Option.some_inj]
      rw [hf, ih, ht, List.mem_append, List.mem_singleton, hset]

theorem Discipline.born_iff (D : Discipline P) (h : P.system.Reachable s) (t : τ) :
    s.mode t ≠ .unborn ↔ t = P.main ∨ D.creator t ∈ s.trace := by
  apply System.Reachable.induct
    (I := fun s => s.mode t ≠ .unborn ↔ t = P.main ∨ D.creator t ∈ s.trace) ?_ ?_ h
  · rintro s rfl
    by_cases ht : t = P.main
    · simp [Program.initial, ht]
    · simp [Program.initial, ht]
  · intro s a s' _ ih hs
    cases (next_iff.mp hs).2.effect with
    | none ht hp hf hb => rw [Ne, hb, ← Ne, ih, ht]
    | @pass u x ha hm hx ht hp hf hb _ _ _ =>
      by_cases hmain : t = P.main
      · have hborn : s.mode t ≠ .unborn := ih.mpr (.inl hmain)
        exact ⟨fun _ => .inl hmain, fun _ hu => hborn ((hb t).mp hu).1⟩
      · have hcreate : x = .create t ↔ D.creator t = (u, s.pc u) := by
          rw [← D.creator_eq hmain, ← Program.instr, hx, Option.some_inj]
        rw [Ne, hb, not_and_or, ← Ne, ih, ht, List.mem_append, List.mem_singleton, not_ne_iff,
          hcreate, or_assoc]

theorem Discipline.preds_passed (D : Discipline P) (h : P.system.Reachable s)
    (hs : Effect P s a s') {p : τ × ℕ} {q : τ × ℕ} (hq : q ∈ s'.trace) (hq' : q ∉ s.trace)
    (he : Edge P p q) : p ∈ s.trace := by
  cases hs with
  | none ht hp hf hb =>
    rw [ht] at hq
    exact absurd hq hq'
  | @pass v x ha hm hx ht hp hf hb hawait hjoin _ =>
    rw [ht, List.mem_append, List.mem_singleton] at hq
    obtain rfl := hq.resolve_left hq'
    have hborn : s.mode v ≠ .unborn := by simp [hm]
    generalize hi : s.pc v = i at he
    cases he with
    | order hlt =>
      rw [mem_trace h]
      omega
    | @flag t _ k _ f c hset hav =>
      rw [← hi, ← Program.instr, hx, Option.some_inj] at hav
      have := (D.flag_iff h f).mp (hawait f c hav)
      rwa [(D.fit hset).2] at this
    | @birth t _ k hc =>
      have hfit := D.fit hc
      have := ((D.born_iff h v).mp hborn).resolve_left hfit.2.1
      rwa [hfit.2.2.1] at this
    | @join t _ k _ hj hk =>
      rw [← hi, ← Program.instr, hx, Option.some_inj] at hj
      rw [mem_trace h, (hjoin t hj).2]
      omega

theorem Discipline.edge_ordered (D : Discipline P) (h : P.system.Reachable s) {p q : τ × ℕ}
    (he : Edge P p q) {l l' : List (τ × ℕ)} (hl : s.trace = l ++ q :: l') : p ∈ l := by
  apply System.Reachable.induct
    (I := fun s => ∀ l l', s.trace = l ++ q :: l' → p ∈ l) ?_ ?_ h l l' hl
  · rintro s rfl l l' hl
    simp [Program.initial] at hl
  · intro s a s' hr ih hs l l' hl
    have heff := (next_iff.mp hs).2.effect
    have hnodup := trace_nodup (hr.step a hs)
    have hpreds := D.preds_passed hr heff (p := p) (q := q)
    cases heff with
    | none ht hp hf hb => exact ih l l' (ht ▸ hl)
    | @pass u x ha hm hx ht hp hf hb _ _ _ =>
      rcases List.eq_nil_or_concat l' with rfl | ⟨m, b, rfl⟩
      · rw [ht] at hl
        obtain ⟨rfl, hq⟩ := List.append_inj' hl rfl
        obtain rfl := List.singleton_inj.mp hq
        apply hpreds ?_ ?_ he
        · simp [ht]
        · rw [mem_trace hr]
          omega
      · have hcat : s.trace ++ [(u, s.pc u)] = (l ++ q :: m) ++ [b] := by
          rw [← ht, hl]
          simp
        exact ih l m (List.append_inj' hcat rfl).1

/-- Every run passes the places in an order that extends happens-before. -/
theorem Discipline.ordered (D : Discipline P) (h : P.system.Reachable s) {p q : τ × ℕ}
    (hb : Before P p q) {l l' : List (τ × ℕ)} (hl : s.trace = l ++ q :: l') : p ∈ l := by
  induction hb generalizing l l' with
  | single he => exact D.edge_ordered h he hl
  | @tail r q _ he ih =>
    obtain ⟨m, m', rfl⟩ := List.append_of_mem (D.edge_ordered h he hl)
    have hr : s.trace = m ++ r :: (m' ++ q :: l') := by
      rw [hl]
      simp
    exact List.mem_append_left _ (ih hr)

theorem Discipline.closed (D : Discipline P) (h : P.system.Reachable s) {p q : τ × ℕ}
    (hb : Before P p q) (hq : q ∈ s.trace) : p ∈ s.trace := by
  obtain ⟨l, l', hl⟩ := List.append_of_mem hq
  rw [hl]
  exact List.mem_append_left _ (D.ordered h hb hl)

end

def Instr.act? : Instr τ φ κ ω → Option ω
  | .act w => some w
  | _ => none

def Program.acts (P : Program τ φ κ ω) (t : τ) (i : ℕ) : List ω :=
  ((P.code t).take i).filterMap Instr.act?

def Program.actAt (P : Program τ φ κ ω) (p : τ × ℕ) : Option (τ × ω) :=
  ((P.code p.1)[p.2]?.bind Instr.act?).map (fun w => (p.1, w))

def Program.output (P : Program τ φ κ ω) (s : State τ φ) : List (τ × ω) :=
  s.trace.filterMap P.actAt

def Program.outputOf [DecidableEq τ] (P : Program τ φ κ ω) (s : State τ φ) (t : τ) : List ω :=
  (P.output s).filterMap (fun y => if y.1 = t then some y.2 else none)

theorem outputOf_eq [DecidableEq τ] [DecidableEq φ] [DecidableEq κ] (h : P.system.Reachable s)
    (t : τ) : P.outputOf s t = P.acts t (s.pc t) := by
  apply System.Reachable.induct (I := fun s => P.outputOf s t = P.acts t (s.pc t)) ?_ ?_ h
  · rintro s rfl
    rfl
  · intro s a s' _ ih hs
    cases (next_iff.mp hs).2.effect with
    | none ht hp hf hb =>
      rw [hp, ← ih]
      simp only [Program.outputOf, Program.output, ht]
    | @pass u x ha hm hx ht hp hf hb _ _ _ =>
      have happ : P.outputOf s' t = P.outputOf s t ++
          ([(u, s.pc u)].filterMap P.actAt).filterMap
            (fun y => if y.1 = t then some y.2 else none) := by
        simp only [Program.outputOf, Program.output, ht, List.filterMap_append]
      have hact : P.actAt (u, s.pc u) = x.act?.map (fun w => (u, w)) := by
        rw [Program.instr] at hx
        simp [Program.actAt, hx]
      rw [happ, ih, hp]
      by_cases hu : t = u
      · subst hu
        rw [State.advance_pc_self, Program.acts, Program.acts, List.take_add_one,
          ← Program.instr, hx, List.filterMap_append]
        cases hw : x.act? with
        | none => simp [hact, hw]
        | some w => simp [hact, hw]
      · rw [State.advance_pc_of_ne hu]
        cases hw : x.act? with
        | none => simp [hact, hw]
        | some w => simp [hact, hw, Ne.symm hu]

theorem mem_output {y : τ × ω} : y ∈ P.output s ↔ ∃ p ∈ s.trace, P.actAt p = some y :=
  List.mem_filterMap

theorem outputOf_isPrefix [DecidableEq τ] [DecidableEq φ] [DecidableEq κ]
    (h : P.system.Reachable s) (t : τ) :
    P.outputOf s t <+: P.acts t (P.code t).length := by
  rw [outputOf_eq h, Program.acts, Program.acts, List.take_length]
  exact (List.take_prefix _ _).filterMap _

theorem mem_acts [DecidableEq τ] [DecidableEq φ] [DecidableEq κ] (h : P.system.Reachable s)
    {w : ω} (hw : (t, w) ∈ P.output s) : w ∈ P.acts t (P.code t).length := by
  apply (outputOf_isPrefix h t).subset
  exact List.mem_filterMap.mpr ⟨_, hw, by simp⟩

theorem mem_output_iff [DecidableEq τ] [DecidableEq φ] [DecidableEq κ]
    (h : P.system.Reachable s) {w : ω} {k : ℕ} (hk : P.actAt (t, k) = some (t, w))
    (hu : ∀ j < (P.code t).length, P.actAt (t, j) = some (t, w) → j = k) :
    (t, w) ∈ P.output s ↔ k < s.pc t := by
  rw [mem_output, ← mem_trace h]
  constructor
  · rintro ⟨⟨u, j⟩, hq, hact⟩
    obtain ⟨v, hv, heq⟩ := Option.map_eq_some_iff.mp hact
    cases heq
    obtain ⟨x, hx, _⟩ := Option.bind_eq_some_iff.mp hv
    obtain rfl := hu j (List.getElem?_eq_some_iff.mp hx).1 hact
    exact hq
  · intro hmem
    exact ⟨_, hmem, hk⟩

def Program.Precedes (P : Program τ φ κ ω) (y z : τ × ω) : Prop :=
  ∃ p k, P.actAt p = some y ∧
    (∀ j < (P.code z.1).length, P.actAt (z.1, j) = some z → j = k) ∧ Before P p (z.1, k)

theorem Discipline.output_before [DecidableEq τ] [DecidableEq φ] [DecidableEq κ]
    (D : Discipline P) (h : P.system.Reachable s) {y z : τ × ω} (hyz : P.Precedes y z)
    {l l' : List (τ × ω)} (hl : P.output s = l ++ z :: l') : y ∈ l := by
  obtain ⟨p, k, hy, hk, hb⟩ := hyz
  obtain ⟨m, m', htrace, rfl, hm'⟩ := List.filterMap_eq_append_iff.mp hl
  obtain ⟨n, q, n', rfl, hnone, hq, rfl⟩ := List.filterMap_eq_cons_iff.mp hm'
  have hplace : q = (z.1, k) := by
    obtain ⟨w, hw, rfl⟩ := Option.map_eq_some_iff.mp hq
    obtain ⟨x, hx, _⟩ := Option.bind_eq_some_iff.mp hw
    obtain ⟨t, j⟩ := q
    rw [hk j (List.getElem?_eq_some_iff.mp hx).1 hq]
  rw [← List.append_assoc] at htrace
  have hp : p ∈ m ++ n := D.ordered h (hplace ▸ hb) htrace
  rcases List.mem_append.mp hp with hp | hp
  · exact List.mem_filterMap.mpr ⟨p, hp, hy⟩
  · rw [hnone p hp] at hy
    cases hy

end LinuxSystemProgramming.Threads
