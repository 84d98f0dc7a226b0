import LinuxSystemProgramming.Pipes.ParentAndChild

namespace LinuxSystemProgramming.Pipes

open CMemory Transition

def ParentPc.writing : ParentPc → Bool
  | .fork | .closeReading | .write _ _ | .closeWriting => true
  | _ => false

def ParentPc.gone : ParentPc → Bool
  | .pipe | .exited _ | .killed => true
  | _ => false

def ChildPc.reading : ChildPc → Bool
  | .closeWriting | .read | .closeReading => true
  | _ => false

structure Shape (s : State) : Prop where
  empty : s.parent = .pipe → s.pipe.data = []
  before : s.parent = .pipe ∨ s.parent = .fork → s.child = .notCreated
  not_created : s.child = .notCreated →
    s.parent = .pipe ∨ s.parent = .fork ∨ s.parent = .exited 1
  reaped : ∀ status, s.child = .reaped status → s.parent = .exited 0
  exited : s.parent = .exited 0 → ∃ status, s.child = .reaped status
  child_reads : s.pipe.reads .child = s.child.reading
  child_writes : s.pipe.writes .child = decide (s.child = .closeWriting)
  parent_reads : s.parent = .fork → s.pipe.reads .parent = true
  parent_writes : s.parent.writing = true → s.pipe.writes .parent = true
  gone : s.parent.gone = true → s.pipe.reads .parent = false ∧ s.pipe.writes .parent = false

variable {V : Variant} {s s' : State} {a : Action}

theorem afterWrites_cases (l : List Text) :
    afterWrites l = .closeWriting ∨ ∃ m rest, l = m :: rest ∧ afterWrites l = .write m rest := by
  cases l with
  | nil => exact .inl rfl
  | cons m rest => exact .inr ⟨m, rest, rfl, rfl⟩

theorem afterWrites_writing (l : List Text) :
    (afterWrites l).writing = true ∧ (afterWrites l).gone = false := by
  rcases afterWrites_cases l with h | ⟨m, rest, rfl, h⟩
  · rw [h]
    exact ⟨rfl, rfl⟩
  · exact ⟨rfl, rfl⟩

theorem Shape.created (h : Shape s) (hp : s.parent.writing = true) (hf : s.parent ≠ .fork) :
    s.child ≠ .notCreated := by
  intro hc
  rcases h.not_created hc with hp' | hp' | hp'
  · rw [hp'] at hp
    cases hp
  · exact hf hp'
  · rw [hp'] at hp
    cases hp

theorem Shape.not_reaped (h : Shape s) (hp : s.parent ≠ .exited 0) (status : ℕ) :
    s.child ≠ .reaped status := fun hc => hp (h.reaped status hc)

theorem Shape.of_parent (h : Shape s) (hp : s.parent ≠ .exited 0) (hc : s'.child = s.child)
    (hq : s'.pipe.reads .child = s.pipe.reads .child ∧
      s'.pipe.writes .child = s.pipe.writes .child)
    (hp' : s'.parent ≠ .pipe ∧ s'.parent ≠ .fork ∧ s'.parent ≠ .exited 0)
    (hn : s.child ≠ .notCreated ∨ s'.parent = .exited 1)
    (hw : s'.parent.writing = true → s'.pipe.writes .parent = true)
    (hg : s'.parent.gone = true →
      s'.pipe.reads .parent = false ∧ s'.pipe.writes .parent = false) : Shape s' where
  empty he := absurd he hp'.1
  before hb := absurd hb (not_or.mpr ⟨hp'.1, hp'.2.1⟩)
  not_created hnew := .inr (.inr (hn.resolve_left (not_not.mpr (hc ▸ hnew))))
  reaped status hr := absurd (hc ▸ hr) (h.not_reaped hp status)
  exited he := absurd he hp'.2.2
  child_reads := by rw [hq.1, h.child_reads, hc]
  child_writes := by rw [hq.2, h.child_writes, hc]
  parent_reads hf := absurd hf hp'.2.1
  parent_writes := hw
  gone := hg

theorem Shape.of_child (h : Shape s) (hp : s'.parent = s.parent)
    (hc : s.child.reading = true) (hc' : s'.child.reading = true ∨ ∃ st, s'.child = .exited st)
    (hr : s'.pipe.reads .child = s'.child.reading)
    (hw : s'.pipe.writes .child = decide (s'.child = .closeWriting))
    (hq : s'.pipe.reads .parent = s.pipe.reads .parent ∧
      s'.pipe.writes .parent = s.pipe.writes .parent) : Shape s' where
  empty he := by
    rw [h.before (.inl (hp ▸ he))] at hc
    cases hc
  before hb := by
    rw [hp] at hb
    rw [h.before hb] at hc
    cases hc
  not_created hnew := by
    rw [hnew] at hc'
    rcases hc' with hc' | ⟨_, hc'⟩
    · cases hc'
    · cases hc'
  reaped status hre := by
    rw [hre] at hc'
    rcases hc' with hc' | ⟨_, hc'⟩
    · cases hc'
    · cases hc'
  exited he := by
    obtain ⟨status, hre⟩ := h.exited (hp ▸ he)
    rw [hre] at hc
    cases hc
  child_reads := hr
  child_writes := hw
  parent_reads hf := by rw [hq.1, h.parent_reads (hp ▸ hf)]
  parent_writes hwr := by rw [hq.2, h.parent_writes (hp ▸ hwr)]
  gone hg := by rw [hq.1, hq.2]; exact h.gone (hp ▸ hg)

theorem Shape.parent_exits (h : Shape s) (hp : s.parent ≠ .exited 0) : Shape (s.parentExits 1) := by
  refine h.of_parent hp (by rfl) ?_ ?_ (.inr (by rfl)) ?_ ?_
  · simp [State.parentExits, Pipe.exit, Pipe.closeRead, Pipe.closeWrite]
  · simp [State.parentExits]
  · intro hw
    cases hw
  · simp [State.parentExits, Pipe.exit, Pipe.closeRead, Pipe.closeWrite]

theorem Shape.child_exits (h : Shape s) (hc : s.child.reading = true) (status : ℕ) :
    Shape (s.childExits status) := by
  refine h.of_child (by rfl) hc (.inr ⟨status, by rfl⟩) ?_ ?_ ?_
  · simp [State.childExits, Pipe.exit, Pipe.closeRead, Pipe.closeWrite, ChildPc.reading]
  · simp [State.childExits, Pipe.exit, Pipe.closeRead, Pipe.closeWrite]
  · simp [State.childExits, Pipe.exit, Pipe.closeRead, Pipe.closeWrite]

theorem afterWrites_ne (l : List Text) :
    afterWrites l ≠ .pipe ∧ afterWrites l ≠ .fork ∧ (∀ status, afterWrites l ≠ .exited status) ∧
      afterWrites l ≠ .killed := by
  rcases afterWrites_cases l with h | ⟨m, rest, _, h⟩ <;> simp [h]

theorem afterWrites_new (l : List Text) :
    afterWrites l ≠ .pipe ∧ afterWrites l ≠ .fork ∧ afterWrites l ≠ .exited 0 :=
  ⟨(afterWrites_ne l).1, (afterWrites_ne l).2.1, (afterWrites_ne l).2.2.1 0⟩

theorem Shape.to_writes {l : List Text} (h : Shape s) (hp : s.parent.writing = true)
    (hf : s.parent ≠ .fork) (hp' : s'.parent = afterWrites l) (hc : s'.child = s.child)
    (hr : s'.pipe.reads .child = s.pipe.reads .child) (hw : s'.pipe.writes = s.pipe.writes) :
    Shape s' := by
  have hne : s.parent ≠ .exited 0 := by
    intro he
    rw [he] at hp
    cases hp
  have hnew : s'.parent ≠ .pipe ∧ s'.parent ≠ .fork ∧ s'.parent ≠ .exited 0 := by
    rw [hp']
    exact afterWrites_new l
  refine h.of_parent hne hc ⟨hr, congrFun hw _⟩ hnew (.inl (h.created hp hf)) ?_ ?_
  · intro _
    rw [hw]
    exact h.parent_writes hp
  · intro hg
    rw [hp', (afterWrites_writing l).2] at hg
    cases hg

theorem shape_step (h : Shape s) (hs : Step V s a s') : Shape s' := by
  cases hs with
  | pipe hp =>
    have hc := h.before (.inl hp)
    constructor <;> simp [hc, Pipe.create, ChildPc.reading, ParentPc.gone]
  | fork hp =>
    have hr := h.parent_reads hp
    have hw := h.parent_writes (by rw [hp]; rfl)
    constructor <;> simp [Pipe.fork, hr, hw, ChildPc.reading, ParentPc.gone]
  | closeReading hp hq =>
    refine h.to_writes (by rw [hp]; rfl) (by simp [hp]) (by rfl) (by rfl) ?_ ?_
    · rcases hq with rfl | ⟨_, rfl⟩ <;> simp [Pipe.closeRead]
    · rcases hq with rfl | ⟨_, rfl⟩ <;> rfl
  | wrote hp hr =>
    exact h.to_writes (by rw [hp]; rfl) (by simp [hp]) (by rfl) (by rfl) (by rfl) (by rfl)
  | skipped hp he _ =>
    exact h.to_writes (by rw [hp]; rfl) (by simp [hp]) (by rfl) (by rfl) (by rfl) (by rfl)
  | killed hp hr hsig =>
    have hcr := h.created (by rw [hp]; rfl) (by rw [hp]; simp)
    refine h.of_parent (by simp [hp]) (by rfl) ?_ (by simp) (.inl hcr) ?_ ?_
    · simp [Pipe.exit, Pipe.closeRead, Pipe.closeWrite]
    · intro hw
      cases hw
    · simp [Pipe.exit, Pipe.closeRead, Pipe.closeWrite]
  | exits hp _ =>
    apply h.parent_exits
    rcases hp with hp | hp | ⟨m, rest, hp, _⟩ <;> simp [hp]
  | closeWriting hp hq =>
    have hcr := h.created (by rw [hp]; rfl) (by rw [hp]; simp)
    refine h.of_parent (by simp [hp]) (by rfl) ?_ (by simp) (.inl hcr) ?_ ?_
    · rcases hq with rfl | ⟨_, rfl⟩ <;> simp [Pipe.closeWrite]
    · intro hw
      cases hw
    · intro hg
      cases hg
  | wait hp hc =>
    have hr := h.child_reads
    have hw := h.child_writes
    rw [hc] at hr hw
    constructor <;> simp [State.parentExits, Pipe.exit, Pipe.closeRead, Pipe.closeWrite, hr, hw,
      ChildPc.reading, ParentPc.writing]
  | childCloses hc =>
    refine h.of_child (by rfl) (by rw [hc]; rfl) (.inl (by rfl)) ?_ ?_ ?_
    · simp [Pipe.closeWrite, h.child_reads, hc, ChildPc.reading]
    · simp [Pipe.closeWrite]
    · simp [Pipe.closeWrite]
  | eof hc hd hw =>
    refine h.of_child (by rfl) (by rw [hc]; rfl) (.inl (by rfl)) ?_ ?_ ?_
    · simp [h.child_reads, hc, ChildPc.reading]
    · simp [h.child_writes, hc]
    · simp
  | got hc hl hn hq =>
    refine h.of_child (by rfl) (by rw [hc]; rfl) (.inl ?_) ?_ ?_ ?_
    · cases V.stopsAfterRead <;> rfl
    · rw [hq.2.1, h.child_reads, hc]
      cases V.stopsAfterRead <;> rfl
    · rw [hq.2.2, h.child_writes, hc]
      cases V.stopsAfterRead <;> rfl
    · rw [hq.2.1, hq.2.2]
      exact ⟨rfl, rfl⟩
  | childEnds hc => exact h.child_exits (by rw [hc]; rfl) 0
  | childFails hc =>
    apply h.child_exits
    rcases hc with hc | hc | hc <;> rw [hc] <;> rfl

theorem shape_reachable (h : (system V).Reachable s) : Shape s := by
  apply System.Reachable.induct (I := Shape) ?_ ?_ h
  · rintro s rfl
    constructor <;> simp [State.initial, ChildPc.reading, ParentPc.writing, ParentPc.gone]
  · intro s a s' _ ih hs
    exact shape_step ih (step_of_next hs)

def sent (s : State) : List Byte := s.accepted.flatMap Text.bytes

theorem sent_nul_free (s : State) : ∀ b ∈ sent s, b ≠ 0 := by
  intro b hb
  obtain ⟨m, _, hm⟩ := List.mem_flatMap.mp hb
  exact m.nul_free b hm

theorem Step.bytes (h : Step V s a s') (hs : Shape s) :
    (s'.accepted = s.accepted ∧ s'.printed = s.printed ∧ s'.pipe.data = s.pipe.data) ∨
    (∃ m, s'.accepted = s.accepted ++ [m] ∧ s'.printed = s.printed ∧
      s'.pipe.data = s.pipe.data ++ m.bytes) ∨
    ∃ l, l ≠ [] ∧ l.length ≤ V.bytesToReadAtOnce ∧ s'.accepted = s.accepted ∧
      s'.printed = s.printed ++ [cString (l ++ [0])] ∧ s.pipe.data = l ++ s'.pipe.data := by
  cases h with
  | pipe hp => exact .inl ⟨rfl, rfl, (hs.empty hp).symm⟩
  | wrote hp hr => exact .inr (.inl ⟨_, rfl, rfl, rfl⟩)
  | got hc hl hn hq => exact .inr (.inr ⟨_, hl, hn, rfl, rfl, hq.1⟩)
  | closeReading hp hq => rcases hq with rfl | ⟨_, rfl⟩ <;> exact .inl ⟨rfl, rfl, rfl⟩
  | closeWriting hp hq => rcases hq with rfl | ⟨_, rfl⟩ <;> exact .inl ⟨rfl, rfl, rfl⟩
  | fork | skipped | killed | exits | wait | childCloses | eof | childEnds | childFails =>
    exact .inl ⟨rfl, rfl, rfl⟩

structure Stream (V : Variant) (s : State) : Prop where
  flow : s.printed.flatten ++ s.pipe.data = sent s
  pieces : ∀ l ∈ s.printed, l ≠ [] ∧ l.length ≤ V.bytesToReadAtOnce

theorem stream_reachable (h : (system V).Reachable s) : Stream V s := by
  apply System.Reachable.induct (I := Stream V) ?_ ?_ h
  · rintro s rfl
    constructor <;> simp [State.initial, sent]
  · intro s a s' hr ih hs
    rcases (step_of_next hs).bytes (shape_reachable hr) with ⟨ha, hp, hd⟩ | ⟨m, ha, hp, hd⟩ |
      ⟨l, hl, hn, ha, hp, hd⟩
    · constructor
      · rw [hp, hd, ih.flow, sent, sent, ha]
      · rw [hp]
        exact ih.pieces
    · constructor
      · rw [hp, hd, ← List.append_assoc, ih.flow, sent, sent, ha, List.flatMap_append]
        simp
      · rw [hp]
        exact ih.pieces
    · have htext : cString (l ++ [0]) = l := by
        rw [cString_nul]
        apply cString_eq_self
        intro b hb
        apply sent_nul_free s b
        rw [← ih.flow, hd]
        exact List.mem_append_right _ (List.mem_append_left _ hb)
      rw [htext] at hp
      constructor
      · rw [hp, sent, ha, ← sent, ← ih.flow, hd]
        simp
      · rw [hp]
        intro r hr
        rcases List.mem_append.mp hr with hr | hr
        · exact ih.pieces r hr
        · rw [List.mem_singleton.mp hr]
          exact ⟨hl, hn⟩

def ParentPc.Leaves (V : Variant) (rest : List Text) : ParentPc → Prop
  | .pipe | .fork | .closeReading => rest = V.messages
  | .write m l => rest = m :: l
  | .closeWriting | .wait | .exited 0 => rest = []
  | .exited _ | .killed => True

theorem afterWrites_leaves (l : List Text) : (afterWrites l).Leaves V l := by
  cases l <;> rfl

def Written (V : Variant) (s : State) : Prop :=
  ∃ passed rest, V.messages = passed ++ rest ∧ s.parent.Leaves V rest ∧
    s.accepted.Sublist passed ∧ (V.exitsOnWriteError = true → s.accepted = passed)

theorem written_of_parent (h : Written V s) (ha : s'.accepted = s.accepted)
    (hp : ∀ rest, s.parent.Leaves V rest → s'.parent.Leaves V rest) : Written V s' := by
  obtain ⟨passed, rest, hm, hl, hsub, heq⟩ := h
  exact ⟨passed, rest, hm, hp rest hl, ha ▸ hsub, fun he => ha.trans (heq he)⟩

theorem written_reachable (h : (system V).Reachable s) : Written V s := by
  apply System.Reachable.induct (I := Written V) ?_ ?_ h
  · rintro s rfl
    exact ⟨[], V.messages, rfl, rfl, List.Sublist.refl _, fun _ => rfl⟩
  · intro s a s' _ ih hs
    cases step_of_next hs with
    | pipe hp | fork hp =>
      refine written_of_parent ih (by rfl) ?_
      intro rest hl
      rw [hp] at hl
      exact hl
    | closeReading hp hq =>
      refine written_of_parent ih (by rfl) ?_
      intro rest hl
      rw [hp] at hl
      obtain rfl : rest = V.messages := hl
      exact afterWrites_leaves _
    | @wrote m rest hp hr =>
      obtain ⟨passed, l, hm, hl, hsub, heq⟩ := ih
      rw [hp] at hl
      obtain rfl : l = m :: rest := hl
      refine ⟨passed ++ [m], rest, by simp [hm], afterWrites_leaves rest, ?_, fun he => ?_⟩
      · exact hsub.append (List.Sublist.refl _)
      · simp [heq he]
    | @skipped _ m rest hp he _ =>
      obtain ⟨passed, l, hm, hl, hsub, heq⟩ := ih
      rw [hp] at hl
      obtain rfl : l = m :: rest := hl
      refine ⟨passed ++ [m], rest, by simp [hm], afterWrites_leaves rest, ?_, fun he' => ?_⟩
      · exact hsub.trans (List.sublist_append_left _ _)
      · rw [he] at he'
        cases he'
    | killed hp => exact written_of_parent ih (by rfl) (by exact fun _ _ => trivial)
    | exits hp _ => exact written_of_parent ih (by rfl) (by exact fun _ _ => trivial)
    | closeWriting hp hq =>
      refine written_of_parent ih (by rfl) ?_
      intro rest hl
      rw [hp] at hl
      exact hl
    | wait hp hc =>
      refine written_of_parent ih (by rfl) ?_
      intro rest hl
      rw [hp] at hl
      exact hl
    | childCloses | eof | got | childEnds | childFails =>
      exact written_of_parent ih (by rfl) (by exact fun _ hl => hl)

def ChildPc.sawEnd : ChildPc → Bool
  | .closeReading | .exited 0 | .reaped 0 => true
  | _ => false

-- A reader that has seen the end of file has read all there will ever be.
theorem readAll_reachable (hv : V.stopsAfterRead = false) (h : (system V).Reachable s)
    (hc : s.child.sawEnd = true) : s.pipe.data = [] ∧ s.pipe.writes .parent = false := by
  apply System.Reachable.induct (I := fun s => s.child.sawEnd = true →
    s.pipe.data = [] ∧ s.pipe.writes .parent = false) ?_ ?_ h hc
  · rintro s rfl hc
    cases hc
  · intro s a s' hr ih hs hc
    have hshape := shape_reachable hr
    have hidle : s.parent.writing = true → s.child.sawEnd = true → False := by
      intro hw hc
      have := hshape.parent_writes hw
      rw [(ih hc).2] at this
      cases this
    have hnew : s.parent = .pipe ∨ s.parent = .fork → s.child.sawEnd = true → False := by
      intro hp hc
      rw [hshape.before hp] at hc
      cases hc
    cases step_of_next hs with
    | pipe hp => exact (hnew (.inl hp) hc).elim
    | fork hp => cases hc
    | closeReading hp hq => exact (hidle (by rw [hp]; rfl) hc).elim
    | wrote hp hr => exact (hidle (by rw [hp]; rfl) hc).elim
    | skipped hp he _ => exact (hidle (by rw [hp]; rfl) hc).elim
    | killed hp hr hsig => exact (hidle (by rw [hp]; rfl) hc).elim
    | closeWriting hp hq => exact (hidle (by rw [hp]; rfl) hc).elim
    | exits hp _ =>
      rcases hp with hp | hp | ⟨m, rest, hp, _⟩
      · exact (hnew (.inl hp) hc).elim
      · exact (hnew (.inr hp) hc).elim
      · exact (hidle (by rw [hp]; rfl) hc).elim
    | @wait status hp hx =>
      have hsaw : s.child.sawEnd = true := by
        rw [hx]
        cases status with
        | zero => rfl
        | succ n => cases hc
      refine ⟨(ih hsaw).1, ?_⟩
      simp [State.parentExits, Pipe.exit, Pipe.closeRead, Pipe.closeWrite]
    | childCloses hx => cases hc
    | eof hx hd hw =>
      refine ⟨hd, ?_⟩
      by_contra hp
      exact hw ⟨.parent, Bool.eq_true_of_not_eq_false hp⟩
    | got hx hl hn hq =>
      rw [hv] at hc
      cases hc
    | childEnds hx =>
      obtain ⟨hd, hw⟩ := ih (by rw [hx]; rfl)
      exact ⟨hd, by simpa [State.childExits, Pipe.exit, Pipe.closeRead, Pipe.closeWrite] using hw⟩
    | childFails hx => cases hc

-- The pipe breaks under a `write` only when the child has ended with a failure.
theorem broken_child (hv : V.stopsAfterRead = false) (h : (system V).Reachable s)
    (hp : s.parent.isWrite = true) (hnone : ¬ s.pipe.HasReader) :
    ∃ status, status ≠ 0 ∧ s.child = .exited status := by
  have hshape := shape_reachable h
  obtain ⟨m, rest, hp⟩ : ∃ m rest, s.parent = .write m rest := by
    cases hpc : s.parent <;> rw [hpc] at hp <;> first | exact ⟨_, _, rfl⟩ | cases hp
  have hidle : s.child.reading ≠ true := by
    rw [← hshape.child_reads]
    exact fun h => hnone ⟨.child, h⟩
  have hcr := hshape.created (by rw [hp]; rfl) (by simp [hp])
  have hnr := hshape.not_reaped (by simp [hp])
  cases hc : s.child with
  | notCreated => exact absurd hc hcr
  | reaped status => exact absurd hc (hnr status)
  | closeWriting => exact absurd (by rw [hc]; rfl) hidle
  | read => exact absurd (by rw [hc]; rfl) hidle
  | closeReading => exact absurd (by rw [hc]; rfl) hidle
  | exited status =>
    refine ⟨status, ?_, rfl⟩
    rintro rfl
    have hw := hshape.parent_writes (by rw [hp]; rfl)
    rw [(readAll_reachable hv h (by rw [hc]; rfl)).2] at hw
    cases hw

theorem killed_child (hv : V.stopsAfterRead = false) (h : (system V).Reachable s)
    (hk : s.parent = .killed) : ∃ status, status ≠ 0 ∧ s.child = .exited status := by
  apply System.Reachable.induct (I := fun s => s.parent = .killed →
    ∃ status, status ≠ 0 ∧ s.child = .exited status) ?_ ?_ h hk
  · rintro s rfl hk
    cases hk
  · intro s a s' hr ih hs hk
    cases step_of_next hs with
    | killed hp hnone hsig =>
      have hbroken := broken_child hv hr (by rw [hp]; rfl) hnone
      exact hbroken
    | closeReading hp hq => exact absurd hk (afterWrites_ne _).2.2.2
    | wrote hp hr => exact absurd hk (afterWrites_ne _).2.2.2
    | skipped hp he _ => exact absurd hk (afterWrites_ne _).2.2.2
    | pipe | fork | exits | closeWriting | wait => cases hk
    | childCloses hc | eof hc | got hc | childEnds hc =>
      obtain ⟨status, _, hx⟩ := ih hk
      rw [hc] at hx
      cases hx
    | childFails hc =>
      obtain ⟨status, _, hx⟩ := ih hk
      rw [hx] at hc
      rcases hc with hc | hc | hc <;> cases hc

theorem printed_all (hv : V.stopsAfterRead = false) (he : V.exitsOnWriteError = true)
    (h : (system V).Reachable s) (hp : s.parent = .exited 0) (hc : s.child = .reaped 0) :
    s.printed.flatten = V.messages.flatMap Text.bytes := by
  obtain ⟨passed, rest, hm, hl, _, heq⟩ := written_reachable h
  have hsent : sent s = passed.flatMap Text.bytes := by rw [sent, heq he]
  have hd := (readAll_reachable hv h (by rw [hc]; rfl)).1
  rw [hp] at hl
  obtain rfl : rest = [] := hl
  rw [hm, List.append_nil, ← hsent, ← (stream_reachable h).flow, hd, List.append_nil]

/-- What 11_2 delivers, whatever fails: the child prints a beginning of the texts, in pieces; it has
printed all of them when both processes end well, and SIGPIPE ends the parent only after a call of
the child has failed. -/
theorem delivers (hv : V.stopsAfterRead = false) (he : V.exitsOnWriteError = true)
    (h : (system V).Reachable s) :
    s.printed.flatten <+: V.messages.flatMap Text.bytes ∧
      (∀ l ∈ s.printed, l ≠ [] ∧ l.length ≤ V.bytesToReadAtOnce) ∧
      (s.parent = .exited 0 → s.child = .reaped 0 →
        s.printed.flatten = V.messages.flatMap Text.bytes) ∧
      (s.parent = .killed → ∃ status, status ≠ 0 ∧ s.child = .exited status) := by
  have hstream := stream_reachable h
  obtain ⟨passed, rest, hm, _, _, heq⟩ := written_reachable h
  have hsent : sent s = passed.flatMap Text.bytes := by rw [sent, heq he]
  refine ⟨?_, hstream.pieces, printed_all hv he h, killed_child hv h⟩
  rw [hm, List.flatMap_append, ← hsent, ← hstream.flow, List.append_assoc]
  exact List.prefix_append _ _

theorem delivers_sample : ∃ s, (system (parentAndChild 512 (by decide))).run State.initial
      [.parent, .parent, .parent, .child 0, .parent, .child 8, .parent, .child 7, .child 0,
        .child 0, .parent] = some s ∧
    s.printed.map List.length = [8, 7] ∧
    s.printed.flatten <+: (parentAndChild 512 (by decide)).messages.flatMap Text.bytes := by
  have hrun : ((system (parentAndChild 512 (by decide))).run State.initial
      [.parent, .parent, .parent, .child 0, .parent, .child 8, .parent, .child 7, .child 0,
        .child 0, .parent]).map (fun s => s.printed.map List.length) = some [8, 7] := by
    decide
  obtain ⟨s, hs, hp⟩ := Option.map_eq_some_iff.mp hrun
  exact ⟨s, hs, hp, (delivers rfl rfl (.run _ (.init rfl) hs)).1⟩

def ChildPc.fresh : ChildPc → Bool
  | .notCreated | .closeWriting | .read => true
  | _ => false

theorem not_killed (hi : V.ignoresSigpipe = true) (h : (system V).Reachable s) :
    s.parent ≠ .killed := by
  apply System.Reachable.induct (I := fun s => s.parent ≠ .killed) ?_ ?_ h
  · rintro s rfl hk
    cases hk
  · intro s a s' _ ih hs hk
    cases step_of_next hs with
    | killed hp hr hsig =>
      rw [hi] at hsig
      cases hsig
    | closeReading hp hq => exact (afterWrites_ne _).2.2.2 hk
    | wrote hp hr => exact (afterWrites_ne _).2.2.2 hk
    | skipped hp he _ => exact (afterWrites_ne _).2.2.2 hk
    | pipe | fork | exits | closeWriting | wait => cases hk
    | childCloses | eof | got | childEnds | childFails => exact ih hk

theorem childless_of_failure (he : V.exitsOnWriteError = false) (h : (system V).Reachable s)
    {status : ℕ} (hst : status ≠ 0) (hx : s.parent = .exited status) : s.child = .notCreated := by
  apply System.Reachable.induct
    (I := fun s => s.parent = .exited status → s.child = .notCreated) ?_ ?_ h hx
  · rintro s rfl _
    rfl
  · intro s a s' hr ih hs hx
    cases step_of_next hs with
    | exits hp _ =>
      rcases hp with hp | hp | ⟨m, rest, hp, he'⟩
      · exact (shape_reachable hr).before (.inl hp)
      · exact (shape_reachable hr).before (.inr hp)
      · rw [he] at he'
        cases he'
    | closeReading hp hq => exact absurd hx ((afterWrites_ne _).2.2.1 status)
    | wrote hp hr => exact absurd hx ((afterWrites_ne _).2.2.1 status)
    | skipped hp he _ => exact absurd hx ((afterWrites_ne _).2.2.1 status)
    | wait hp hc => cases hx; exact absurd rfl hst
    | pipe | fork | killed | closeWriting => cases hx
    | childCloses hc | eof hc | got hc | childEnds hc =>
      have hnew := ih hx
      rw [hc] at hnew
      cases hnew
    | childFails hc =>
      rw [ih hx] at hc
      rcases hc with hc | hc | hc <;> cases hc

end LinuxSystemProgramming.Pipes
