import LinuxSystemProgramming.Pipes.Delivery

namespace LinuxSystemProgramming.Pipes

open CMemory Transition

def Released (_ : State) (a : Action) : Prop := a ≠ .parentFails true

def ChildPc.gone : ChildPc → Bool
  | .notCreated | .exited _ | .reaped _ => true
  | _ => false

def State.Ended (s : State) : Prop :=
  ((∃ status, s.parent = .exited status) ∨ s.parent = .killed) ∧ s.child.gone = true

def ParentPc.writes : ParentPc → Bool
  | .write _ _ | .closeWriting | .wait => true
  | _ => false

def Closed (s : State) : Prop :=
  (s.parent.writes = true → s.pipe.reads .parent = false) ∧
    (s.parent = .wait → s.pipe.writes .parent = false)

variable {V : Variant} {s s' : State} {a : Action}

theorem closed_of_same (h : Closed s) (hp : s'.parent = s.parent)
    (hq : s'.pipe.reads .parent = s.pipe.reads .parent ∧
      s'.pipe.writes .parent = s.pipe.writes .parent) : Closed s' := by
  rw [Closed, hp, hq.1, hq.2]
  exact h

theorem closed_reachable (h : (system V).ReachableWhile Released s) : Closed s := by
  apply System.ReachableWhile.induct (I := Closed) ?_ ?_ h
  · rintro s rfl
    constructor <;> intro h <;> cases h
  · intro s a s' _ ih ha hs
    cases step_of_next hs with
    | pipe hp => constructor <;> intro h <;> cases h
    | fork hp => constructor <;> intro h <;> cases h
    | @closeReading _ q hp hq =>
      obtain rfl := hq.resolve_right (fun hk => ha hk.1)
      constructor
      · intro _
        simp [Pipe.closeRead]
      · intro hw
        rcases afterWrites_cases V.messages with h | ⟨m, rest, _, h⟩ <;> simp [h] at hw
    | @wrote m rest hp hr =>
      constructor
      · intro _
        exact ih.1 (by rw [hp]; rfl)
      · intro hw
        rcases afterWrites_cases rest with h | ⟨m, rest, _, h⟩ <;> simp [h] at hw
    | @skipped _ m rest hp he _ =>
      constructor
      · intro _
        exact ih.1 (by rw [hp]; rfl)
      · intro hw
        rcases afterWrites_cases rest with h | ⟨m, rest, _, h⟩ <;> simp [h] at hw
    | killed hp hr hsig => constructor <;> intro h <;> cases h
    | exits hp _ => constructor <;> intro h <;> cases h
    | @closeWriting _ q hp hq =>
      obtain rfl := hq.resolve_right (fun hk => ha hk.1)
      constructor
      · intro _
        exact ih.1 (by rw [hp]; rfl)
      · intro _
        simp [Pipe.closeWrite]
    | wait hp hc => constructor <;> intro h <;> cases h
    | childCloses hc => exact closed_of_same ih (by rfl) (by simp [Pipe.closeWrite])
    | eof hc hd hw => exact closed_of_same ih (by rfl) (by simp)
    | got hc hl hn hq => exact closed_of_same ih (by rfl) (by simp [hq.2.1, hq.2.2])
    | childEnds hc =>
      exact closed_of_same ih (by rfl)
        (by simp [State.childExits, Pipe.exit, Pipe.closeRead, Pipe.closeWrite])
    | childFails hc =>
      exact closed_of_same ih (by rfl)
        (by simp [State.childExits, Pipe.exit, Pipe.closeRead, Pipe.closeWrite])

theorem step_of_isSome (a : Action) (ha : a.succeeds) (h : (next V s a).isSome = true) :
    ∃ a t, a.succeeds ∧ next V s a = some t := by
  obtain ⟨t, ht⟩ := Option.isSome_iff_exists.mp h
  exact ⟨a, t, ha, ht⟩

theorem child_goes (hc : s.child.reading = true)
    (hr : s.child = .read → s.pipe.data ≠ [] ∨ ¬ s.pipe.HasWriter) :
    ∃ a t, a.succeeds ∧ next V s a = some t := by
  cases hpc : s.child with
  | closeWriting => exact step_of_isSome (.child 0) trivial (by simp [next, child, hpc])
  | closeReading => exact step_of_isSome (.child 0) trivial (by simp [next, child, hpc])
  | read =>
    obtain ⟨r, hread⟩ := Pipe.read_possible V.reads.1 (hr hpc)
    exact step_of_isSome (.child 1) trivial (by simp [next, child, hpc, hread, Option.map_some])
  | notCreated | exited | reaped =>
    rw [hpc] at hc
    cases hc

theorem no_writer (h : Shape s) (hc : s.child ≠ .closeWriting)
    (hp : s.pipe.writes .parent = false) : ¬ s.pipe.HasWriter := by
  rintro ⟨p, hw⟩
  cases p with
  | parent =>
    rw [hp] at hw
    cases hw
  | child =>
    rw [h.child_writes] at hw
    exact hc (of_decide_eq_true hw)

theorem reading_of_not_gone (h : s.child.gone = false) : s.child.reading = true := by
  cases hc : s.child <;> rw [hc] at h <;> first | rfl | cases h

theorem goes_on (h : (system V).ReachableWhile Released s) (hn : ¬ s.Ended) :
    ∃ a t, a.succeeds ∧ next V s a = some t := by
  have hshape := shape_reachable h.reachable
  have hclosed := closed_reachable h
  have hchild : s.pipe.writes .parent = false → s.child.gone = false →
      ∃ a t, a.succeeds ∧ next V s a = some t := by
    intro hw hg
    apply child_goes (reading_of_not_gone hg)
    intro hr
    exact .inr (no_writer hshape (by simp [hr]) hw)
  cases hp : s.parent with
  | pipe => exact step_of_isSome .parent trivial (by simp [next, parent, hp])
  | fork => exact step_of_isSome .parent trivial (by simp [next, parent, hp])
  | closeReading => exact step_of_isSome .parent trivial (by simp [next, parent, hp])
  | closeWriting => exact step_of_isSome .parent trivial (by simp [next, parent, hp])
  | write m rest =>
    cases hw : s.pipe.write V.capacity m.bytes with
    | written q => exact step_of_isSome .parent trivial (by simp [next, parent, hp, hw])
    | broken =>
      cases hsig : V.ignoresSigpipe with
      | true => exact step_of_isSome .parent trivial (by simp [next, parent, hp, hw, hsig])
      | false =>
        exact step_of_isSome .parent trivial (by simp [next, parent, hp, hw, hsig])
    | waits =>
      -- the text does not fit yet, so there is something for the child to read
      obtain ⟨⟨p, hreads⟩, hfull⟩ := Pipe.write_waits hw
      have hm : m ∈ V.messages := by
        obtain ⟨passed, l, hm, hl, _⟩ := written_reachable h.reachable
        rw [hp] at hl
        obtain rfl : l = m :: rest := hl
        simp [hm]
      have hlen := (V.fits m hm).2
      have hroom := V.room
      have hdata : s.pipe.data ≠ [] := by
        intro hd
        rw [hd, List.length_nil] at hfull
        omega
      cases p with
      | parent =>
        rw [hclosed.1 (by rw [hp]; rfl)] at hreads
        cases hreads
      | child =>
        rw [hshape.child_reads] at hreads
        exact child_goes hreads (fun _ => .inl hdata)
  | wait =>
    cases hc : s.child with
    | exited status => exact step_of_isSome .parent trivial (by simp [next, parent, hp, hc])
    | notCreated =>
      rcases hshape.not_created hc with h' | h' | h' <;> rw [hp] at h' <;> cases h'
    | reaped status =>
      have := hshape.reaped status hc
      rw [hp] at this
      cases this
    | closeWriting | read | closeReading => exact hchild (hclosed.2 hp) (by rw [hc]; rfl)
  | exited status =>
    apply hchild (hshape.gone (by rw [hp]; rfl)).2
    by_contra hg
    exact hn ⟨.inl ⟨status, hp⟩, Bool.eq_true_of_not_eq_false hg⟩
  | killed =>
    apply hchild (hshape.gone (by rw [hp]; rfl)).2
    by_contra hg
    exact hn ⟨.inr hp, Bool.eq_true_of_not_eq_false hg⟩

def textsWeight : List Text → ℕ
  | [] => 0
  | m :: rest => m.bytes.length + 1 + textsWeight rest

def ParentPc.weight (V : Variant) : ParentPc → ℕ
  | .pipe => 5 + textsWeight V.messages
  | .fork => 4 + textsWeight V.messages
  | .closeReading => 3 + textsWeight V.messages
  | .write m rest => 2 + textsWeight (m :: rest)
  | .closeWriting => 2
  | .wait => 1
  | .exited _ | .killed => 0

def ChildPc.weight : ChildPc → ℕ
  | .notCreated => 4
  | .closeWriting => 3
  | .read => 2
  | .closeReading => 1
  | .exited _ | .reaped _ => 0

def weight (V : Variant) (s : State) : ℕ :=
  s.parent.weight V + s.child.weight + s.pipe.data.length

theorem afterWrites_weight (l : List Text) : (afterWrites l).weight V = 2 + textsWeight l := by
  cases l <;> rfl

theorem weight_lt (h : Shape s) (hs : Step V s a s') : weight V s' < weight V s := by
  cases hs with
  | pipe hp =>
    simp only [weight, hp, ParentPc.weight, Pipe.create, List.length_nil]
    omega
  | fork hp =>
    have hc := h.before (.inr hp)
    simp only [weight, hp, hc, ParentPc.weight, ChildPc.weight, Pipe.fork]
    omega
  | closeReading hp hq =>
    have hd : ∀ q, q = s.pipe.closeRead .parent ∨ a = .parentFails true ∧ q = s.pipe →
        q.data = s.pipe.data := by
      rintro q (rfl | ⟨_, rfl⟩) <;> rfl
    simp only [weight, hp, hd _ hq, afterWrites_weight]
    simp only [ParentPc.weight]
    omega
  | wrote hp hr =>
    simp only [weight, hp, afterWrites_weight, List.length_append]
    simp only [ParentPc.weight, textsWeight]
    omega
  | skipped hp he _ =>
    simp only [weight, hp, afterWrites_weight]
    simp only [ParentPc.weight, textsWeight]
    omega
  | killed hp hr hsig =>
    simp only [weight, hp, ParentPc.weight, Pipe.exit, Pipe.closeRead, Pipe.closeWrite]
    omega
  | exits hp _ =>
    rcases hp with hp | hp | ⟨m, rest, hp, _⟩ <;>
      simp only [weight, hp, ParentPc.weight, State.parentExits, Pipe.exit, Pipe.closeRead,
        Pipe.closeWrite] <;> omega
  | closeWriting hp hq =>
    have hd : ∀ q, q = s.pipe.closeWrite .parent ∨ a = .parentFails true ∧ q = s.pipe →
        q.data = s.pipe.data := by
      rintro q (rfl | ⟨_, rfl⟩) <;> rfl
    simp only [weight, hp, hd _ hq, ParentPc.weight]
    omega
  | wait hp hc =>
    simp only [weight, hp, hc, ParentPc.weight, ChildPc.weight, State.parentExits, Pipe.exit,
      Pipe.closeRead, Pipe.closeWrite]
    omega
  | childCloses hc =>
    simp only [weight, hc, ChildPc.weight, Pipe.closeWrite]
    omega
  | eof hc hd hw =>
    simp only [weight, hc, ChildPc.weight]
    omega
  | @got k l q hc hl hn hq =>
    have := List.length_pos_iff.mpr hl
    simp only [weight, hc, hq.1, List.length_append]
    cases V.stopsAfterRead <;> simp [ChildPc.weight] <;> omega
  | childEnds hc =>
    simp only [weight, hc, ChildPc.weight, State.childExits, Pipe.exit, Pipe.closeRead,
      Pipe.closeWrite]
    omega
  | childFails hc =>
    rcases hc with hc | hc | hc <;>
      simp only [weight, hc, ChildPc.weight, State.childExits, Pipe.exit, Pipe.closeRead,
        Pipe.closeWrite] <;> omega

theorem inevitably_ended (h : (system V).ReachableWhile Released s) :
    (system V).Inevitable Released
      (fun t => (system V).ReachableWhile Released t ∧ t.Ended) s := by
  apply System.Inevitable.of_measure (I := (system V).ReachableWhile Released) (weight V) ?_ ?_ h
  · intro s hr hn
    obtain ⟨a, t, ha, ht⟩ := goes_on hr (fun he => hn ⟨hr, he⟩)
    refine ⟨t, a, ?_, ht⟩
    rintro rfl
    exact ha
  · rintro s t hr _ ⟨a, ha, ht⟩
    exact ⟨.step a hr ha ht, weight_lt (shape_reachable hr.reachable) (step_of_next ht)⟩

/-- In 11_3 the parent always comes to reap the child it has made. -/
theorem reaps (hi : V.ignoresSigpipe = true) (he : V.exitsOnWriteError = false)
    (h : (system V).ReachableWhile Released s) :
    (¬ s.Ended → ∃ a t, a.succeeds ∧ next V s a = some t) ∧
      (system V).Inevitable Released (fun t => t.Ended ∧ (t.child ≠ .notCreated →
        t.parent = .exited 0 ∧ ∃ status, t.child = .reaped status)) s := by
  refine ⟨goes_on h, (inevitably_ended h).mono ?_⟩
  rintro t ⟨hr, hend⟩
  refine ⟨hend, fun hc => ?_⟩
  rcases hend.1 with ⟨status, hp⟩ | hp
  · by_cases hz : status = 0
    · subst hz
      exact ⟨hp, (shape_reachable hr.reachable).exited hp⟩
    · exact absurd (childless_of_failure he hr.reachable hz hp) hc
  · exact absurd hp (not_killed hi hr.reachable)

theorem reaps_demonstration : (system (demonstrationOfSigpipe 512 (by decide))).Inevitable Released
    (fun t => t.Ended ∧ (t.child ≠ .notCreated →
      t.parent = .exited 0 ∧ ∃ status, t.child = .reaped status)) State.initial :=
  (reaps rfl rfl (.init rfl)).2

structure Clean (s : State) : Prop where
  child : ∀ status, s.child = .exited status ∨ s.child = .reaped status → status = 0
  parent : ∀ status, s.parent = .exited status → status = 0
  alive : s.parent ≠ .killed

theorem Clean.not_broken (hc : Clean s) (hv : V.stopsAfterRead = false)
    (h : (system V).Reachable s) (hp : s.parent.isWrite = true) : s.pipe.HasReader := by
  by_contra hnone
  obtain ⟨status, hst, hx⟩ := broken_child hv h hp hnone
  exact hst (hc.child status (.inl hx))

theorem clean_reachable (hv : V.stopsAfterRead = false)
    (h : (system V).ReachableWhile (fun _ a => a.succeeds) s) : Clean s := by
  apply System.ReachableWhile.induct (I := Clean) ?_ ?_ h
  · rintro s rfl
    constructor <;> simp [State.initial]
  · intro s a s' hr ih ha hs
    cases step_of_next hs with
    | killed hp hnone hsig =>
      exact absurd (ih.not_broken hv hr.reachable (by rw [hp]; rfl)) hnone
    | exits hp hf => exact absurd (ih.not_broken hv hr.reachable (hf ha).1) (hf ha).2
    | wait hp hc =>
      refine ⟨?_, ?_, ?_⟩
      · rintro status (hx | hx)
        · cases hx
        · cases hx
          exact ih.child _ (.inl hc)
      · rintro status ⟨⟩
        rfl
      · rintro ⟨⟩
    | childEnds hc =>
      refine ⟨?_, ih.parent, ih.alive⟩
      rintro status (hx | hx) <;> cases hx
      rfl
    | childFails hc => exact ha.elim
    | closeReading | wrote | skipped =>
      exact ⟨ih.child, fun status hx => absurd hx ((afterWrites_ne _).2.2.1 status),
        (afterWrites_ne _).2.2.2⟩
    | pipe | closeWriting => exact ⟨ih.child, by rintro _ ⟨⟩, by rintro ⟨⟩⟩
    | fork =>
      refine ⟨?_, by rintro _ ⟨⟩, by rintro ⟨⟩⟩
      rintro _ (hx | hx) <;> cases hx
    | childCloses | eof =>
      refine ⟨?_, ih.parent, ih.alive⟩
      rintro _ (hx | hx) <;> cases hx
    | got hc hl hn hq =>
      refine ⟨?_, ih.parent, ih.alive⟩
      rw [hv]
      rintro _ (hx | hx) <;> cases hx

/-- Where no call fails, every run of 11_2 ends with all the texts printed by the child, in order,
and the child reaped with status 0. -/
theorem delivers_all (hv : V.stopsAfterRead = false) (he : V.exitsOnWriteError = true)
    (h : (system V).ReachableWhile (fun _ a => a.succeeds) s) :
    (system V).Inevitable (fun _ a => a.succeeds) (fun t => t.parent = .exited 0 ∧
      t.child = .reaped 0 ∧ t.printed.flatten = V.messages.flatMap Text.bytes) s := by
  have hrel : ∀ s a, a.succeeds → Released s a := by
    rintro s a ha rfl
    exact ha
  apply System.Inevitable.of_measure
    (I := (system V).ReachableWhile (fun _ a => a.succeeds)) (weight V) ?_ ?_ h
  · intro s hr hn
    have hgoes : ¬ s.Ended := by
      intro hend
      have hclean := clean_reachable hv hr
      rcases hend.1 with ⟨status, hp⟩ | hp
      · obtain rfl := hclean.parent status hp
        obtain ⟨status, hc⟩ := (shape_reachable hr.reachable).exited hp
        obtain rfl := hclean.child status (.inr hc)
        exact hn ⟨hp, hc, printed_all hv he hr.reachable hp hc⟩
      · exact hclean.alive hp
    obtain ⟨a, t, ha, ht⟩ := goes_on (hr.mono hrel) hgoes
    exact ⟨t, a, ha, ht⟩
  · rintro s t hr _ ⟨a, ha, ht⟩
    exact ⟨.step a hr ha ht, weight_lt (shape_reachable hr.reachable) (step_of_next ht)⟩

theorem delivers_all_text : (system (parentAndChild 512 (by decide))).Inevitable
    (fun _ a => a.succeeds) (fun t => t.parent = .exited 0 ∧ t.child = .reaped 0 ∧
      t.printed.flatten = [49, 50, 51, 52, 53, 54, 55, 56, 57, 65, 66, 67, 68, 69, 70])
    State.initial :=
  delivers_all rfl rfl (.init rfl)

end LinuxSystemProgramming.Pipes
