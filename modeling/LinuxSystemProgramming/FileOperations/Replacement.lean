import LinuxSystemProgramming.FileOperations.Search

namespace LinuxSystemProgramming.FileOperations

open CMemory Files Subsequence Transition

open scoped List

namespace Search

variable {content : List Byte} {s t : Search}

/-- The run has ended and has done what it was asked for: the first "Rohan" is "Mohan", or the file
is as it was and the program says that it has not found it. -/
structure Replaces (content : List Byte) (s : Search) : Prop where
  status : s.pc = .returned .success
  occurs : ∀ i, OccursAt stringTarget content i → (∀ j < i, ¬ OccursAt stringTarget content j) →
    s.file = content.set i 77 ∧ s.reports.getLast? = some foundText
  missing : (∀ i, ¬ OccursAt stringTarget content i) →
    s.file = content ∧ s.reports.getLast? = some notFoundText

def NoFailure (_ : Search) (a : SearchAction) : Prop := a = .run

structure Found (content : List Byte) (s : Search) (n : ℕ) : Prop where
  endsAt : EndsAt stringTarget content n
  inside : n ≤ sizeBufRead
  file : s.file = content.set (n - 5) 77
  replaced : s.letterReplacedSuccessfully = true

structure NotFound (content : List Byte) (s : Search) : Prop where
  missing : ¬ stringTarget <+ content
  inside : content.length ≤ sizeBufRead
  file : s.file = content
  replaced : s.letterReplacedSuccessfully = false

theorem Found.frame {n : ℕ} (h : Found content s n) (hfile : t.file = s.file)
    (hreplaced : t.letterReplacedSuccessfully = s.letterReplacedSuccessfully) :
    Found content t n :=
  ⟨h.endsAt, h.inside, hfile.trans h.file, hreplaced.trans h.replaced⟩

theorem NotFound.frame (h : NotFound content s) (hfile : t.file = s.file)
    (hreplaced : t.letterReplacedSuccessfully = s.letterReplacedSuccessfully) :
    NotFound content t :=
  ⟨h.missing, h.inside, hfile.trans h.file, hreplaced.trans h.replaced⟩

def Reported (content : List Byte) (s : Search) : Prop :=
  (∃ n, Found content s n ∧ s.reports = [foundText]) ∨
    NotFound content s ∧ s.reports = ["EOF reached", notFoundText]

def Ending (content : List Byte) (s : Search) : Prop :=
  match s.pc with
  | .write => EndsAt stringTarget content (s.offset + 5) ∧ s.offset + 5 ≤ sizeBufRead ∧
      s.file = content ∧ s.reports = []
  | .report => (∃ n, Found content s n ∧ s.reports = []) ∨
      NotFound content s ∧ s.reports = ["EOF reached"]
  | .close => Reported content s
  | .returned status => status = .success ∧ Reported content s
  | _ => True

theorem seek_ending (h : AtSeek content s) : s.seek.Ending content := by
  have hfive : 5 ≤ s.offset := h.endsAt.length_le
  have hin := h.inside
  have hoff := h.offset
  rw [seek, strlen_stringTarget, if_pos hfive]
  refine ⟨?_, ?_, h.file, h.reports⟩
  · change EndsAt stringTarget content (s.offset - 5 + 5)
    rw [Nat.sub_add_cancel hfive]
    exact h.endsAt
  · change s.offset - 5 + 5 ≤ sizeBufRead
    omega

theorem read_ending (h : AtHead content s) : s.read.Ending content := by
  rcases h.file_bound.lt_or_eq with hlt | he
  · rcases read_byte h hlt with ⟨-, hpc, -⟩ | ⟨-, hfault⟩
    · rw [Ending, hpc]
      trivial
    · rw [hfault]
      trivial
  · have hmissing := h.matched.not_sublist
    rw [he, List.take_length] at hmissing
    rw [read_end h he]
    right
    refine ⟨⟨hmissing, he ▸ h.inside, h.file, h.replaced⟩, ?_⟩
    change s.reports ++ ["EOF reached"] = _
    rw [h.reports]
    rfl

theorem write_ending (hpc : s.pc = .write) (h : s.Ending content) : s.write.Ending content := by
  rw [Ending, hpc] at h
  obtain ⟨hends, hin, hfile, hreports⟩ := h
  have hbound := hends.bound
  left
  refine ⟨s.offset + 5, ⟨hends, hin, ?_, rfl⟩, hreports⟩
  change writeAt s.file s.offset [77] = _
  rw [hfile, Nat.add_sub_cancel]
  apply writeAt_one
  omega

theorem report_ending (hpc : s.pc = .report) (h : s.Ending content) : s.report.Ending content := by
  rw [Ending, hpc] at h
  rcases h with ⟨n, hfound, hreports⟩ | ⟨hmissing, hreports⟩
  · rw [report, if_pos hfound.replaced]
    left
    refine ⟨n, hfound.frame rfl rfl, ?_⟩
    change s.reports ++ [foundText] = _
    rw [hreports]
    rfl
  · rw [report, if_neg (by simp [hmissing.replaced])]
    right
    refine ⟨hmissing.frame rfl rfl, ?_⟩
    change s.reports ++ [notFoundText] = _
    rw [hreports]
    rfl

theorem compare_ending {b : Byte} (h : AtCompare content s b) : s.compare.Ending content := by
  rcases compare_cases h with ⟨hpc, -⟩ | ⟨hpc, -⟩ <;> rw [Ending, hpc] <;> trivial

theorem main_ending (hl : s.Loop content) (h : s.Ending content) (hn : s.main .run = some t) :
    t.Ending content := by
  cases hpc : s.pc <;> simp only [main, hpc, reduceCtorEq] at hn <;> cases hn <;>
    simp only [Loop, hpc] at hl
  case openFile => trivial
  case read => exact read_ending hl
  case compare =>
    obtain ⟨b, hb⟩ := hl
    exact compare_ending hb
  case seek => exact seek_ending hl
  case write => exact write_ending hpc h
  case report => exact report_ending hpc h
  case close =>
    rw [Ending, hpc] at h
    rcases h with ⟨n, hfound, hreports⟩ | ⟨hmissing, hreports⟩
    · exact ⟨rfl, .inl ⟨n, hfound.frame rfl rfl, hreports⟩⟩
    · exact ⟨rfl, .inr ⟨hmissing.frame rfl rfl, hreports⟩⟩

def Outcome (content : List Byte) (s : Search) : Prop :=
  s.pc = .returned .success ∧ Reported content s ∨
    s.pc = .fault ∧ sizeBufRead < content.length ∧ ¬ stringTarget <+ content.take sizeBufRead

def rank (content : List Byte) (s : Search) : ℕ :=
  match s.pc with
  | .openFile => 2 * content.length + 10
  | .read => 2 * (content.length - s.totalBytesRead) + 8
  | .compare => 2 * (content.length - s.totalBytesRead) + 7
  | .seek => 4
  | .write => 3
  | .report => 2
  | .close => 1
  | .returned _ | .fault => 0

theorem compare_rank {b : Byte} (h : AtCompare content s b) :
    s.compare.rank content < 2 * (content.length - s.totalBytesRead) + 7 := by
  obtain ⟨hlt, -⟩ := List.getElem?_eq_some_iff.mp h.byte
  rcases compare_cases h with ⟨hpc, hat⟩ | ⟨hpc, -⟩
  · have hle := hat.file_bound
    have htotal := hat.offset
    rw [compare_offset, h.offset] at htotal
    simp only [rank, hpc]
    omega
  · simp only [rank, hpc]
    omega

theorem read_rank (h : AtHead content s) :
    s.read.rank content < 2 * (content.length - s.totalBytesRead) + 8 := by
  rcases h.file_bound.lt_or_eq with hlt | he
  · rcases read_byte h hlt with ⟨-, hpc, -⟩ | ⟨-, hfault⟩
    · simp only [rank, hpc, read_totalBytesRead]
      omega
    · rw [hfault]
      exact Nat.succ_pos _
  · rw [read_end h he]
    change 2 < _
    omega

theorem main_rank (hl : s.Loop content) (hn : s.main .run = some t) :
    t.rank content < s.rank content := by
  cases hpc : s.pc <;> simp only [main, hpc, reduceCtorEq] at hn <;> cases hn <;>
    simp only [Loop, hpc] at hl
  case openFile =>
    subst hl
    change 2 * (content.length - 0) + 8 < 2 * content.length + 10
    omega
  case read =>
    simp only [rank, hpc]
    exact read_rank hl
  case compare =>
    obtain ⟨b, hb⟩ := hl
    simp only [rank, hpc]
    exact compare_rank hb
  case seek =>
    rw [seek]
    split_ifs <;> simp [rank, hpc, goto]
  case write => simp [rank, hpc, write]
  case report =>
    rw [report]
    split_ifs <;> simp [rank, hpc, goto, logError]
  case close => simp [rank, hpc, goto]

theorem run_step (h : s.Ending content) (hl : s.Loop content) (hd : ¬ Outcome content s) :
    ∃ t, s.main .run = some t := by
  cases hpc : s.pc <;> simp only [Ending, Loop, hpc] at h hl <;>
    first
    | exact ⟨_, by simp only [main, hpc]; rfl⟩
    | skip
  case returned status =>
    obtain ⟨rfl, hr⟩ := h
    exact absurd (.inl ⟨hpc, hr⟩) hd
  case fault => exact absurd (.inr ⟨hpc, hl⟩) hd

theorem outcome_inevitable (content : List Byte) :
    (search content).Inevitable NoFailure (Outcome content) (initial content) := by
  apply System.Inevitable.of_measure (I := fun s => s.Loop content ∧ s.Ending content)
    (rank content)
  · rintro s ⟨hl, he⟩ hd
    obtain ⟨t, ht⟩ := run_step he hl hd
    exact ⟨t, .run, rfl, ht⟩
  · rintro s t ⟨hl, he⟩ - ⟨_, rfl, hn⟩
    exact ⟨⟨main_loop hl hn, main_ending hl he hn⟩, main_rank hl hn⟩
  · exact ⟨rfl, trivial⟩

theorem no_step_of_ended {P : Search → Prop}
    (hP : ∀ s, P s → (∃ status, s.pc = .returned status) ∨ s.pc = .fault)
    (s t : Search) (h : P s) : ¬ (search content).StepWhile NoFailure s t := by
  rintro ⟨_, rfl, hn⟩
  rcases hP s h with ⟨status, hpc⟩ | hpc <;> simp [main, hpc] at hn

def FirstContiguous (content : List Byte) : Prop :=
  ∃ i, i + 5 ≤ sizeBufRead ∧ OccursAt stringTarget content i ∧
    ¬ stringTarget <+ content.take (i + 4)

theorem endsAt_of_occursAt {i : ℕ} (h : OccursAt stringTarget content i)
    (hf : ¬ stringTarget <+ content.take (i + 4)) : EndsAt stringTarget content (i + 5) where
  bound := h.length_bound (by decide)
  found := h.sublist_take
  first m hm hs := hf (hs.trans (take_sublist (by omega)))

theorem letter_of_occursAt {i : ℕ} (h : OccursAt stringTarget content i) : content[i]? = some 82 :=
  h.getElem? (j := 0) (by decide)

theorem set_ne_set {i j : ℕ} (hi : content[i]? = some 82) (hne : i ≠ j) :
    content.set j 77 ≠ content.set i 77 := by
  intro he
  have hget := congrArg (fun l => l[i]?) he
  obtain ⟨hlt, -⟩ := List.getElem?_eq_some_iff.mp hi
  simp only [List.getElem?_set_ne hne.symm, hi, List.getElem?_set_self hlt] at hget
  revert hget
  decide

theorem replaces_of_found {n : ℕ} (hpc : s.pc = .returned .success) (h : Found content s n)
    (hr : s.reports = [foundText]) (hc : FirstContiguous content) : Replaces content s := by
  obtain ⟨i, -, hi, hf⟩ := hc
  have hn : n = i + 5 := h.endsAt.unique (endsAt_of_occursAt hi hf)
  have hfirst : ∀ j < i, ¬ OccursAt stringTarget content j := by
    intro j hj ho
    have hle := OccursAt.endsAt_le h.endsAt ho
    change n ≤ j + 5 at hle
    omega
  refine ⟨hpc, ?_, ?_⟩
  · intro j hj hjfirst
    have hji : j = i := by
      apply le_antisymm
      · by_contra hlt
        exact hjfirst i (by omega) hi
      · by_contra hlt
        exact hfirst j (by omega) hj
    rw [h.file, hn, hji, hr]
    exact ⟨rfl, rfl⟩
  · intro hnone
    exact absurd hi (hnone i)

theorem replaces_of_notFound (hpc : s.pc = .returned .success) (h : NotFound content s)
    (hr : s.reports = ["EOF reached", notFoundText]) : Replaces content s := by
  refine ⟨hpc, ?_, ?_⟩
  · intro i hi
    exact absurd hi.sublist h.missing
  · intro
    rw [hr]
    exact ⟨h.file, rfl⟩

theorem firstContiguous_of_replaces {n : ℕ} (h : Found content s n) (hr : s.reports = [foundText])
    (hs : Replaces content s) : FirstContiguous content := by
  have hsome : ∃ i, OccursAt stringTarget content i := by
    by_contra hnone
    push Not at hnone
    have hlast := (hs.missing hnone).2
    rw [hr] at hlast
    revert hlast
    decide
  classical
  have hfind := Nat.find_spec hsome
  have hmin : ∀ j < Nat.find hsome, ¬ OccursAt stringTarget content j :=
    fun j hj => Nat.find_min hsome hj
  generalize Nat.find hsome = i at hfind hmin
  have hfive : 5 ≤ n := h.endsAt.length_le
  have hin := h.inside
  have hfile := (hs.occurs i hfind hmin).1
  rw [h.file] at hfile
  have hi : i = n - 5 := by
    by_contra hne
    exact set_ne_set (letter_of_occursAt hfind) hne hfile
  refine ⟨i, by omega, hfind, ?_⟩
  apply h.endsAt.first
  omega

theorem replaces_condition
    (h : (search content).Inevitable NoFailure (Replaces content) (initial content)) :
    ¬ stringTarget <+ content ∧ content.length ≤ sizeBufRead ∨ FirstContiguous content := by
  obtain ⟨s, ho, hs⟩ := (outcome_inevitable content).meets
    (no_step_of_ended (fun s hs => hs.imp (fun h => ⟨_, h.1⟩) (fun h => h.1)))
    (no_step_of_ended (fun s hs => .inl ⟨_, hs.status⟩)) h
  rcases ho with ⟨-, ⟨n, hf, hr⟩ | ⟨hm, -⟩⟩ | ⟨hpc, -⟩
  · exact .inr (firstContiguous_of_replaces hf hr hs)
  · exact .inl ⟨hm.missing, hm.inside⟩
  · cases hpc.symm.trans hs.status

end Search

/-- The program does what it is for exactly where the letters of "Rohan" are not in the file in this
order at all and the buffer has room for the whole file, or where they are first complete in one
piece within the first 250 bytes. -/
theorem search_replaces_iff (content : List Byte) :
    (search content).Inevitable Search.NoFailure (Search.Replaces content)
        (Search.initial content) ↔
      ¬ stringTarget <+ content ∧ content.length ≤ sizeBufRead ∨
        ∃ i, i + 5 ≤ sizeBufRead ∧ OccursAt stringTarget content i ∧
          ¬ stringTarget <+ content.take (i + 4) := by
  constructor
  · exact Search.replaces_condition
  · intro hc
    apply (Search.outcome_inevitable content).mono
    rintro s (⟨hpc, ⟨n, hf, hr⟩ | ⟨hm, hr⟩⟩ | ⟨-, hlong, hno⟩)
    · refine Search.replaces_of_found hpc hf hr ?_
      rcases hc with ⟨hno, -⟩ | hc
      · exact absurd (hf.endsAt.found.trans (List.take_sublist _ _)) hno
      · exact hc
    · exact Search.replaces_of_notFound hpc hm hr
    · rcases hc with ⟨-, hle⟩ | ⟨i, hi, ho, -⟩
      · omega
      · exact absurd (ho.sublist_take.trans (take_sublist hi)) hno

def spacedName : List Byte := [82, 111, 32, 104, 97, 110]

theorem search_replaces_spaced :
    ¬ (search spacedName).Inevitable Search.NoFailure (Search.Replaces spacedName)
      (Search.initial spacedName) := by
  intro h
  rcases Search.replaces_condition h with ⟨hno, -⟩ | ⟨i, -, ho, -⟩
  · exact hno (by decide)
  · have hb : i + 5 ≤ 6 := ho.length_bound (by decide)
    have hcases : i = 0 ∨ i = 1 := by omega
    rcases hcases with rfl | rfl <;> revert ho <;> rw [OccursAt] <;> decide

end LinuxSystemProgramming.FileOperations
