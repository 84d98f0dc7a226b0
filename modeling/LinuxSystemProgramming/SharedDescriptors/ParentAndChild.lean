import LinuxSystemProgramming.FileOperations.WholeFile
import LinuxSystemProgramming.FileOperations.WriteHelpers
import LinuxSystemProgramming.Lib.Transition
import LinuxSystemProgramming.SharedDescriptors.OneFile

/-!
The program 7_9: the parent opens a file, writes to it and forks; the child writes through the
descriptor it has inherited while the parent closes its own and waits. A step is one system call;
what goes to the terminal has no step. The child may be killed at any time.
-/

namespace LinuxSystemProgramming.SharedDescriptors.ParentAndChild

open CMemory Descriptors FileOperations Transition

inductive Process
  | parent
  | child
  deriving DecidableEq

def parentText : Text := ⟨ascii "Parent is writing...\n", by decide +kernel⟩

def childText : Text := ⟨ascii "Child is writing...\n", by decide +kernel⟩

inductive ParentPc
  | openFile
  | write
  | fork
  | close
  | waitpid
  | exited (status : ℕ)
  deriving DecidableEq

inductive ChildPc
  | notForked
  | write
  | close
  | exited (status : ℕ)
  | killed (signal : ℕ)
  | reaped (status : ℕ)
  deriving DecidableEq

/-- `parentTook` and `childTook` record what the two writes have put into the file. -/
structure State where
  parent : ParentPc
  child : ChildPc
  fd : ℕ
  kernel : Kernel Process File
  parentTook : List Byte
  childTook : List Byte

inductive Action
  | parent (ok : Bool)
  | parentWrites (w : WriteCalls)
  | child
  | childWrites (w : WriteCalls)
  | childKilled (signal : ℕ)

namespace State

def initial (content : File → List Byte) : State where
  parent := .openFile
  child := .notForked
  fd := 0
  kernel := .start .parent .terminal content
  parentTook := []
  childTook := []

def call (s : State) (c : Call Process File) : State :=
  { s with kernel := s.kernel.attempt regular c }

/-- `write_to_a_file_safer`, which closes the descriptor when it fails. -/
def writeToAFileSafer (s : State) (p : Process) (w : WriteCalls) (txbuf : Text) :
    Status × List Byte × State :=
  let r := if s.kernel.lookup p s.fd = none then (.errWrite, [])
    else FileDescriptor.writeToAFileSafer w txbuf.bytes
  let s' := s.call (.write p s.fd r.2)
  (r.1, r.2, if r.1 = .success then s' else s'.call (.close p s.fd))

def exit (s : State) (p : Process) : State := s.call (.exit p)

def parentStep (s : State) (ok : Bool) : Option State :=
  match s.parent with
  | .openFile =>
    some (if ok then
      { s.call (.openFile .parent .disk true) with fd := s.kernel.free .parent, parent := .write }
    else { s.exit .parent with parent := .exited 254 })
  | .fork =>
    some (if ok then { s.call (.fork .parent .child) with parent := .close, child := .write }
      else { s.exit .parent with parent := .exited 255 })
  | .close => some { s.call (.close .parent s.fd) with parent := .waitpid }
  | .waitpid =>
    match s.child with
    | .exited status =>
      some { s.exit .parent with parent := .exited 0, child := .reaped (status * 256) }
    | .killed signal => some { s.exit .parent with parent := .exited 0, child := .reaped signal }
    | _ => none
  | .write | .exited _ => none

def parentWrites (s : State) (w : WriteCalls) : Option State :=
  if s.parent = .write then
    let r := s.writeToAFileSafer .parent w parentText
    some (if r.1 = .success then { r.2.2 with parent := .fork, parentTook := r.2.1 }
      else { r.2.2.exit .parent with parent := .exited 252, parentTook := r.2.1 })
  else none

def childStep (s : State) : Option State :=
  match s.child with
  | .close => some { (s.call (.close .child s.fd)).exit .child with child := .exited 0 }
  | _ => none

def childWrites (s : State) (w : WriteCalls) : Option State :=
  if s.child = .write then
    let r := s.writeToAFileSafer .child w childText
    some (if r.1 = .success then { r.2.2 with child := .close, childTook := r.2.1 }
      else { r.2.2.exit .child with child := .exited 252, childTook := r.2.1 })
  else none

def childKilled (s : State) (signal : ℕ) : Option State :=
  match s.child with
  | .write | .close => some { s.exit .child with child := .killed signal }
  | _ => none

def next (s : State) : Action → Option State
  | .parent ok => s.parentStep ok
  | .parentWrites w => s.parentWrites w
  | .child => s.childStep
  | .childWrites w => s.childWrites w
  | .childKilled signal => s.childKilled signal

end State

def system (content : File → List Byte) : System State Action where
  init s := s = State.initial content
  next := State.next

variable {content : File → List Byte} {s s' : State} {p : Process} {w : WriteCalls}

theorem taken_prefix (w : WriteCalls) (text : Text) :
    (FileDescriptor.writeToAFileSafer w text.bytes).2 <+: text.bytes := by
  unfold FileDescriptor.writeToAFileSafer
  split
  · exact List.nil_prefix
  · exact List.take_prefix _ _

theorem write_spec {old : List Byte} (text : Text) (h : Holds s.kernel [] old)
    (hl : s.kernel.lookup p s.fd = some 1) :
    ∃ status taken k, s.writeToAFileSafer p w text = (status, taken, { s with kernel := k }) ∧
      taken <+: text.bytes ∧ Holds k [] (old ++ taken) ∧
      (∀ q n, q ≠ p → k.lookup q n = s.kernel.lookup q n) ∧
      (status = .success → ∀ n, k.lookup p n = s.kernel.lookup p n) := by
  unfold State.writeToAFileSafer
  rw [if_neg (by rw [hl]; exact Option.some_ne_none 1)]
  generalize hr : FileDescriptor.writeToAFileSafer w text.bytes = r
  have hpre : r.2 <+: text.bytes := hr ▸ taken_prefix w text
  have hw := (h.write hl r.2).1
  dsimp only [State.call]
  by_cases hs : r.1 = .success
  · rw [if_pos hs]
    exact ⟨_, _, _, rfl, hpre, hw, fun _ _ _ => write_lookup _ _ _ _ _ _,
      fun _ _ => write_lookup _ _ _ _ _ _⟩
  · rw [if_neg hs]
    refine ⟨_, _, _, rfl, hpre, hw.close p s.fd, fun q n hq => ?_,
      fun hf => absurd hf hs⟩
    exact (close_lookup_other _ _ _ hq).trans (write_lookup _ _ _ _ _ _)

def Unopened (content : File → List Byte) (s : State) : Prop :=
  s.kernel.content .disk = content .disk ∧ s.child = .notForked

def Opened (s : State) : Prop := Holds s.kernel [] (s.parentTook ++ s.childTook)

def Forked : ChildPc → Prop
  | .notForked | .reaped _ => False
  | _ => True

def ParentInv (content : File → List Byte) (s : State) : Prop :=
  match s.parent with
  | .openFile =>
    s.kernel = .start .parent .terminal content ∧ Unopened content s ∧ s.parentTook = []
  | .write =>
    Opened s ∧ s.kernel.lookup .parent s.fd = some 1 ∧ s.parentTook = [] ∧ s.child = .notForked
  | .fork => Opened s ∧ s.kernel.lookup .parent s.fd = some 1 ∧ s.child = .notForked
  | .close => Opened s ∧ s.kernel.lookup .parent s.fd = some 1 ∧ Forked s.child
  | .waitpid => Opened s ∧ Forked s.child
  | .exited status => status = 254 ∧ Unopened content s ∨
    Opened s ∧ (status = 0 ∧ (∃ v, s.child = .reaped v) ∨
      (status = 252 ∨ status = 255) ∧ s.child = .notForked)

def ChildInv (s : State) : Prop :=
  match s.child with
  | .notForked => s.childTook = []
  | .write => s.kernel.lookup .child s.fd = some 1 ∧ s.childTook = []
  | .close => s.kernel.lookup .child s.fd = some 1
  | _ => True

structure Inv (content : File → List Byte) (s : State) : Prop where
  parent : ParentInv content s
  child : ChildInv s
  parentTook : s.parentTook <+: parentText.bytes
  childTook : s.childTook <+: childText.bytes

theorem parentInv_child {t : State} (h : ParentInv content s) (hf : Forked s.child)
    (hp : t.parent = s.parent) (ho : Opened t) (hfd : t.fd = s.fd)
    (hl : ∀ n, t.kernel.lookup .parent n = s.kernel.lookup .parent n) (hf' : Forked t.child) :
    ParentInv content t := by
  unfold ParentInv at h ⊢
  rw [hp]
  cases hpc : s.parent <;> simp only [hpc] at h ⊢
  case openFile => rw [h.2.1.2] at hf; exact hf.elim
  case write => rw [h.2.2.2] at hf; exact hf.elim
  case fork => rw [h.2.2] at hf; exact hf.elim
  case close => exact ⟨ho, by rw [hl, hfd]; exact h.2.1, hf'⟩
  case waitpid => exact ⟨ho, hf'⟩
  case exited =>
    rcases h with ⟨_, hu⟩ | ⟨_, ⟨_, v, hv⟩ | ⟨_, hn⟩⟩
    · rw [hu.2] at hf
      exact hf.elim
    · rw [hv] at hf
      exact hf.elim
    · rw [hn] at hf
      exact hf.elim

theorem forked_opened (h : ParentInv content s) (hf : Forked s.child) : Opened s := by
  unfold ParentInv at h
  split at h
  next => rw [h.2.1.2] at hf; exact hf.elim
  next => exact h.1
  next => exact h.1
  next => exact h.1
  next => exact h.1
  next =>
    rcases h with ⟨_, hu⟩ | ⟨ho, _⟩
    · rw [hu.2] at hf
      exact hf.elim
    · exact ho

theorem inv_child (h : Inv content s) (hs : s.childStep = some s') : Inv content s' := by
  unfold State.childStep at hs
  split at hs
  next hc =>
    cases hs
    have hf : Forked s.child := by rw [hc]; trivial
    refine ⟨?_, trivial, h.parentTook, h.childTook⟩
    refine parentInv_child h.parent hf rfl ?_ rfl (fun n => ?_) trivial
    · exact ((forked_opened h.parent hf).close .child s.fd).exit .child
    · refine (exit_lookup_other _ n (by decide)).trans ?_
      exact close_lookup_other _ _ n (by decide)
  next => cases hs

theorem inv_childKilled {signal : ℕ} (h : Inv content s) (hs : s.childKilled signal = some s') :
    Inv content s' := by
  have hgo (hf : Forked s.child) :
      Inv content { s.exit .child with child := .killed signal } := by
    refine ⟨?_, trivial, h.parentTook, h.childTook⟩
    have hk := (forked_opened h.parent hf).exit .child
    exact parentInv_child h.parent hf rfl hk rfl (fun n => exit_lookup_other _ n (by decide)) trivial
  unfold State.childKilled at hs
  split at hs
  next hc => cases hs; exact hgo (by rw [hc]; trivial)
  next hc => cases hs; exact hgo (by rw [hc]; trivial)
  next => cases hs

theorem inv_childWrites (h : Inv content s) (hs : s.childWrites w = some s') : Inv content s' := by
  obtain ⟨hc, hs⟩ := Option.ite_none_right_eq_some.mp hs
  have hf : Forked s.child := by rw [hc]; trivial
  have hchild := h.child
  simp only [ChildInv, hc] at hchild
  obtain ⟨status, taken, k, hw, hpre, hk, hother, hown⟩ :=
    write_spec (w := w) childText (forked_opened h.parent hf) hchild.1
  rw [hchild.2, List.append_nil] at hk
  simp only [hw] at hs
  split at hs
  next hst =>
    cases hs
    refine ⟨?_, (hown hst s.fd).trans hchild.1, h.parentTook, hpre⟩
    exact parentInv_child h.parent hf rfl hk rfl (fun n => hother .parent n (by decide)) trivial
  next hst =>
    cases hs
    refine ⟨?_, trivial, h.parentTook, hpre⟩
    refine parentInv_child h.parent hf rfl (hk.exit .child) rfl
      (fun n => ?_) trivial
    exact (exit_lookup_other _ n (by decide)).trans (hother .parent n (by decide))

theorem childInv_parent {t : State} (h : ChildInv s) (hc : t.child = s.child)
    (ht : t.childTook = s.childTook) (hfd : t.fd = s.fd)
    (hl : ∀ n, t.kernel.lookup .child n = s.kernel.lookup .child n) : ChildInv t := by
  unfold ChildInv at h ⊢
  rw [hc]
  split at h
  next => exact ht.trans h
  next => exact ⟨by rw [hl, hfd]; exact h.1, ht.trans h.2⟩
  next => rw [hl, hfd]; exact h
  next => trivial

theorem inv_opens (h : Inv content s) (hp : s.parent = .openFile) :
    Inv content { s.call (.openFile .parent .disk true) with
      fd := s.kernel.free .parent, parent := .write } := by
  have hparent := h.parent
  have hchild := h.child
  simp only [ParentInv, hp] at hparent
  obtain ⟨hk, ⟨_, hc⟩, ht⟩ := hparent
  simp only [ChildInv, hc] at hchild
  refine ⟨⟨?_, ?_, ht, hc⟩, ?_, h.parentTook, h.childTook⟩
  · have hopen : Holds (s.call (.openFile .parent .disk true)).kernel [] [] := by
      rw [State.call, hk]
      exact Holds.opened true
    simpa [Opened, State.call, ht, hchild] using hopen
  · rw [State.call, hk]
    rfl
  · simp [ChildInv, State.call, hc, hchild]

theorem inv_parentStep {ok : Bool} (h : Inv content s) (hs : s.parentStep ok = some s') :
    Inv content s' := by
  have hparent := h.parent
  unfold ParentInv at hparent
  have hexit (c : ChildPc) (hc : c = s.child) (status : ℕ)
      (hp : ParentInv content { s.exit .parent with parent := .exited status, child := c }) :
      Inv content { s.exit .parent with parent := .exited status, child := c } := by
    refine ⟨hp, ?_, h.parentTook, h.childTook⟩
    exact childInv_parent h.child hc rfl rfl (fun n => exit_lookup_other _ n (by decide))
  unfold State.parentStep at hs
  split at hs
  next hp =>
    cases ok with
    | true =>
      cases hs
      exact inv_opens h hp
    | false =>
      cases hs
      simp only [hp] at hparent
      exact hexit s.child rfl 254 (.inl ⟨rfl, hparent.2.1⟩)
  next hp =>
    simp only [hp] at hparent
    obtain ⟨ho, hl, hc⟩ := hparent
    cases ok with
    | true =>
      cases hs
      have htook := h.child
      simp only [ChildInv, hc] at htook
      have hlookup : ∀ q, (s.call (.fork .parent .child)).kernel.lookup q s.fd = some 1 := by
        rintro (_ | _) <;>
          simpa [State.call, Kernel.attempt, Kernel.next, Kernel.lookup] using hl
      exact ⟨⟨ho.fork .parent .child, hlookup .parent, trivial⟩,
        ⟨hlookup .child, htook⟩, h.parentTook, h.childTook⟩
    | false =>
      cases hs
      exact hexit s.child rfl 255
        (.inr ⟨ho.exit .parent, .inr ⟨.inr rfl, hc⟩⟩)
  next hp =>
    cases hs
    simp only [hp] at hparent
    obtain ⟨ho, _, hf⟩ := hparent
    refine ⟨⟨ho.close .parent s.fd, hf⟩, ?_, h.parentTook, h.childTook⟩
    exact childInv_parent h.child rfl rfl rfl (fun n => close_lookup_other _ _ n (by decide))
  next hp =>
    simp only [hp] at hparent
    have ho : Opened (s.exit .parent) := hparent.1.exit .parent
    split at hs
    next hc => cases hs; exact ⟨.inr ⟨ho, .inl ⟨rfl, _, rfl⟩⟩, trivial, h.parentTook, h.childTook⟩
    next hc => cases hs; exact ⟨.inr ⟨ho, .inl ⟨rfl, _, rfl⟩⟩, trivial, h.parentTook, h.childTook⟩
    next => cases hs
  next => cases hs
  next => cases hs

theorem inv_parentWrites (h : Inv content s) (hs : s.parentWrites w = some s') : Inv content s' := by
  obtain ⟨hp, hs⟩ := Option.ite_none_right_eq_some.mp hs
  have hparent := h.parent
  have hchild := h.child
  simp only [ParentInv, hp] at hparent
  obtain ⟨ho, hl, htook, hc⟩ := hparent
  simp only [ChildInv, hc] at hchild
  obtain ⟨status, taken, k, hw, hpre, hk, _, hown⟩ := write_spec (w := w) parentText ho hl
  have hk' : Holds k [] (taken ++ s.childTook) := by
    simpa [htook, hchild] using hk
  simp only [hw] at hs
  split at hs
  next hst =>
    cases hs
    refine ⟨⟨hk', (hown hst s.fd).trans hl, hc⟩, ?_, hpre, h.childTook⟩
    simp [ChildInv, hc, hchild]
  next hst =>
    cases hs
    refine ⟨.inr ⟨hk'.exit .parent, .inr ⟨.inl rfl, hc⟩⟩, ?_, hpre,
      h.childTook⟩
    simp [ChildInv, State.exit, State.call, hc, hchild]

theorem inv_reachable (h : (system content).Reachable s) : Inv content s := by
  apply System.Reachable.induct (I := Inv content) ?_ ?_ h
  · rintro s rfl
    exact ⟨⟨rfl, ⟨rfl, rfl⟩, rfl⟩, rfl, List.nil_prefix, List.nil_prefix⟩
  · intro s a s' _ ih hs
    cases a with
    | parent ok => exact inv_parentStep ih hs
    | parentWrites w => exact inv_parentWrites ih hs
    | child => exact inv_child ih hs
    | childWrites w => exact inv_childWrites ih hs
    | childKilled signal => exact inv_childKilled ih hs

theorem opened_content (ho : Opened s) :
    s.kernel.content .disk = s.parentTook ++ s.childTook := by
  rw [Holds.content ho]
  exact Files.writeAt_whole (Nat.zero_le _)

theorem disk_content (h : Inv content s) : s.kernel.content .disk =
    (if s.parent = .openFile ∨ s.parent = .exited 254 then content .disk
      else s.parentTook ++ s.childTook) := by
  have hparent := h.parent
  unfold ParentInv at hparent
  cases hp : s.parent <;> simp only [hp] at hparent
  case openFile => simpa using hparent.2.1.1
  case exited status =>
    rcases hparent with ⟨rfl, hu⟩ | ⟨ho, hx⟩
    · simpa using hu.1
    · have hne : status ≠ 254 := by
        rcases hx with ⟨rfl, _⟩ | ⟨rfl | rfl, _⟩ <;> decide
      simpa [hne] using opened_content ho
  all_goals simpa using opened_content hparent.1

theorem reaped_of_success (h : Inv content s) (hp : s.parent = .exited 0) :
    ∃ v, s.child = .reaped v := by
  have hparent := h.parent
  simp only [ParentInv, hp] at hparent
  rcases hparent with ⟨h0, _⟩ | ⟨_, ⟨_, hv⟩ | ⟨h0, _⟩⟩
  · cases h0
  · exact hv
  · rcases h0 with h0 | h0 <;> cases h0

/-- 7_9 with calls that fail, short writes and a child that is killed at any time: the child can
write as long as it runs, whatever the parent has closed; its text comes after the parent's and
over nothing; and the parent exits with success only after it has taken the child back. -/
theorem inherits (h : (system content).Reachable s) :
    (s.child = .write ∨ s.child = .close → ∃ d, s.kernel.lookup .child s.fd = some d) ∧
      s.kernel.content .disk =
        (if s.parent = .openFile ∨ s.parent = .exited 254 then content .disk
          else s.parentTook ++ s.childTook) ∧
      s.parentTook <+: parentText.bytes ∧ s.childTook <+: childText.bytes ∧
      (s.parent = .exited 0 → ∃ v, s.child = .reaped v) := by
  have hinv := inv_reachable h
  have hchild := hinv.child
  unfold ChildInv at hchild
  refine ⟨?_, disk_content hinv, hinv.parentTook, hinv.childTook, reaped_of_success hinv⟩
  rintro (hc | hc) <;> simp only [hc] at hchild
  · exact ⟨_, hchild.1⟩
  · exact ⟨_, hchild⟩

def wholeWrites : WriteCalls where
  result _ asked := some asked
  le := by
    rintro _ asked _ ⟨⟩
    exact le_refl _
  pos := by
    rintro _ asked _ ⟨⟩ h
    exact h

def Works (_ : State) : Action → Prop
  | .parent ok => ok = true
  | .parentWrites w | .childWrites w => w = wholeWrites
  | .child => True
  | .childKilled _ => False

def ParentPc.rank : ParentPc → ℕ
  | .openFile => 10
  | .write => 9
  | .fork => 8
  | .close => 3
  | .waitpid => 2
  | .exited _ => 0

def ChildPc.rank : ChildPc → ℕ
  | .notForked => 0
  | .write => 3
  | .close => 2
  | .exited _ | .killed _ => 1
  | .reaped _ => 0

def Clean (s : State) : Prop :=
  (match s.parent with
    | .openFile | .write => True
    | .exited status => status = 0 ∧ s.parentTook = parentText.bytes
    | _ => s.parentTook = parentText.bytes) ∧
  match s.child with
    | .notForked | .write => True
    | .close => s.childTook = childText.bytes
    | .exited status | .reaped status => status = 0 ∧ s.childTook = childText.bytes
    | .killed _ => False

theorem whole_spec (text : Text) (hl : s.kernel.lookup p s.fd = some 1) :
    ∃ k, s.writeToAFileSafer p wholeWrites text =
      (.success, text.bytes, { s with kernel := k }) := by
  refine ⟨s.kernel.attempt regular (.write p s.fd text.bytes), ?_⟩
  simp [State.writeToAFileSafer, hl, FileDescriptor.writeToAFileSafer, wholeWrites, text.strlen,
    State.call]

def rank (s : State) : ℕ := s.parent.rank + s.child.rank

theorem works_parent (h : Clean s) (hs : s.parentStep true = some s') :
    Clean s' ∧ rank s' < rank s := by
  obtain ⟨hp', hc'⟩ := h
  unfold State.parentStep at hs
  split at hs
  next hp =>
    cases hs
    exact ⟨⟨trivial, hc'⟩, by simp [rank, hp, ParentPc.rank, State.call]⟩
  next hp =>
    cases hs
    simp only [hp] at hp'
    exact ⟨⟨hp', trivial⟩, by simp [rank, hp, ParentPc.rank, ChildPc.rank]; omega⟩
  next hp =>
    cases hs
    simp only [hp] at hp'
    exact ⟨⟨hp', hc'⟩, by simp [rank, hp, ParentPc.rank, State.call]⟩
  next hp =>
    simp only [hp] at hp'
    split at hs
    next status hc =>
      cases hs
      simp only [hc] at hc'
      obtain ⟨rfl, htook⟩ := hc'
      exact ⟨⟨⟨rfl, hp'⟩, rfl, htook⟩, by simp [rank, hp, hc, ParentPc.rank, ChildPc.rank]⟩
    next hc =>
      simp only [hc] at hc'
    next => cases hs
  next => cases hs
  next => cases hs

theorem works_step {a : Action} (hinv : Inv content s) (h : Clean s) (ha : Works s a)
    (hs : s.next a = some s') : Clean s' ∧ rank s' < rank s := by
  cases a with
  | parent ok =>
    obtain rfl : ok = true := ha
    exact works_parent h hs
  | parentWrites w =>
    obtain rfl : w = wholeWrites := ha
    obtain ⟨hp, hs⟩ := Option.ite_none_right_eq_some.mp hs
    have hparent := hinv.parent
    simp only [ParentInv, hp] at hparent
    obtain ⟨k, hw⟩ := whole_spec parentText hparent.2.1
    simp only [hw, if_true] at hs
    cases hs
    exact ⟨⟨rfl, h.2⟩, by simp [rank, hp, ParentPc.rank]⟩
  | child =>
    simp only [State.next, State.childStep] at hs
    split at hs
    next hc =>
      cases hs
      obtain ⟨hp', hc'⟩ := h
      simp only [hc] at hc'
      refine ⟨⟨hp', rfl, hc'⟩, ?_⟩
      simp [rank, hc, ChildPc.rank, State.exit, State.call]
    next => cases hs
  | childWrites w =>
    obtain rfl : w = wholeWrites := ha
    obtain ⟨hc, hs⟩ := Option.ite_none_right_eq_some.mp hs
    have hchild := hinv.child
    simp only [ChildInv, hc] at hchild
    obtain ⟨k, hw⟩ := whole_spec childText hchild.1
    simp only [hw, if_true] at hs
    cases hs
    exact ⟨⟨h.1, rfl⟩, by simp [rank, hc, ChildPc.rank]⟩
  | childKilled signal => exact ha.elim

theorem works_on (hinv : Inv content s)
    (hn : ¬ ∃ status, s.parent = .exited status) : ∃ t, (system content).StepWhile Works s t := by
  have hparent := hinv.parent
  unfold ParentInv at hparent
  have hstep (a : Action) (ha : Works s a) (hs : (s.next a).isSome = true) :
      ∃ t, (system content).StepWhile Works s t := by
    obtain ⟨t, ht⟩ := Option.isSome_iff_exists.mp hs
    exact ⟨t, a, ha, ht⟩
  cases hp : s.parent <;> simp only [hp] at hparent
  case openFile => exact hstep (.parent true) rfl (by simp [State.next, State.parentStep, hp])
  case write =>
    exact hstep (.parentWrites wholeWrites) rfl (by simp [State.next, State.parentWrites, hp])
  case fork => exact hstep (.parent true) rfl (by simp [State.next, State.parentStep, hp])
  case close => exact hstep (.parent true) rfl (by simp [State.next, State.parentStep, hp])
  case exited status => exact absurd ⟨status, hp⟩ hn
  case waitpid =>
    cases hc : s.child <;> rw [hc] at hparent
    case notForked => exact hparent.2.elim
    case reaped => exact hparent.2.elim
    case write =>
      exact hstep (.childWrites wholeWrites) rfl (by simp [State.next, State.childWrites, hc])
    case close => exact hstep .child trivial (by simp [State.next, State.childStep, hc])
    case exited => exact hstep (.parent true) rfl (by simp [State.next, State.parentStep, hp, hc])
    case killed => exact hstep (.parent true) rfl (by simp [State.next, State.parentStep, hp, hc])

/-- Where nothing fails 7_9 always ends with the two texts in the file, the parent's first, and the
child taken back with status 0, whenever the parent closes its descriptor. -/
theorem writes_both (h : (system content).ReachableWhile Works s) :
    (system content).Inevitable Works (fun t => t.parent = .exited 0 ∧ t.child = .reaped 0 ∧
      t.kernel.content .disk = parentText.bytes ++ childText.bytes) s := by
  have hclean : Clean s := by
    apply System.ReachableWhile.induct (I := Clean) ?_ ?_ h
    · rintro s rfl
      exact ⟨trivial, trivial⟩
    · intro s a s' hr ih ha hs
      exact (works_step (inv_reachable hr.reachable) ih ha hs).1
  have hends : (system content).Inevitable Works (fun t =>
      ((system content).Reachable t ∧ Clean t) ∧ ∃ status, t.parent = .exited status) s := by
    apply System.Inevitable.of_measure (I := fun t => (system content).Reachable t ∧ Clean t) rank
      ?_ ?_ ⟨h.reachable, hclean⟩
    · rintro s ⟨hr, hc⟩ hn
      exact works_on (inv_reachable hr) (fun hx => hn ⟨⟨hr, hc⟩, hx⟩)
    · rintro s t ⟨hr, hc⟩ _ ⟨a, ha, hs⟩
      obtain ⟨hc', hlt⟩ := works_step (inv_reachable hr) hc ha hs
      exact ⟨⟨hr.step a hs, hc'⟩, hlt⟩
  apply hends.mono
  rintro t ⟨⟨hr, hp', hc'⟩, status, hp⟩
  simp only [hp] at hp'
  obtain ⟨rfl, hparent⟩ := hp'
  have hcontent := disk_content (inv_reachable hr)
  obtain ⟨v, hv⟩ := reaped_of_success (inv_reachable hr) hp
  simp only [hv] at hc'
  obtain ⟨rfl, hchild⟩ := hc'
  refine ⟨hp, hv, ?_⟩
  simpa [hp, hparent, hchild] using hcontent

def sample : List Action :=
  [.parent true, .parentWrites wholeWrites, .parent true, .parent true, .childWrites wholeWrites]

theorem sample_runs : (((system (fun _ => [])).run (State.initial (fun _ => [])) sample).map
    (fun s => (s.parent, s.child, s.parentTook))) =
      some (.waitpid, .close, parentText.bytes) := by
  decide

theorem inherits_sample : ∃ s,
    (system (fun _ => [])).run (State.initial (fun _ => [])) sample = some s ∧
      ∃ d, s.kernel.lookup .child s.fd = some d := by
  obtain ⟨s, hs, hx⟩ := Option.map_eq_some_iff.mp sample_runs
  simp only [Prod.mk.injEq] at hx
  exact ⟨s, hs, (inherits (.run sample (.init rfl) hs)).1 (.inr hx.2.1)⟩

theorem writes_both_start : (system (fun _ => [])).Inevitable Works (fun t => t.parent = .exited 0 ∧
    t.child = .reaped 0 ∧ t.kernel.content .disk = parentText.bytes ++ childText.bytes)
      (State.initial (fun _ => [])) :=
  writes_both (.init rfl)

end LinuxSystemProgramming.SharedDescriptors.ParentAndChild
