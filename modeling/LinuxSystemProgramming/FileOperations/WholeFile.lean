import LinuxSystemProgramming.FileOperations.Search

/-!
The program 2_2, which reads `input.txt` into `buf_storage`, up to ten bytes at a time, and prints
what it has read. A step is one system call with the code up to the next one; `read n` is a call that
gives `n` bytes, none only at the end of the file.
-/

namespace LinuxSystemProgramming.FileOperations

open CMemory Files Transition

def sizeBufStorage : ℕ := 30

def sizeBufLog : ℕ := 100

def bytesToReadAtOnce : ℕ := 10

inductive WholeFilePc
  | openFile
  | read
  | report
  | close (status : ExitType)
  | returned (status : ExitType)
  | fault
  deriving DecidableEq

structure WholeFile where
  pc : WholeFilePc
  file : List Byte
  fd : ℕ
  offset : ℕ
  bufStorage : List Byte
  totalBytesRead : ℕ
  reports : List String
  output : List Byte
  deriving DecidableEq

inductive WholeFileAction
  | openFile (fd : ℕ)
  | read (n : ℕ)
  | run
  | fails
  deriving DecidableEq

def ascii (s : String) : List Byte := s.toList.map (fun c => UInt8.ofNat c.toNat)

def decimal (n : ℕ) : List Byte := (Nat.toDigits 10 n).map (fun c => UInt8.ofNat c.toNat)

/-- "Read %d bytes from fd %d:\n<%s>\n\n" -/
def logText (total fd : ℕ) (stored : List Byte) : List Byte :=
  ascii "Read " ++ decimal total ++ ascii " bytes from fd " ++ decimal fd ++ ascii ":\n<" ++ stored ++
    ascii ">\n\n"

namespace WholeFile

def initial (content : List Byte) : WholeFile where
  pc := .openFile
  file := content
  fd := 0
  offset := 0
  bufStorage := List.replicate sizeBufStorage 0
  totalBytesRead := 0
  reports := []
  output := []

def goto (s : WholeFile) (pc : WholeFilePc) : WholeFile := { s with pc := pc }

def logError (s : WholeFile) (msgPrefix : String) : WholeFile :=
  { s with reports := s.reports ++ [msgPrefix] }

def readAllowed (s : WholeFile) (n : ℕ) : Prop :=
  n ≤ bytesToReadAtOnce ∧ s.offset + n ≤ s.file.length ∧ (n = 0 → s.offset = s.file.length)

instance (s : WholeFile) (n : ℕ) : Decidable (s.readAllowed n) :=
  inferInstanceAs (Decidable (n ≤ bytesToReadAtOnce ∧ s.offset + n ≤ s.file.length ∧
    (n = 0 → s.offset = s.file.length)))

-- `total_bytes_read` is an `uint8_t`.
def read (s : WholeFile) (n : ℕ) : WholeFile :=
  if n = 0 then (s.logError "EOF reached").goto .report
  else
    match store s.bufStorage s.totalBytesRead (readAt s.file s.offset n) with
    | none => s.goto .fault
    | some buf =>
      { s with
        bufStorage := buf, offset := s.offset + n, totalBytesRead := (s.totalBytesRead + n) % 256 }

/-- `%.*s` prints up to `total_bytes_read` bytes, and none from the first NUL on. -/
def report (s : WholeFile) : WholeFile :=
  let stored := cString (s.bufStorage.take s.totalBytesRead)
  let formatted := snprintf sizeBufLog (logText s.totalBytesRead s.fd stored)
  let output :=
    match formatted.1 with
    | none => []
    | some msglen =>
      if 0 < msglen then
        formatted.2.take (if msglen > sizeBufLog then sizeBufLog - 1 else msglen)
      else []
  { s with output := s.output ++ output, pc := .close .success }

def main (s : WholeFile) (a : WholeFileAction) : Option WholeFile :=
  match s.pc, a with
  | .openFile, .openFile fd => if fd ≤ intMax then some { s with fd := fd, pc := .read } else none
  | .openFile, .fails =>
    some ((s.logError "Error opening the file").goto (.returned .errFileOpen))
  | .read, .read n => if s.readAllowed n then some (s.read n) else none
  | .read, .fails => some ((s.logError "Error reading the file").goto (.close .errFileRead))
  | .report, .run => some s.report
  | .close status, .run => some (s.goto (.returned status))
  | .close status, .fails => some ((s.logError "Error closing file").goto (.returned status))
  | _, _ => none

end WholeFile

def wholeFile (content : List Byte) : System WholeFile WholeFileAction where
  init s := s = WholeFile.initial content
  next := WholeFile.main

@[simp] theorem wholeFile_next (content : List Byte) (s : WholeFile) (a : WholeFileAction) :
    (wholeFile content).next s a = s.main a := rfl

namespace WholeFile

variable {content : List Byte} {s t : WholeFile} {n : ℕ}

structure AtHead (content : List Byte) (s : WholeFile) : Prop where
  file : s.file = content
  buf : s.bufStorage.length = sizeBufStorage
  fd : s.fd ≤ intMax
  counted : s.totalBytesRead = s.offset
  inside : s.totalBytesRead ≤ sizeBufStorage
  bound : s.totalBytesRead ≤ content.length
  stored : s.bufStorage.take s.totalBytesRead = content.take s.totalBytesRead
  output : s.output = []

def Reported (content : List Byte) (s : WholeFile) : Prop :=
  content.length ≤ sizeBufStorage ∧ s.output = logText content.length s.fd (cString content)

def Correct (content : List Byte) (s : WholeFile) : Prop :=
  match s.pc with
  | .openFile => s = initial content
  | .read => AtHead content s
  | .report => AtHead content s ∧ s.totalBytesRead = content.length
  | .close status | .returned status => status = .success → Reported content s
  | .fault => sizeBufStorage < content.length

theorem opened_atHead {fd : ℕ} (h : fd ≤ intMax) :
    AtHead content { initial content with fd := fd, pc := .read } where
  file := rfl
  buf := List.length_replicate
  fd := h
  counted := rfl
  inside := Nat.zero_le _
  bound := Nat.zero_le _
  stored := rfl
  output := rfl

theorem readAt_length {offset : ℕ} (h : offset + n ≤ content.length) :
    (readAt content offset n).length = n := by
  simp only [readAt, List.length_take, List.length_drop]
  omega

theorem read_stored (h : AtHead content s) (hn : s.totalBytesRead + n ≤ content.length)
    (hin : s.totalBytesRead + n ≤ sizeBufStorage) (hpos : n ≠ 0) :
    (s.read n).pc = s.pc ∧ (s.read n).totalBytesRead = s.totalBytesRead + n ∧
      AtHead content (s.read n) := by
  have hlen : (readAt content s.totalBytesRead n).length = n := readAt_length hn
  obtain ⟨buf, hs, hbuf, htake⟩ : ∃ buf, store s.bufStorage s.totalBytesRead
      (readAt content s.totalBytesRead n) = some buf ∧ _ := by
    apply store_ok
    rw [hlen, h.buf]
    exact hin
  have hmod : (s.totalBytesRead + n) % 256 = s.totalBytesRead + n := by
    rw [sizeBufStorage] at hin
    omega
  have hread : s.read n =
      { s with bufStorage := buf, offset := s.offset + n, totalBytesRead := s.totalBytesRead + n } := by
    rw [read, if_neg hpos, h.file, ← h.counted, hs]
    simp only [hmod]
  rw [hread]
  refine ⟨rfl, rfl, h.file, hbuf.trans h.buf, h.fd, ?_, hin, hn, ?_, h.output⟩
  · exact congrArg (· + n) h.counted
  · change buf.take (s.totalBytesRead + n) = content.take (s.totalBytesRead + n)
    rw [hlen] at htake
    rw [htake, h.stored, List.take_add]
    rfl

theorem read_fault (h : AtHead content s) (hn : s.totalBytesRead + n ≤ content.length)
    (hout : sizeBufStorage < s.totalBytesRead + n) (hpos : n ≠ 0) : s.read n = s.goto .fault := by
  have hs : store s.bufStorage s.totalBytesRead (readAt s.file s.offset n) = none := by
    rw [h.file, ← h.counted]
    apply if_neg
    rw [readAt_length hn, h.buf]
    omega
  rw [read, if_neg hpos, hs]

theorem read_correct (hpc : s.pc = .read) (h : AtHead content s) (ha : s.readAllowed n) :
    (s.read n).Correct content := by
  obtain ⟨-, hle, hend⟩ := ha
  rw [h.file, ← h.counted] at hle hend
  by_cases hzero : n = 0
  · rw [read, if_pos hzero]
    exact ⟨⟨h.file, h.buf, h.fd, h.counted, h.inside, h.bound, h.stored, h.output⟩, hend hzero⟩
  · by_cases hin : s.totalBytesRead + n ≤ sizeBufStorage
    · obtain ⟨hpc', -, hat⟩ := read_stored h hle hin hzero
      rw [Correct, hpc', hpc]
      exact hat
    · rw [read_fault h hle (by omega) hzero]
      change sizeBufStorage < content.length
      omega

theorem decimal_length_le {k : ℕ} (hk : 0 < k) (h : n < 10 ^ k) : (decimal n).length ≤ k := by
  rw [decimal, List.length_map]
  exact (Nat.length_toDigits_le_iff (by decide) hk).mpr h

theorem logText_length {fd : ℕ} {stored : List Byte} (hn : n ≤ sizeBufStorage) (hfd : fd ≤ intMax)
    (hs : stored.length ≤ sizeBufStorage) :
    0 < (logText n fd stored).length ∧ (logText n fd stored).length < sizeBufLog := by
  have hcount : (decimal n).length ≤ 2 := by
    apply decimal_length_le (by decide)
    rw [sizeBufStorage] at hn
    omega
  have hnumber : (decimal fd).length ≤ 10 := by
    apply decimal_length_le (by decide)
    rw [intMax] at hfd
    omega
  have h₁ : (ascii "Read ").length = 5 := by decide
  have h₂ : (ascii " bytes from fd ").length = 15 := by decide
  have h₃ : (ascii ":\n<").length = 3 := by decide
  have h₄ : (ascii ">\n\n").length = 3 := by decide
  simp only [logText, List.length_append, h₁, h₂, h₃, h₄, sizeBufLog]
  rw [sizeBufStorage] at hs
  omega

theorem report_correct (h : AtHead content s) (he : s.totalBytesRead = content.length) :
    s.report.pc = .close .success ∧ s.report.fd = s.fd ∧
      s.report.output = logText content.length s.fd (cString content) := by
  have hin := h.inside
  have hstored := h.stored
  rw [he] at hin
  rw [he, List.take_length] at hstored
  obtain ⟨hpos, hlt⟩ := logText_length hin h.fd ((cString_length_le content).trans hin)
  have hint : ¬ intMax < (logText content.length s.fd (cString content)).length := by
    rw [sizeBufLog] at hlt
    rw [intMax]
    omega
  have hmsg : ¬ (logText content.length s.fd (cString content)).length > sizeBufLog := by omega
  have hwhole : (logText content.length s.fd (cString content)).take (sizeBufLog - 1) =
      logText content.length s.fd (cString content) := List.take_of_length_le (by omega)
  refine ⟨rfl, rfl, ?_⟩
  simp only [report, he, hstored, snprintf, if_neg hint, hpos, if_true, h.output, List.nil_append,
    if_neg hmsg, hwhole]
  exact List.take_left

attribute [local simp] main

inductive MainStep (s : WholeFile) : WholeFileAction → WholeFile → Prop
  | opens {fd : ℕ} (hpc : s.pc = .openFile) (hfd : fd ≤ intMax) :
      MainStep s (.openFile fd) { s with fd := fd, pc := .read }
  | openFails (hpc : s.pc = .openFile) :
      MainStep s .fails ((s.logError "Error opening the file").goto (.returned .errFileOpen))
  | reads {n : ℕ} (hpc : s.pc = .read) (h : s.readAllowed n) : MainStep s (.read n) (s.read n)
  | readFails (hpc : s.pc = .read) :
      MainStep s .fails ((s.logError "Error reading the file").goto (.close .errFileRead))
  | reports (hpc : s.pc = .report) : MainStep s .run s.report
  | closes {status : ExitType} (hpc : s.pc = .close status) :
      MainStep s .run (s.goto (.returned status))
  | closeFails {status : ExitType} (hpc : s.pc = .close status) :
      MainStep s .fails ((s.logError "Error closing file").goto (.returned status))

theorem main_step {a : WholeFileAction} (hn : s.main a = some t) : MainStep s a t := by
  unfold main at hn
  split at hn
  next hpc =>
    obtain ⟨hfd, hn⟩ := Option.ite_none_right_eq_some.mp hn
    cases hn
    exact .opens hpc hfd
  next hpc => cases hn; exact .openFails hpc
  next hpc =>
    obtain ⟨h, hn⟩ := Option.ite_none_right_eq_some.mp hn
    cases hn
    exact .reads hpc h
  next hpc => cases hn; exact .readFails hpc
  next hpc => cases hn; exact .reports hpc
  next hpc => cases hn; exact .closes hpc
  next hpc => cases hn; exact .closeFails hpc
  next => cases hn

theorem main_correct {a : WholeFileAction} (h : s.Correct content) (hn : s.main a = some t) :
    t.Correct content := by
  cases main_step hn with
  | opens hpc hfd =>
    simp only [Correct, hpc] at h
    subst h
    exact opened_atHead hfd
  | openFails | readFails => rintro ⟨⟩
  | reads hpc ha =>
    simp only [Correct, hpc] at h
    exact read_correct hpc h ha
  | reports hpc =>
    simp only [Correct, hpc] at h
    obtain ⟨hpc', hfd, houtput⟩ := report_correct h.1 h.2
    rw [Correct, hpc']
    intro
    exact ⟨h.2 ▸ h.1.inside, by rw [houtput, hfd]⟩
  | closes hpc | closeFails hpc =>
    simp only [Correct, hpc] at h
    exact h

theorem correct_reachable (h : (wholeFile content).Reachable s) : s.Correct content := by
  refine h.induct ?_ ?_
  · rintro _ rfl
    exact rfl
  · intro s a t _ hs hn
    exact main_correct hs hn

theorem head_reached (hn : n ≤ sizeBufStorage) (hlen : n ≤ content.length) :
    ∃ s, (wholeFile content).Reachable s ∧ s.pc = .read ∧ AtHead content s ∧
      s.totalBytesRead = n := by
  induction n with
  | zero =>
    have hfd : 3 ≤ intMax := by decide
    have hstep : (initial content).main (.openFile 3) =
        some { initial content with fd := 3, pc := .read } := by
      change (if 3 ≤ intMax then _ else none) = _
      exact if_pos hfd
    exact ⟨_, System.Reachable.step (.openFile 3) (.init rfl) hstep, rfl, opened_atHead hfd, rfl⟩
  | succ n ih =>
    obtain ⟨s, hr, hpc, hat, rfl⟩ := ih (by omega) (by omega)
    have ha : s.readAllowed 1 := by
      refine ⟨by decide, ?_, fun h => absurd h one_ne_zero⟩
      rw [hat.file, ← hat.counted]
      exact hlen
    obtain ⟨hpc', htotal, hat'⟩ := read_stored hat hlen hn one_ne_zero
    refine ⟨s.read 1, hr.step (.read 1) ?_, hpc'.trans hpc, hat', htotal⟩
    simp only [wholeFile_next, main, hpc, if_pos ha]

theorem fault_reached (h : sizeBufStorage < content.length) :
    ∃ s, (wholeFile content).Reachable s ∧ s.pc = .fault := by
  obtain ⟨s, hr, hpc, hat, htotal⟩ := head_reached le_rfl h.le
  have ha : s.readAllowed 1 := by
    refine ⟨by decide, ?_, fun h => absurd h one_ne_zero⟩
    rw [hat.file, ← hat.counted, htotal]
    exact h
  have hfault : s.read 1 = s.goto .fault := read_fault hat (by omega) (by omega) one_ne_zero
  refine ⟨s.goto .fault, hr.step (.read 1) ?_, rfl⟩
  simp only [wholeFile_next, main, hpc, if_pos ha, hfault]

theorem end_reached (h : content.length ≤ sizeBufStorage) :
    ∃ s, (wholeFile content).Reachable s ∧ s.pc = .returned .success := by
  obtain ⟨s, hr, hpc, hat, htotal⟩ := head_reached h le_rfl
  have ha : s.readAllowed 0 := by
    rw [readAllowed, hat.file, ← hat.counted, htotal]
    exact ⟨Nat.zero_le _, le_rfl, fun _ => rfl⟩
  have hread : s.read 0 = (s.logError "EOF reached").goto .report := if_pos rfl
  have hr₁ : (wholeFile content).Reachable (s.read 0) := by
    apply hr.step (.read 0)
    simp only [wholeFile_next, main, hpc, if_pos ha]
  rw [hread] at hr₁
  have hr₂ := System.Reachable.step .run hr₁ rfl
  exact ⟨_, System.Reachable.step .run hr₂ rfl, rfl⟩

def NoFailure (_ : WholeFile) (a : WholeFileAction) : Prop := a ≠ .fails

def Succeeding (s : WholeFile) : Prop :=
  match s.pc with
  | .close status | .returned status => status = .success
  | _ => True

def rank (content : List Byte) (s : WholeFile) : ℕ :=
  match s.pc with
  | .openFile => content.length + 4
  | .read => content.length - s.totalBytesRead + 3
  | .report => 2
  | .close _ => 1
  | .returned _ | .fault => 0

theorem read_rank (hlen : content.length ≤ sizeBufStorage) (hpc : s.pc = .read)
    (h : AtHead content s) (ha : s.readAllowed n) :
    (s.read n).Succeeding ∧ (s.read n).rank content < s.rank content := by
  obtain ⟨-, hle, hend⟩ := ha
  rw [h.file, ← h.counted] at hle
  by_cases hzero : n = 0
  · rw [read, if_pos hzero]
    refine ⟨trivial, ?_⟩
    simp only [rank, hpc, goto, logError]
    omega
  · obtain ⟨hpc', htotal, -⟩ := read_stored h hle (hle.trans hlen) hzero
    simp only [Succeeding, rank, hpc', hpc, htotal]
    refine ⟨trivial, ?_⟩
    omega

theorem main_rank {a : WholeFileAction} (hlen : content.length ≤ sizeBufStorage)
    (h : s.Correct content) (hs : s.Succeeding) (ha : a ≠ .fails) (hn : s.main a = some t) :
    t.Succeeding ∧ t.rank content < s.rank content := by
  cases main_step hn with
  | opens hpc hfd =>
    simp only [Correct, hpc] at h
    subst h
    refine ⟨trivial, ?_⟩
    change content.length - 0 + 3 < content.length + 4
    omega
  | reads hpc hallowed =>
    simp only [Correct, hpc] at h
    exact read_rank hlen hpc h hallowed
  | reports hpc =>
    refine ⟨rfl, ?_⟩
    simp only [rank, hpc, report]
    omega
  | closes hpc =>
    simp only [Succeeding, hpc] at hs
    refine ⟨hs, ?_⟩
    simp only [rank, hpc, goto]
    omega
  | openFails | readFails | closeFails => exact absurd rfl ha

theorem run_step (hlen : content.length ≤ sizeBufStorage) (h : s.Correct content)
    (hs : s.Succeeding) (hd : s.pc ≠ .returned .success) :
    ∃ a t, a ≠ .fails ∧ s.main a = some t := by
  cases hpc : s.pc with
  | openFile =>
    refine ⟨.openFile 3, { s with fd := 3, pc := .read }, by decide, ?_⟩
    simp only [main, hpc]
    exact if_pos (by decide)
  | read =>
    simp only [Correct, hpc] at h
    have hbound := h.bound
    have hn : ∃ n, s.readAllowed n := by
      rcases hbound.lt_or_eq with hlt | he
      · refine ⟨1, by decide, ?_, fun h => absurd h one_ne_zero⟩
        rw [h.file, ← h.counted]
        exact hlt
      · refine ⟨0, Nat.zero_le _, ?_, fun _ => ?_⟩ <;> rw [h.file, ← h.counted, he]
        exact le_rfl
    obtain ⟨n, hn⟩ := hn
    refine ⟨.read n, s.read n, by simp, ?_⟩
    simp only [main, hpc, if_pos hn]
  | report => exact ⟨.run, s.report, by decide, by simp only [main, hpc]⟩
  | close status => exact ⟨.run, s.goto (.returned status), by decide, by simp only [main, hpc]⟩
  | returned status =>
    simp only [Succeeding, hpc] at hs
    exact absurd (hs ▸ hpc) hd
  | fault =>
    simp only [Correct, hpc] at h
    omega

theorem success_inevitable (hlen : content.length ≤ sizeBufStorage) :
    (wholeFile content).Inevitable NoFailure (fun s => s.pc = .returned .success)
      (initial content) := by
  apply System.Inevitable.of_measure (I := fun s => s.Correct content ∧ s.Succeeding)
    (rank content)
  · rintro s ⟨hc, hs⟩ hd
    obtain ⟨a, t, ha, hn⟩ := run_step hlen hc hs hd
    exact ⟨t, a, ha, hn⟩
  · rintro s t ⟨hc, hs⟩ - ⟨a, ha, hn⟩
    obtain ⟨hs', hlt⟩ := main_rank hlen hc hs ha hn
    exact ⟨⟨main_correct hc hn, hs'⟩, hlt⟩
  · exact ⟨rfl, trivial⟩

end WholeFile

structure ReadsWhole (content : List Byte) : Prop where
  stored : ∀ s, (wholeFile content).Reachable s → s.pc ≠ .fault
  counted : ∀ s, (wholeFile content).Reachable s → s.pc = .read → s.totalBytesRead = s.offset
  reported : ∀ s, (wholeFile content).Reachable s → s.pc = .returned .success →
    s.output = logText content.length s.fd content
  ends : (wholeFile content).Inevitable WholeFile.NoFailure (fun s => s.pc = .returned .success)
    (WholeFile.initial content)

theorem logText_inj {n fd : ℕ} {stored content : List Byte}
    (h : logText n fd stored = logText n fd content) : stored = content := by
  simpa [logText] using h

/-- The program reads and prints exactly the files that have at most 30 bytes and no NUL. -/
theorem whole_file_iff (content : List Byte) :
    ReadsWhole content ↔ content.length ≤ sizeBufStorage ∧ (0 : Byte) ∉ content := by
  constructor
  · intro h
    have hlen : content.length ≤ sizeBufStorage := by
      by_contra hlong
      obtain ⟨s, hr, hpc⟩ := WholeFile.fault_reached (not_le.mp hlong)
      exact h.stored s hr hpc
    obtain ⟨s, hr, hpc⟩ := WholeFile.end_reached hlen
    have hc := WholeFile.correct_reachable hr
    simp only [WholeFile.Correct, hpc] at hc
    have houtput := (hc trivial).2.symm.trans (h.reported s hr hpc)
    exact ⟨hlen, cString_eq_self_iff.mp (logText_inj houtput)⟩
  · rintro ⟨hlen, hnul⟩
    refine ⟨?_, ?_, ?_, WholeFile.success_inevitable hlen⟩
    · intro s hr hpc
      have hc := WholeFile.correct_reachable hr
      simp only [WholeFile.Correct, hpc] at hc
      omega
    · intro s hr hpc
      have hc := WholeFile.correct_reachable hr
      simp only [WholeFile.Correct, hpc] at hc
      exact hc.counted
    · intro s hr hpc
      have hc := WholeFile.correct_reachable hr
      simp only [WholeFile.Correct, hpc] at hc
      rw [(hc trivial).2, cString_eq_self_iff.mpr hnul]

theorem whole_file_31 : ¬ ReadsWhole (List.replicate 31 97) := by
  intro h
  obtain ⟨s, hr, hpc⟩ :=
    WholeFile.fault_reached (by rw [List.length_replicate]; decide :
      sizeBufStorage < (List.replicate 31 (97 : Byte)).length)
  exact h.stored s hr hpc

end LinuxSystemProgramming.FileOperations
