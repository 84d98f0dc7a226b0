import LinuxSystemProgramming.FileOperations.WholeFile
import LinuxSystemProgramming.FileOperations.WriteHelpers
import LinuxSystemProgramming.SharedDescriptors.OneFile

/-!
The two programs 2_6: one writes through a descriptor and its duplicate, the other puts the file in
the place of the standard output. A `close` that fails has released its descriptor all the same.
-/

namespace LinuxSystemProgramming.SharedDescriptors.Duplicates

open CMemory Files Descriptors FileOperations

def sizeBufLog : ℕ := 100

def sizeBufErr : ℕ := 100

def fdStdout : ℕ := 1

def fdStderr : ℕ := 2

-- `none` is the -1 of a call that has failed.
def shown : Option ℕ → List Byte
  | none => ascii "-1"
  | some fd => decimal fd

def fdLine (msgPrefix : List Byte) (fd : Option ℕ) : List Byte :=
  msgPrefix ++ ascii ": " ++ shown fd ++ [newline]

/-- What the call of `write` takes of a line, `none` when `snprintf` leaves nothing to write. -/
def lineTaken (size : ℕ) (w : WriteCalls) (line : List Byte) : Option (List Byte) :=
  let formatted := snprintf size line
  formatted.1.bind fun len =>
    if 0 < len then
      let asked := if len > size then size - 1 else len
      some (formatted.2.take ((w.result 0 asked).getD 0))
    else none

/-- What a call of `log_error` meets: the text of `errno`, and what its `write` returns. -/
structure ErrorCalls where
  strerror : Text
  write : WriteCalls

def errorLine (msgPrefix : List Byte) (e : ErrorCalls) : List Byte :=
  msgPrefix ++ ascii ": " ++ e.strerror.bytes ++ [newline]

def errorTaken (e : ErrorCalls) (msgPrefix : List Byte) : List Byte :=
  (lineTaken sizeBufErr e.write (errorLine msgPrefix e)).getD []

def logError (k : Kernel Unit File) (e : ErrorCalls) (msgPrefix : List Byte) : Kernel Unit File :=
  k.attempt regular (.write () fdStderr (errorTaken e msgPrefix))

def logFd (k : Kernel Unit File) (w : WriteCalls) (e : ErrorCalls) (msgPrefix : List Byte)
    (fd : Option ℕ) : Kernel Unit File :=
  match lineTaken sizeBufLog w (fdLine msgPrefix fd) with
  | none => logError k e (ascii "Error writing to buf")
  | some taken => k.attempt regular (.write () fdStdout taken)

def badDescriptor : WriteCalls where
  result _ _ := none
  le := by rintro _ _ _ ⟨⟩
  pos := by rintro _ _ _ ⟨⟩

def openFd (k : Kernel Unit File) (fd : Option ℕ) : Option ℕ :=
  fd.filter (fun fd => (k.lookup () fd).isSome)

def writeToFile (k : Kernel Unit File) (w : WriteCalls) (e : ErrorCalls) (msg : Text)
    (fd : Option ℕ) : Status × Kernel Unit File :=
  match openFd k fd with
  | none =>
    ((FileOperations.writeToFile badDescriptor msg.bytes).1,
      logError k e (ascii "Error writing to file"))
  | some fd =>
    let r := FileOperations.writeToFile w msg.bytes
    let written := k.attempt regular (.write () fd r.2)
    (r.1, if r.1 = .success then written else logError written e (ascii "Error writing to file"))

def closeFileSafer (k : Kernel Unit File) (ok : Bool) (e : ErrorCalls) (fd : Option ℕ) :
    Bool × Kernel Unit File :=
  match openFd k fd with
  | none => (false, logError k e (ascii "Error closing the file"))
  | some fd =>
    let closed := k.attempt regular (.close () fd)
    (ok, if ok then closed else logError closed e (ascii "Error closing the file"))

def viaNew : Text := ⟨ascii "Writing to file using new file descriptor\n", by decide +kernel⟩

def viaOld : Text := ⟨ascii "Writing to file using old file descriptor\n", by decide +kernel⟩

inductive ErrorSite
  | openFile
  | logFd (i : ℕ)
  | write (i : ℕ)
  | close (i : ℕ)

structure Calls where
  opens : Bool
  dups : Bool
  log : ℕ → WriteCalls
  write : ℕ → WriteCalls
  closes : ℕ → Bool
  error : ErrorSite → ErrorCalls

/-- The end of both programs: `fd` is closed and, unless that has failed, `newfd`. -/
def closeBoth (c : Calls) (k : Kernel Unit File) (fd newfd : Option ℕ) : ℤ × Kernel Unit File :=
  let closed := closeFileSafer k (c.closes 0) (c.error (.close 0)) fd
  if closed.1 then
    let closed := closeFileSafer closed.2 (c.closes 1) (c.error (.close 1)) newfd
    (if closed.1 then 0 else -3, closed.2)
  else (-3, closed.2)

def Dup.writes (c : Calls) (k : Kernel Unit File) (fd : ℕ) : Option ℕ × Kernel Unit File :=
  let logged := logFd k (c.log 0) (c.error (.logFd 0)) (ascii "Initial fd") (some fd)
  let newfd := if c.dups then some (logged.free ()) else none
  let dupped := if c.dups then logged.attempt regular (.dup () fd) else logged
  let logged :=
    logFd dupped (c.log 1) (c.error (.logFd 1)) (ascii "New fd value after dup()") newfd
  let logged :=
    logFd logged (c.log 2) (c.error (.logFd 2)) (ascii "Old fd value after dup()") (some fd)
  let written := (writeToFile logged (c.write 0) (c.error (.write 0)) viaNew newfd).2
  (newfd, (writeToFile written (c.write 1) (c.error (.write 1)) viaOld (some fd)).2)

def Dup.main (c : Calls) (k : Kernel Unit File) : ℤ × Kernel Unit File :=
  if c.opens then
    let fd := k.free ()
    let opened := k.attempt regular (.openFile () .disk false)
    let r := Dup.writes c opened fd
    closeBoth c r.2 (some fd) r.1
  else (-2, logError k (c.error .openFile) (ascii "Error opening the file"))

def toScreen : Text :=
  ⟨ascii "This will be written to file, instead of screen (stdout).\n", by decide +kernel⟩

-- The library goes on until its buffer is empty or a `write` fails.
def flush (k : Kernel Unit File) (w : WriteCalls) : Kernel Unit File :=
  k.attempt regular (.write () fdStdout (writeLoop w toScreen.bytes 0 0).2)

/-- What `main` of 2_6_Dup2 does with the open file. `lineBuffered` says whether the text leaves the
buffer of `stdout` in `printf` or at the exit. -/
def Dup2.prints (lineBuffered : Bool) (c : Calls) (k : Kernel Unit File) (fd : ℕ) :
    ℤ × Kernel Unit File :=
  let newfd := if c.dups then some fdStdout else none
  let dupped := if c.dups then k.attempt regular (.dup2 () fd fdStdout) else k
  let logged := logFd dupped (c.log 0) (c.error (.logFd 0)) (ascii "newfd") newfd
  let printed := if lineBuffered then flush logged (c.write 0) else logged
  let r := closeBoth c printed (some fd) newfd
  (r.1, if lineBuffered then r.2 else flush r.2 (c.write 0))

def Dup2.main (lineBuffered : Bool) (c : Calls) (k : Kernel Unit File) : ℤ × Kernel Unit File :=
  if c.opens then
    let fd := k.free ()
    let opened := k.attempt regular (.openFile () .disk false)
    Dup2.prints lineBuffered c opened fd
  else (-2, logError k (c.error .openFile) (ascii "Error opening the file"))

-- What `log_fd` writes, and what the runs of `log_error` write.
def logged (w : WriteCalls) (msgPrefix : List Byte) (fd : Option ℕ) : List Byte :=
  (lineTaken sizeBufLog w (fdLine msgPrefix fd)).getD []

def Calls.openError (c : Calls) : List Byte :=
  errorTaken (c.error .openFile) (ascii "Error opening the file")

def Calls.writeError (c : Calls) (i : ℕ) : List Byte :=
  errorTaken (c.error (.write i)) (ascii "Error writing to file")

def Calls.closeError (c : Calls) (i : ℕ) : List Byte :=
  errorTaken (c.error (.close i)) (ascii "Error closing the file")

def Calls.closeErrors (c : Calls) : List Byte :=
  if c.closes 0 then if c.dups ∧ c.closes 1 then [] else c.closeError 1 else c.closeError 0

variable {k : Kernel Unit File} {start written : List Byte} {content : File → List Byte}
  {t : Table} {fd d : ℕ}

structure Open (t : Table) (k : Kernel Unit File) (start written : List Byte) : Prop where
  holds : Holds k start written
  table : k.table () = t
  stderr : t.lookup fdStderr = some 0

theorem Open.lookup (h : Open t k start written) (fd : ℕ) : k.lookup () fd = t.lookup fd := by
  rw [Kernel.lookup, h.table]

theorem Open.openFd (h : Open t k start written) (hl : t.lookup fd = some d) :
    openFd k (some fd) = some fd := by
  simp [Duplicates.openFd, Option.filter, h.lookup, hl]

def openTable : Table := [some 0, some 0, some 0, some 1]

def Dup.table (dups : Bool) : Table := if dups then openTable ++ [some 1] else openTable

theorem Open.ofStart (content : File → List Byte) :
    Open openTable
        ((Kernel.start () .terminal content).attempt regular (.openFile () .disk false))
        (content .disk) [] :=
  ⟨Holds.opened false, rfl, rfl⟩

theorem Open.write (h : Open t k start written) (hl : t.lookup fd = some d) (taken : List Byte) :
    Open t (k.attempt regular (.write () fd taken)) start
        (written ++ if d = 1 then taken else []) ∧
      (k.attempt regular (.write () fd taken)).content .terminal =
        k.content .terminal ++ if d = 0 then taken else [] := by
  rw [← h.lookup] at hl
  obtain ⟨hholds, hshows⟩ := h.holds.write hl taken
  exact ⟨⟨hholds, (congrFun (write_table k () fd taken) ()).trans h.table, h.stderr⟩, hshows⟩

theorem Open.write_terminal (h : Open t k start written) (hl : t.lookup fd = some 0)
    (taken : List Byte) :
    Open t (k.attempt regular (.write () fd taken)) start written ∧
      (k.attempt regular (.write () fd taken)).content .terminal =
        k.content .terminal ++ taken := by
  simpa using h.write hl taken

theorem Open.write_disk (h : Open t k start written) (hl : t.lookup fd = some 1)
    (taken : List Byte) :
    Open t (k.attempt regular (.write () fd taken)) start (written ++ taken) ∧
      (k.attempt regular (.write () fd taken)).content .terminal = k.content .terminal := by
  simpa using h.write hl taken

theorem Open.logError (h : Open t k start written) (e : ErrorCalls) (msgPrefix : List Byte) :
    Open t (logError k e msgPrefix) start written ∧
      (Duplicates.logError k e msgPrefix).content .terminal =
        k.content .terminal ++ errorTaken e msgPrefix :=
  h.write_terminal h.stderr _

theorem logFd_eq {w : WriteCalls} {e : ErrorCalls} {msgPrefix : List Byte} {fd : Option ℕ}
    (h : (fdLine msgPrefix fd).length ≤ intMax) :
    logFd k w e msgPrefix fd =
      k.attempt regular (.write () fdStdout (logged w msgPrefix fd)) := by
  have hpos : 0 < (fdLine msgPrefix fd).length := by
    rw [fdLine, List.length_append]
    exact Nat.lt_add_left _ Nat.one_pos
  have hsome : (lineTaken sizeBufLog w (fdLine msgPrefix fd)).isSome := by
    simp [lineTaken, snprintf, if_neg (Nat.not_lt.mpr h), hpos]
  obtain ⟨taken, ht⟩ := Option.isSome_iff_exists.mp hsome
  rw [logFd, logged, ht]
  rfl

theorem Open.logFd_terminal (h : Open t k start written) (hl : t.lookup fdStdout = some 0)
    {w : WriteCalls} {e : ErrorCalls} {msgPrefix : List Byte} {fd : Option ℕ}
    (hlen : (fdLine msgPrefix fd).length ≤ intMax) :
    Open t (logFd k w e msgPrefix fd) start written ∧
      (logFd k w e msgPrefix fd).content .terminal =
        k.content .terminal ++ logged w msgPrefix fd := by
  rw [logFd_eq hlen]
  exact h.write_terminal hl _

theorem Open.logFd_disk (h : Open t k start written) (hl : t.lookup fdStdout = some 1)
    {w : WriteCalls} {e : ErrorCalls} {msgPrefix : List Byte} {fd : Option ℕ}
    (hlen : (fdLine msgPrefix fd).length ≤ intMax) :
    Open t (logFd k w e msgPrefix fd) start (written ++ logged w msgPrefix fd) ∧
      (logFd k w e msgPrefix fd).content .terminal = k.content .terminal := by
  rw [logFd_eq hlen]
  exact h.write_disk hl _

theorem Open.writeToFile (h : Open t k start written) (hl : t.lookup fd = some 1) (w : WriteCalls)
    (e : ErrorCalls) (msg : Text) :
    Open t (writeToFile k w e msg (some fd)).2 start
        (written ++ (FileOperations.writeToFile w msg.bytes).2) ∧
      (Duplicates.writeToFile k w e msg (some fd)).2.content .terminal = k.content .terminal ++
        if (FileOperations.writeToFile w msg.bytes).1 = .success then []
        else errorTaken e (ascii "Error writing to file") := by
  obtain ⟨h1, s1⟩ := h.write_disk hl (FileOperations.writeToFile w msg.bytes).2
  simp only [Duplicates.writeToFile, h.openFd hl]
  split
  · exact ⟨h1, s1.trans (List.append_nil _).symm⟩
  · obtain ⟨h2, s2⟩ := h1.logError e (ascii "Error writing to file")
    exact ⟨h2, s2.trans (congrArg (· ++ _) s1)⟩

theorem Open.put (h : Open t k start written) (hfd : fd ≠ fdStderr) {d : Option ℕ}
    (hd : ∀ e, d = some e → e ≤ 1) : Open (t.put fd d) (k.put () fd d) start written := by
  obtain ⟨T, D, hk, -⟩ := h.holds.descriptions
  refine ⟨h.holds.put () fd (fun e he => ?_), ?_, ?_⟩
  · rw [hk]
    exact Nat.lt_succ_of_le (hd e he)
  · simp only [Kernel.put, Function.update_self, h.table]
  · rw [Table.lookup_put, if_neg hfd.symm]
    exact h.stderr

theorem Open.dup (h : Open t k start written) (hl : t.lookup fd = some 1)
    (hfree : t.lowest ≠ fdStderr) :
    Open (t.put t.lowest (some 1)) (k.attempt regular (.dup () fd)) start written ∧
      (k.attempt regular (.dup () fd)).content .terminal = k.content .terminal := by
  have hk : k.attempt regular (.dup () fd) = k.put () t.lowest (some 1) := by
    simp [Kernel.attempt, Kernel.next, h.lookup, hl, Kernel.free, h.table]
  rw [hk]
  exact ⟨h.put hfree (by rintro _ ⟨⟩; exact le_refl 1), rfl⟩

theorem Open.dup2 (h : Open t k start written) (hl : t.lookup fd = some 1) {newfd : ℕ}
    (hnew : newfd ≠ fdStderr) :
    Open (t.put newfd (some 1)) (k.attempt regular (.dup2 () fd newfd)) start written ∧
      (k.attempt regular (.dup2 () fd newfd)).content .terminal = k.content .terminal := by
  have hk : k.attempt regular (.dup2 () fd newfd) = k.put () newfd (some 1) := by
    simp [Kernel.attempt, Kernel.next, h.lookup, hl]
  rw [hk]
  exact ⟨h.put hnew (by rintro _ ⟨⟩; exact le_refl 1), rfl⟩

theorem Open.closeFileSafer (h : Open t k start written) (hfd : fd ≠ fdStderr)
    (hl : t.lookup fd = some d) (ok : Bool) (e : ErrorCalls) :
    (closeFileSafer k ok e (some fd)).1 = ok ∧
      Open (t.put fd none) (Duplicates.closeFileSafer k ok e (some fd)).2 start written ∧
      (Duplicates.closeFileSafer k ok e (some fd)).2.content .terminal = k.content .terminal ++
        if ok then [] else errorTaken e (ascii "Error closing the file") := by
  have hclosed : Open (t.put fd none) (k.attempt regular (.close () fd)) start written := by
    have hk : k.attempt regular (.close () fd) = k.put () fd none := by
      simp [Kernel.attempt, Kernel.next, h.lookup, hl]
    rw [hk]
    exact h.put hfd (by rintro _ ⟨⟩)
  have hsame : (k.attempt regular (.close () fd)).content = k.content := by
    simp [Kernel.attempt, Kernel.next, h.lookup, hl, Kernel.put]
  simp only [Duplicates.closeFileSafer, h.openFd hl]
  cases ok with
  | true => exact ⟨trivial, hclosed, by simp [hsame]⟩
  | false =>
    obtain ⟨h1, s1⟩ := hclosed.logError e (ascii "Error closing the file")
    exact ⟨trivial, h1, by simpa [hsame] using s1⟩

theorem closeFileSafer_none (k : Kernel Unit File) (ok : Bool) (e : ErrorCalls) :
    closeFileSafer k ok e none = (false, logError k e (ascii "Error closing the file")) :=
  rfl

theorem Open.closeBoth (h : Open t k start written) (c : Calls) {newfd : Option ℕ}
    (hfd : fd ≠ fdStderr) (hl : t.lookup fd = some d) (hd : newfd.isSome = c.dups)
    (hn : ∀ n, newfd = some n → n ≠ fd ∧ n ≠ fdStderr ∧ t.lookup n ≠ none) :
    (closeBoth c k (some fd) newfd).1 = (if c.closes 0 ∧ c.dups ∧ c.closes 1 then 0 else -3) ∧
      (Duplicates.closeBoth c k (some fd) newfd).2.content .terminal =
        k.content .terminal ++ c.closeErrors ∧
      ∃ t', Open t' (Duplicates.closeBoth c k (some fd) newfd).2 start written ∧
        ∀ n, t'.lookup n = if n = fd ∨ (c.closes 0 ∧ newfd = some n) then none else t.lookup n := by
  obtain ⟨hok, h1, s1⟩ := h.closeFileSafer hfd hl (c.closes 0) (c.error (.close 0))
  simp only [Duplicates.closeBoth, hok]
  cases hc : c.closes 0 with
  | false =>
    simp only [hc, Bool.false_eq_true, if_false, false_and, or_false] at h1 s1 ⊢
    refine ⟨trivial, ?_, _, h1, fun n => Table.lookup_put t fd none n⟩
    rw [s1, Calls.closeErrors, hc]
    rfl
  | true =>
    simp only [hc, if_true, List.append_nil, true_and] at h1 s1 ⊢
    cases newfd with
    | none =>
      obtain ⟨h2, s2⟩ := h1.logError (c.error (.close 1)) (ascii "Error closing the file")
      rw [Option.isSome_none] at hd
      refine ⟨by simp [← hd, closeFileSafer_none], ?_, _, h2, fun n => ?_⟩
      · simp only [Calls.closeErrors, hc, ← hd, if_true, Bool.false_eq_true, false_and, if_false]
        exact s2.trans (congrArg (· ++ _) s1)
      · rw [Table.lookup_put]
        simp
    | some n =>
      obtain ⟨hne, hnerr, hsome⟩ := hn n rfl
      obtain ⟨e, he⟩ := Option.ne_none_iff_exists'.mp hsome
      have hln : (t.put fd none).lookup n = some e := by
        rw [Table.lookup_put, if_neg hne, he]
      obtain ⟨hok2, h2, s2⟩ := h1.closeFileSafer hnerr hln (c.closes 1) (c.error (.close 1))
      rw [Option.isSome_some] at hd
      refine ⟨by simp [hok2, ← hd], ?_, _, h2, fun m => ?_⟩
      · simp only [Calls.closeErrors, hc, ← hd, if_true, true_and]
        exact s2.trans (congrArg (· ++ _) s1)
      · rw [Table.lookup_put, Table.lookup_put]
        by_cases hm : m = n
        · simp [hm]
        · simp [hm, Ne.symm hm]

theorem Dup.writes_spec (h : Open openTable k start []) (c : Calls) :
    (Dup.writes c k 3).1 = (if c.dups then some 4 else none) ∧
      Open (Dup.table c.dups) (Dup.writes c k 3).2 start
        ((if c.dups then (FileOperations.writeToFile (c.write 0) viaNew.bytes).2 else []) ++
          (FileOperations.writeToFile (c.write 1) viaOld.bytes).2) ∧
      (Dup.writes c k 3).2.content .terminal = k.content .terminal ++
        logged (c.log 0) (ascii "Initial fd") (some 3) ++
        logged (c.log 1) (ascii "New fd value after dup()") (if c.dups then some 4 else none) ++
        logged (c.log 2) (ascii "Old fd value after dup()") (some 3) ++
        (if c.dups ∧ (FileOperations.writeToFile (c.write 0) viaNew.bytes).1 = .success then []
          else c.writeError 0) ++
        (if (FileOperations.writeToFile (c.write 1) viaOld.bytes).1 = .success then []
          else c.writeError 1) := by
  have hl : Table.lookup openTable 3 = some 1 := rfl
  obtain ⟨h0, s0⟩ := h.logFd_terminal (w := c.log 0) (e := c.error (.logFd 0)) rfl
    (show (fdLine (ascii "Initial fd") (some 3)).length ≤ intMax by decide)
  have hfree : (logFd k (c.log 0) (c.error (.logFd 0)) (ascii "Initial fd") (some 3)).free () =
      4 := by
    rw [Kernel.free, h0.table]
    rfl
  have hlen : (fdLine (ascii "Old fd value after dup()") (some 3)).length ≤ intMax := by decide
  simp only [Dup.writes, hfree]
  cases c.dups with
  | false =>
    simp only [Bool.false_eq_true, if_false, false_and]
    obtain ⟨h1, s1⟩ := h0.logFd_terminal (w := c.log 1) (e := c.error (.logFd 1)) rfl
      (show (fdLine (ascii "New fd value after dup()") none).length ≤ intMax by decide)
    obtain ⟨h2, s2⟩ := h1.logFd_terminal (w := c.log 2) (e := c.error (.logFd 2)) rfl hlen
    obtain ⟨h3, s3⟩ := h2.logError (c.error (.write 0)) (ascii "Error writing to file")
    obtain ⟨h4, s4⟩ := h3.writeToFile hl (c.write 1) (c.error (.write 1)) viaOld
    refine ⟨trivial, h4, s4.trans ?_⟩
    rw [s3, s2, s1, s0]
    rfl
  | true =>
    simp only [if_true, true_and]
    obtain ⟨hd, sd⟩ := h0.dup hl (by decide)
    obtain ⟨h1, s1⟩ := hd.logFd_terminal (w := c.log 1) (e := c.error (.logFd 1)) rfl
      (show (fdLine (ascii "New fd value after dup()") (some 4)).length ≤ intMax by decide)
    obtain ⟨h2, s2⟩ := h1.logFd_terminal (w := c.log 2) (e := c.error (.logFd 2)) rfl hlen
    have hl3 : Table.lookup (Dup.table true) 3 = some 1 := rfl
    have hl4 : Table.lookup (Dup.table true) 4 = some 1 := rfl
    obtain ⟨h3, s3⟩ := h2.writeToFile hl4 (c.write 0) (c.error (.write 0)) viaNew
    obtain ⟨h4, s4⟩ := h3.writeToFile hl3 (c.write 1) (c.error (.write 1)) viaOld
    refine ⟨h4, s4.trans ?_⟩
    rw [s3, s2, s1, sd, s0]
    rfl

theorem logError_start (content : File → List Byte) (e : ErrorCalls) (msgPrefix : List Byte) :
    (logError (.start () .terminal content) e msgPrefix).content .disk = content .disk ∧
      (logError (.start () .terminal content) e msgPrefix).content .terminal =
        content .terminal ++ errorTaken e msgPrefix := by
  rw [logError, attempt_write (d := 0) rfl rfl]
  by_cases ht : errorTaken e msgPrefix = []
  · simp [Kernel.written, Kernel.stored, Kernel.start, ht]
  · simp [Kernel.written, Kernel.stored, Kernel.start, ht, regular]

/-- 2_6_Dup for every result of its calls and every old content of the file: the duplicate has the
offset in common with the first descriptor, so that the second text starts where the first `write`
has stopped, over the old content. Only an `open`, `dup` or `close` that fails shows in the status,
and every call that fails in a line of `log_error`. -/
theorem Dup.writes_after (c : Calls) (content : File → List Byte) :
    let r := Dup.main c (.start () .terminal content)
    let new := FileOperations.writeToFile (c.write 0) viaNew.bytes
    let old := FileOperations.writeToFile (c.write 1) viaOld.bytes
    (r.1 = 0 ↔ c.opens ∧ c.dups ∧ c.closes 0 ∧ c.closes 1) ∧
      r.2.content .disk = (if c.opens then
        writeAt (content .disk) 0 ((if c.dups then new.2 else []) ++ old.2)
        else content .disk) ∧
      r.2.content .terminal = content .terminal ++ (if c.opens then
        logged (c.log 0) (ascii "Initial fd") (some 3) ++
        logged (c.log 1) (ascii "New fd value after dup()") (if c.dups then some 4 else none) ++
        logged (c.log 2) (ascii "Old fd value after dup()") (some 3) ++
        (if c.dups ∧ new.1 = .success then [] else c.writeError 0) ++
        (if old.1 = .success then [] else c.writeError 1) ++ c.closeErrors
        else c.openError) := by
  intro r new old
  cases ho : c.opens with
  | false =>
    have hr : r = (-2, logError (.start () .terminal content) (c.error .openFile)
        (ascii "Error opening the file")) := by simp [r, Dup.main, ho]
    obtain ⟨hdisk, hterm⟩ := logError_start content (c.error .openFile)
      (ascii "Error opening the file")
    rw [hr]
    exact ⟨by simp, by simpa using hdisk, by simpa [Calls.openError] using hterm⟩
  | true =>
    obtain ⟨hfst, hopen, hshow⟩ := Dup.writes_spec (Open.ofStart content) c
    generalize hw : Dup.writes c _ 3 = w at hfst hopen hshow
    have hr : r = closeBoth c w.2 (some 3) w.1 := by
      rw [← hw]
      simp only [r, Dup.main, ho, if_true]
      rfl
    have hl : (Dup.table c.dups).lookup 3 = some 1 := by cases c.dups <;> rfl
    have hdups : w.1.isSome = c.dups := by
      rw [hfst]
      cases c.dups <;> rfl
    have hn : ∀ n, w.1 = some n →
        n ≠ 3 ∧ n ≠ fdStderr ∧ (Dup.table c.dups).lookup n ≠ none := by
      rw [hfst]
      cases c.dups with
      | false => rintro n ⟨⟩
      | true =>
        rintro n ⟨⟩
        exact ⟨by decide, by decide, by decide⟩
    obtain ⟨hst, hterm, t', hopen', -⟩ := hopen.closeBoth c (by decide) hl hdups hn
    rw [hr]
    refine ⟨?_, hopen'.holds.content, ?_⟩
    · rw [hst]
      cases c.dups <;> simp
    · rw [hterm, hshow]
      simp only [List.append_assoc, if_true]
      rfl

def Dup2.table : Table := [some 0, some 1, some 0, some 1]

theorem Open.flush_terminal (h : Open t k start written) (hl : t.lookup fdStdout = some 0)
    (w : WriteCalls) :
    Open t (flush k w) start written ∧ (flush k w).content .terminal =
      k.content .terminal ++ (writeLoop w toScreen.bytes 0 0).2 :=
  h.write_terminal hl _

theorem Open.flush_disk (h : Open t k start written) (hl : t.lookup fdStdout = some 1)
    (w : WriteCalls) :
    Open t (flush k w) start (written ++ (writeLoop w toScreen.bytes 0 0).2) ∧
      (flush k w).content .terminal = k.content .terminal :=
  h.write_disk hl _

theorem Open.flush_closed (h : Open t k start written) (hl : t.lookup fdStdout = none)
    (w : WriteCalls) : flush k w = k := by
  have hk : k.lookup () fdStdout = none := (h.lookup fdStdout).trans hl
  simp [flush, Kernel.attempt, Kernel.next, hk]

theorem Dup2.redirected (h : Open openTable k start []) (lineBuffered : Bool) (c : Calls)
    (hd : c.dups = true) :
    let r := Dup2.prints lineBuffered c k 3
    r.1 = (if c.closes 0 ∧ c.closes 1 then 0 else -3) ∧
      r.2.content .disk = writeAt start 0 (logged (c.log 0) (ascii "newfd") (some fdStdout) ++
        if lineBuffered ∨ c.closes 0 = false then (writeLoop (c.write 0) toScreen.bytes 0 0).2
        else []) ∧
      r.2.content .terminal = k.content .terminal ++ c.closeErrors := by
  have hl1 : Dup2.table.lookup fdStdout = some 1 := rfl
  have hl3 : Dup2.table.lookup 3 = some 1 := rfl
  have hn : ∀ n, some fdStdout = some n →
      n ≠ 3 ∧ n ≠ fdStderr ∧ Dup2.table.lookup n ≠ none := by
    rintro n ⟨⟩
    exact ⟨by decide, by decide, by decide⟩
  obtain ⟨h0, s0⟩ := h.dup2 (show openTable.lookup 3 = some 1 from rfl)
    (show fdStdout ≠ fdStderr by decide)
  obtain ⟨h1, s1⟩ := h0.logFd_disk (w := c.log 0) (e := c.error (.logFd 0)) hl1
    (show (fdLine (ascii "newfd") (some fdStdout)).length ≤ intMax by decide)
  simp only [Dup2.prints, hd, if_true]
  cases lineBuffered with
  | true =>
    obtain ⟨h2, s2⟩ := h1.flush_disk hl1 (c.write 0)
    obtain ⟨hst, hterm, t', h3, -⟩ := h2.closeBoth c (by decide) hl3 (by rw [hd]; rfl) hn
    refine ⟨by simpa [hd] using hst, by simpa using h3.holds.content, hterm.trans ?_⟩
    rw [s2, s1, s0]
  | false =>
    obtain ⟨hst, hterm, t', h2, ht'⟩ := h1.closeBoth c (by decide) hl3 (by rw [hd]; rfl) hn
    have hl := ht' fdStdout
    refine ⟨by simpa [hd] using hst, ?_⟩
    cases hc : c.closes 0 with
    | true =>
      -- Both descriptors are closed, and the exit writes to nothing.
      rw [if_pos (.inr ⟨hc, rfl⟩)] at hl
      simp only [Bool.false_eq_true, if_false, h2.flush_closed hl]
      refine ⟨by simpa using h2.holds.content, hterm.trans ?_⟩
      rw [s1, s0]
    | false =>
      rw [if_neg (by simp [hc, fdStdout])] at hl
      obtain ⟨h3, s3⟩ := h2.flush_disk (hl.trans hl1) (c.write 0)
      refine ⟨by simpa using h3.holds.content, s3.trans (hterm.trans ?_)⟩
      rw [s1, s0]

theorem Dup2.on_terminal (h : Open openTable k start []) (lineBuffered : Bool) (c : Calls)
    (hd : c.dups = false) :
    let r := Dup2.prints lineBuffered c k 3
    let text := (writeLoop (c.write 0) toScreen.bytes 0 0).2
    r.1 = -3 ∧ r.2.content .disk = start ∧
      r.2.content .terminal = k.content .terminal ++ logged (c.log 0) (ascii "newfd") none ++
        if lineBuffered then text ++ c.closeErrors else c.closeErrors ++ text := by
  have hl0 : openTable.lookup fdStdout = some 0 := rfl
  have hl3 : openTable.lookup 3 = some 1 := rfl
  have hn : ∀ n, none = some n → n ≠ 3 ∧ n ≠ fdStderr ∧ openTable.lookup n ≠ none := by
    rintro n ⟨⟩
  obtain ⟨h1, s1⟩ := h.logFd_terminal (w := c.log 0) (e := c.error (.logFd 0)) hl0
    (show (fdLine (ascii "newfd") none).length ≤ intMax by decide)
  simp only [Dup2.prints, hd, Bool.false_eq_true, if_false]
  cases lineBuffered with
  | true =>
    obtain ⟨h2, s2⟩ := h1.flush_terminal hl0 (c.write 0)
    obtain ⟨hst, hterm, t', h3, -⟩ := h2.closeBoth c (by decide) hl3 (by rw [hd]; rfl) hn
    refine ⟨by simpa [hd] using hst, by simpa [writeAt_nil] using h3.holds.content,
      hterm.trans ?_⟩
    rw [s2, s1]
    simp only [List.append_assoc, if_true]
  | false =>
    obtain ⟨hst, hterm, t', h2, ht'⟩ := h1.closeBoth c (by decide) hl3 (by rw [hd]; rfl) hn
    have hl : t'.lookup fdStdout = some 0 := by rw [ht', if_neg (by simp [fdStdout]), hl0]
    obtain ⟨h3, s3⟩ := h2.flush_terminal hl (c.write 0)
    refine ⟨by simpa [hd] using hst, by simpa [writeAt_nil] using h3.holds.content, s3.trans ?_⟩
    rw [hterm, s1]
    simp only [List.append_assoc, Bool.false_eq_true, if_false]

/-- 2_6_Dup2 for every result of its calls: where `stdout` is line buffered the text goes into the
file after the log line. Otherwise it is lost in every run that returns 0, since the descriptor is
closed before the library writes. Only the lines of `log_error` go to the terminal, unless `dup2`
fails. -/
theorem Dup2.prints_to_file (lineBuffered : Bool) (c : Calls) (content : File → List Byte) :
    let r := Dup2.main lineBuffered c (.start () .terminal content)
    let text := (writeLoop (c.write 0) toScreen.bytes 0 0).2
    (r.1 = 0 ↔ c.opens ∧ c.dups ∧ c.closes 0 ∧ c.closes 1) ∧
      r.2.content .disk = (if c.opens ∧ c.dups then writeAt (content .disk) 0
        (logged (c.log 0) (ascii "newfd") (some fdStdout) ++
          if lineBuffered ∨ c.closes 0 = false then text else []) else content .disk) ∧
      r.2.content .terminal = content .terminal ++ (if c.opens then
        if c.dups then c.closeErrors
        else logged (c.log 0) (ascii "newfd") none ++
          if lineBuffered then text ++ c.closeErrors else c.closeErrors ++ text
        else c.openError) := by
  intro r text
  cases ho : c.opens with
  | false =>
    have hr : r = (-2, logError (.start () .terminal content) (c.error .openFile)
        (ascii "Error opening the file")) := by simp [r, Dup2.main, ho]
    obtain ⟨hdisk, hterm⟩ := logError_start content (c.error .openFile)
      (ascii "Error opening the file")
    rw [hr]
    exact ⟨by simp, by simpa using hdisk, by simpa [Calls.openError] using hterm⟩
  | true =>
    have hr : r = Dup2.prints lineBuffered c
        ((Kernel.start () .terminal content).attempt regular (.openFile () .disk false)) 3 := by
      simp only [r, Dup2.main, ho, if_true]
      rfl
    rw [hr]
    have hopened : ((Kernel.start () .terminal content).attempt regular
        (.openFile () .disk false)).content .terminal = content .terminal := rfl
    cases hd : c.dups with
    | false =>
      obtain ⟨hst, hdisk, hterm⟩ := Dup2.on_terminal (Open.ofStart content) lineBuffered c hd
      rw [hopened] at hterm
      exact ⟨by simp [hst], by simpa using hdisk, by simpa using hterm⟩
    | true =>
      obtain ⟨hst, hdisk, hterm⟩ := Dup2.redirected (Open.ofStart content) lineBuffered c hd
      rw [hopened] at hterm
      exact ⟨by simp [hst], by simpa using hdisk, by simpa using hterm⟩

end LinuxSystemProgramming.SharedDescriptors.Duplicates
