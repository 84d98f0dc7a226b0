import LinuxSystemProgramming.Lib.Files
import LinuxSystemProgramming.Lib.Subsequence
import LinuxSystemProgramming.Lib.Transition

/-!
The program 2_5, which looks for "Rohan" in `author.txt` and writes an `M` over its first letter. A
step is one system call, or one comparison, with the code up to the next one. What `log_error` is
given is kept, without the text of `errno` that it adds. A byte stored outside `buf_read_bytes`
leaves the run in `fault`, where nothing is known of it any more.
-/

namespace LinuxSystemProgramming.FileOperations

open CMemory Files Subsequence Transition

open scoped List

def sizeBufRead : ℕ := 250

def lettersToReadAtOnce : ℕ := 1

def stringTarget : List Byte := [82, 111, 104, 97, 110]

def letterNew : List Byte := [77]

inductive ExitType
  | success
  | errFileOpen
  | errFileRead
  | errFileWrite
  | errFileClose
  deriving DecidableEq

inductive SearchPc
  | openFile
  | read
  | compare
  | seek
  | write
  | report
  | close
  | returned (status : ExitType)
  | fault
  deriving DecidableEq

structure Search where
  pc : SearchPc
  file : List Byte
  offset : ℕ
  bufReadBytes : List Byte
  bytesRead : ℕ
  totalBytesRead : ℕ
  targetIterator : ℕ
  letterReplacedSuccessfully : Bool
  reports : List String
  deriving DecidableEq

inductive SearchAction
  | run
  | fails
  deriving DecidableEq

namespace Search

def initial (content : List Byte) : Search where
  pc := .openFile
  file := content
  offset := 0
  bufReadBytes := List.replicate sizeBufRead 0
  bytesRead := 0
  totalBytesRead := 0
  targetIterator := 0
  letterReplacedSuccessfully := false
  reports := []

def goto (s : Search) (pc : SearchPc) : Search := { s with pc := pc }

def logError (s : Search) (msgPrefix : String) : Search :=
  { s with reports := s.reports ++ [msgPrefix] }

def exit (s : Search) (msgPrefix : String) (status : ExitType) : Search :=
  (s.logError msgPrefix).goto (.returned status)

-- `total_bytes_read` is an `uint8_t`, like `target_iterator`.
def advance (s : Search) : Search :=
  { s with totalBytesRead := (s.totalBytesRead + s.bytesRead) % 256, pc := .read }

def read (s : Search) : Search :=
  match readAt s.file s.offset lettersToReadAtOnce with
  | [] => (s.logError "EOF reached").goto .report
  | b :: bytes =>
    match store s.bufReadBytes s.totalBytesRead (b :: bytes) with
    | none => s.goto .fault
    | some buf =>
      { s with
        bufReadBytes := buf
        offset := s.offset + (b :: bytes).length
        bytesRead := (b :: bytes).length
        pc := .compare }

def compare (s : Search) : Search :=
  match s.bufReadBytes[s.totalBytesRead]?, (stringTarget ++ [0])[s.targetIterator]? with
  | some b, some c =>
    if b = c then
      let s' := { s with targetIterator := (s.targetIterator + 1) % 256 }
      if s'.targetIterator = strlen stringTarget then s'.goto .seek else s'.advance
    else s.advance
  | _, _ => s.goto .fault

-- A seek to before the beginning of the file fails, and its result is not looked at.
def seek (s : Search) : Search :=
  if strlen stringTarget ≤ s.offset then
    { s with offset := s.offset - strlen stringTarget, pc := .write }
  else s.goto .write

def write (s : Search) : Search :=
  { s with
    file := writeAt s.file s.offset letterNew
    offset := s.offset + strlen letterNew
    letterReplacedSuccessfully := true
    pc := .report }

def foundText : String := "Found and replaced the letter successfully."

def notFoundText : String := "Couldn't find the target string"

def report (s : Search) : Search :=
  if s.letterReplacedSuccessfully then (s.logError foundText).goto .close
  else (s.logError notFoundText).goto .close

def main (s : Search) (a : SearchAction) : Option Search :=
  match s.pc, a with
  | .openFile, .run => some (s.goto .read)
  | .openFile, .fails => some (s.exit "Error opening the file" .errFileOpen)
  | .read, .run => some s.read
  | .read, .fails => some (s.exit "Reading error" .errFileRead)
  | .compare, .run => some s.compare
  | .seek, .run => some s.seek
  | .seek, .fails => some (s.goto .write)
  | .write, .run => some s.write
  | .write, .fails => some (s.exit "Error writing to fd" .errFileWrite)
  | .report, .run => some s.report
  | .close, .run => some (s.goto (.returned .success))
  | .close, .fails => some (s.exit "Error closing file" .errFileClose)
  | _, _ => none

end Search

def search (content : List Byte) : System Search SearchAction where
  init s := s = Search.initial content
  next := Search.main

@[simp] theorem search_next (content : List Byte) (s : Search) (a : SearchAction) :
    (search content).next s a = s.main a := rfl

namespace Search

variable {content : List Byte} {s t : Search}

@[simp] theorem strlen_stringTarget : strlen stringTarget = 5 := by decide

structure Scanning (content : List Byte) (s : Search) : Prop where
  file : s.file = content
  buf : s.bufReadBytes.length = sizeBufRead
  replaced : s.letterReplacedSuccessfully = false
  reports : s.reports = []

structure AtHead (content : List Byte) (s : Search) : Prop extends Scanning content s where
  offset : s.offset = s.totalBytesRead
  inside : s.totalBytesRead ≤ sizeBufRead
  file_bound : s.totalBytesRead ≤ content.length
  matched : Matched stringTarget (content.take s.totalBytesRead) s.targetIterator

structure AtCompare (content : List Byte) (s : Search) (b : Byte) : Prop
    extends Scanning content s where
  offset : s.offset = s.totalBytesRead + 1
  inside : s.totalBytesRead < sizeBufRead
  byte : content[s.totalBytesRead]? = some b
  stored : s.bufReadBytes[s.totalBytesRead]? = some b
  bytesRead : s.bytesRead = 1
  matched : Matched stringTarget (content.take s.totalBytesRead) s.targetIterator

structure AtSeek (content : List Byte) (s : Search) : Prop extends Scanning content s where
  offset : s.offset = s.totalBytesRead + 1
  inside : s.totalBytesRead < sizeBufRead
  endsAt : EndsAt stringTarget content s.offset

def Loop (content : List Byte) (s : Search) : Prop :=
  match s.pc with
  | .openFile => s = initial content
  | .read => AtHead content s
  | .compare => ∃ b, AtCompare content s b
  | .seek => AtSeek content s
  | .write => s.totalBytesRead < sizeBufRead
  | .fault => sizeBufRead < content.length ∧ ¬ stringTarget <+ content.take sizeBufRead
  | _ => True

@[simp] theorem read_totalBytesRead : s.read.totalBytesRead = s.totalBytesRead := by
  unfold read
  split
  · rfl
  · split <;> rfl

@[simp] theorem compare_offset : s.compare.offset = s.offset := by
  unfold compare
  split
  · split_ifs
    · dsimp only
      split_ifs <;> rfl
    · rfl
  · rfl

theorem stored_getElem? {buf buf' : List Byte} {n : ℕ} {b : Byte} (h : store buf n [b] = some buf') :
    buf'[n]? = some b ∧ buf'.length = buf.length ∧ n < buf.length := by
  obtain ⟨hlt, he⟩ := Option.ite_none_right_eq_some.mp h
  have hn : n < buf.length := hlt
  have htake : (buf.take n).length = n := List.length_take_of_le (by omega)
  obtain rfl := Option.some.inj he
  refine ⟨?_, ?_, hn⟩
  · rw [List.append_assoc, List.getElem?_append_right (by omega), htake]
    simp
  · simp only [List.length_append, List.length_drop, htake, List.length_singleton]
    omega

theorem initial_atHead : AtHead content ((initial content).goto .read) where
  file := rfl
  buf := List.length_replicate
  replaced := rfl
  reports := rfl
  offset := rfl
  inside := Nat.zero_le _
  file_bound := Nat.zero_le _
  matched := .nil (by decide)

theorem read_end (h : AtHead content s) (he : s.totalBytesRead = content.length) :
    s.read = (s.logError "EOF reached").goto .report := by
  have hread : readAt s.file s.offset lettersToReadAtOnce = [] := by
    apply readAt_one_none
    rw [h.file, h.offset, he]
  rw [read, hread]

theorem read_byte (h : AtHead content s) (hlt : s.totalBytesRead < content.length) :
    (s.totalBytesRead < sizeBufRead ∧ s.read.pc = .compare ∧ ∃ b, AtCompare content s.read b) ∨
      s.totalBytesRead = sizeBufRead ∧ s.read = s.goto .fault := by
  obtain ⟨b, hb⟩ : ∃ b, content[s.totalBytesRead]? = some b := ⟨_, List.getElem?_eq_getElem hlt⟩
  have hread : readAt s.file s.offset lettersToReadAtOnce = [b] := by
    apply readAt_one
    rw [h.file, h.offset, hb]
  rw [read, hread]
  simp only
  cases hs : store s.bufReadBytes s.totalBytesRead [b] with
  | none =>
    right
    refine ⟨?_, rfl⟩
    have hin := h.inside
    by_contra hne
    rw [store, if_pos (by simp only [List.length_singleton, h.buf]; omega)] at hs
    cases hs
  | some buf =>
    left
    obtain ⟨hstored, hlen, hin⟩ := stored_getElem? hs
    rw [h.buf] at hin hlen
    exact ⟨hin, rfl, b, {
      file := h.file
      buf := hlen
      replaced := h.replaced
      reports := h.reports
      offset := by simp [h.offset]
      inside := hin
      byte := hb
      stored := hstored
      bytesRead := rfl
      matched := h.matched }⟩

theorem AtCompare.advance {b : Byte} (h : AtCompare content s b) {k : ℕ}
    (hk : Matched stringTarget (content.take s.totalBytesRead ++ [b]) k) :
    AtHead content { s.advance with targetIterator := k } := by
  have hin := h.inside
  have htotal : s.advance.totalBytesRead = s.totalBytesRead + 1 := by
    rw [Search.advance, h.bytesRead]
    apply Nat.mod_eq_of_lt
    rw [sizeBufRead] at hin
    omega
  obtain ⟨hlt, -⟩ := List.getElem?_eq_some_iff.mp h.byte
  refine { file := h.file, buf := h.buf, replaced := h.replaced, reports := h.reports,
           offset := ?_, inside := ?_, file_bound := ?_, matched := ?_ }
  · exact h.offset.trans htotal.symm
  · exact htotal.trans_le hin
  · exact htotal.trans_le hlt
  · change Matched stringTarget (content.take s.advance.totalBytesRead) k
    rwa [htotal, take_succ_eq h.byte]

theorem compare_cases {b : Byte} (h : AtCompare content s b) :
    s.compare.pc = .read ∧ AtHead content s.compare ∨
      s.compare.pc = .seek ∧ AtSeek content s.compare := by
  have hk : s.targetIterator < 5 := h.matched.more
  obtain ⟨c, hc⟩ : ∃ c, stringTarget[s.targetIterator]? = some c :=
    ⟨_, List.getElem?_eq_getElem h.matched.more⟩
  have hc' : (stringTarget ++ [0])[s.targetIterator]? = some c := by
    rw [List.getElem?_append_left h.matched.more, hc]
  have hmod : (s.targetIterator + 1) % 256 = s.targetIterator + 1 := by omega
  simp only [compare, h.stored, hc', hmod, strlen_stringTarget]
  split_ifs with hbc hfive
  · subst hbc
    right
    refine ⟨rfl, { file := h.file, buf := h.buf, replaced := h.replaced, reports := h.reports,
                   offset := h.offset, inside := h.inside, endsAt := ?_ }⟩
    have hends := EndsAt.of_matched h.matched h.byte hc hfive
    rwa [← h.offset] at hends
  · subst hbc
    left
    refine ⟨rfl, h.advance (h.matched.append_next hc ?_)⟩
    change s.targetIterator + 1 < 5
    omega
  · left
    exact ⟨rfl, h.advance (h.matched.append_other hc hbc)⟩

theorem fault_beyond (h : AtHead content s) (hlt : s.totalBytesRead < content.length)
    (hs : s.totalBytesRead = sizeBufRead) :
    sizeBufRead < content.length ∧ ¬ stringTarget <+ content.take sizeBufRead := by
  rw [← hs]
  exact ⟨hlt, h.matched.not_sublist⟩

theorem main_loop {a : SearchAction} (h : s.Loop content) (hn : s.main a = some t) :
    t.Loop content := by
  unfold main at hn
  split at hn <;> cases hn <;> rename_i hpc <;> simp only [Loop, hpc] at h
  · subst h
    exact initial_atHead
  · trivial
  · rcases h.file_bound.lt_or_eq with hlt | he
    · rcases read_byte h hlt with ⟨-, hpc', hcmp⟩ | ⟨hs, hfault⟩
      · rwa [Loop, hpc']
      · rw [hfault]
        exact fault_beyond h hlt hs
    · rw [read_end h he]
      trivial
  · trivial
  · obtain ⟨b, hb⟩ := h
    rcases compare_cases hb with ⟨hpc', hat⟩ | ⟨hpc', hat⟩ <;> rwa [Loop, hpc']
  · rw [seek]
    split_ifs
    · exact h.inside
    · exact h.inside
  · exact h.inside
  all_goals first | trivial | (rw [report]; split_ifs <;> trivial)

theorem reachable_loop (h : (search content).Reachable s) : s.Loop content := by
  refine h.induct ?_ ?_
  · rintro _ rfl
    exact rfl
  · intro s a t _ hs hn
    exact main_loop hs hn

end Search

end LinuxSystemProgramming.FileOperations
