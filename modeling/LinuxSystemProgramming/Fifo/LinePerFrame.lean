import LinuxSystemProgramming.Fifo.Channel
import LinuxSystemProgramming.Lib.TextLines

namespace LinuxSystemProgramming.Fifo

open CMemory Framing Transition

def Setup.feed {n : ℕ} (S : Setup n) (i : Fin n) (lines : List TextLine) : Setup n :=
  { S with stdin := Function.update S.stdin i (joined lines) }

namespace Writer

def Between (w : Writer) : Prop := w.pc = .top ∨ w.pc = .poll ∨ w.pc = .fgets

def AtEnd (w : Writer) : Prop := w.stdin = [] ∧ w.Between

end Writer

def WriterPc.live : WriterPc → Bool
  | .exited _ | .killed | .fault => false
  | _ => true

def Writer.Live (w : Writer) : Prop := w.stopFlag = false ∧ w.pc.live = true

/-- The frames that writer `i` sends are those of `texts`, in every state of a run as far as it has
come, all of them at the end of its input, and the end can be reached as long as there is a reader
and no reason to stop. -/
structure OneFramePerLine {n : ℕ} (S : Setup n) (i : Fin n) (texts : List (List Byte)) : Prop where
  ordered : ∀ c, (channel S).Reachable c →
    (c.writers i).taken <+: texts ∧ (c.writers i).sent <+: frames S.order texts
  complete : ∀ c, (channel S).Reachable c → (c.writers i).AtEnd →
    (c.writers i).sent = frames S.order texts
  reached : ∀ c, (channel S).Reachable c → c.reader.fd = true → (c.writers i).Live →
    ∃ d, (channel S).PathWhile (fun _ _ => True) c d ∧ (d.writers i).AtEnd

namespace Writer

variable {o : ByteOrder} {v : Variant} {stdin : List Byte} {w t : Writer} {a : WriterAction}

theorem Between.sent (h : w.Between) (hc : w.Correct o stdin) : w.sent = frames o w.taken := by
  have hp := hc.placed
  rcases h with hpc | hpc | hpc <;> simp only [Placed, hpc] at hp <;> exact hp

theorem AtEnd.taken (h : w.AtEnd) (hc : w.Correct o stdin) : w.taken = stdinTexts stdin := by
  have ht := hc.taken
  rw [h.1] at ht
  rw [← ht]
  exact (List.append_nil _).symm

theorem takeLine_next (next : WriterPc) (hb : w.bufWrite.length = bufSize) (hi : w.stdin ≠ []) :
    (w.takeLine next).pc = next ∧ (w.takeLine next).totalWritten = 0 ∧
      (w.takeLine next).stopFlag = w.stopFlag ∧ (w.takeLine next).len ≤ bufSize ∧
      (w.takeLine next).stdin.length < w.stdin.length := by
  obtain ⟨buf, buf', rest, hf, hs, -, hbuf'⟩ := fgets_strip (by decide) hb.ge hi
  have hline := line_length_pos (n := bufSize - 1) (by decide) hi
  have hle := lineText_length_le (bufSize - 1) w.stdin
  have hstdin := List.length_pos_iff.mpr hi
  simp only [takeLine, hf, hs]
  refine ⟨trivial, trivial, trivial, ?_, ?_⟩
  · rw [strlen, hbuf', cString_lineText]
    simp only [bufSize] at *
    omega
  · rw [List.length_drop]
    omega

def rank (w : Writer) : ℕ :=
  16 * w.stdin.length +
    match w.pc with
    | .headerTest => if w.totalWritten < sizeofLen then 9 else 7
    | .headerWrite => 8
    | .payloadTest => if w.totalWritten < w.len then 6 else 4
    | .payloadWrite => 5
    | .open => 4
    | .top => 3
    | .poll => 2
    | .fgets => 1
    | _ => 0

structure Sending (v : Variant) (w : Writer) : Prop where
  whole : v = .basics → w.pc = .headerWrite → w.totalWritten = 0
  absent : v = .basics → w.pc ≠ .poll ∧ w.pc ≠ .headerTest
  len : w.len ≤ bufSize

theorem initial_sending (v : Variant) (stdin : List Byte) : (initial stdin).Sending v := by
  refine ⟨?_, ?_, Nat.zero_le _⟩
  · intro _ hpc
    cases hpc
  · intro _
    exact ⟨by rintro ⟨⟩, by rintro ⟨⟩⟩

theorem takeLine_end {next : WriterPc} (hi : w.stdin = []) :
    w.takeLine next = w.die (.perror "W : fgets failed") := by
  have hf : CMemory.fgets w.bufWrite bufSize w.stdin = none := if_pos hi
  rw [takeLine, hf]

theorem takeLine_len {next : WriterPc} (h : w.len ≤ bufSize) (hb : w.bufWrite.length = bufSize) :
    (w.takeLine next).len ≤ bufSize := by
  by_cases hi : w.stdin = []
  · rw [takeLine_end hi]
    exact h
  · exact (takeLine_next next hb hi).2.2.2.1

theorem takeLine_headerWrite :
    ((w.takeLine .headerWrite).pc = .headerWrite → (w.takeLine .headerWrite).totalWritten = 0) ∧
      (w.takeLine .headerWrite).pc ≠ .poll ∧ (w.takeLine .headerWrite).pc ≠ .headerTest := by
  unfold takeLine
  split
  · simp [die, cleanup]
  · split <;> simp [goto]

theorem basics_sending (h : w.Sending .basics) (hn : writerMain .basics o w a = some t) :
    (t.pc = .headerWrite → t.totalWritten = 0) ∧ t.pc ≠ .poll ∧ t.pc ≠ .headerTest := by
  have hw := h.whole rfl
  have hpc := h.absent rfl
  change WriterEnd.main o w a = some t at hn
  unfold WriterEnd.main at hn
  split at hn <;> (try split_ifs at hn) <;> cases hn
  all_goals first
    | exact ⟨hw, hpc⟩
    | exact takeLine_headerWrite
    | exact ⟨by rintro ⟨⟩, by rintro ⟨⟩, by rintro ⟨⟩⟩

theorem writerMain_len (h : w.len ≤ bufSize) (hb : w.bufWrite.length = bufSize)
    (hm : WriterMove o w a t) : t.len ≤ bufSize := by
  cases hm with
  | takeLine next _ _ => exact takeLine_len h hb
  | _ => exact h

theorem writerMain_sending (h : w.Sending v) (hb : w.bufWrite.length = bufSize)
    (hn : writerMain v o w a = some t) : t.Sending v := by
  refine ⟨?_, ?_, writerMain_len h.len hb (writerMain_move hn)⟩
  · rintro rfl
    exact (basics_sending h hn).1
  · rintro rfl
    exact (basics_sending h hn).2

structure Advances (v : Variant) (o : ByteOrder) (w : Writer) (a : WriterAction) (t : Writer) :
    Prop where
  main : writerMain v o w a = some t
  allowed : ∀ r, a = .write r → writeAllowed v (w.offered o) true r = true
  live : t.Live
  rank : t.rank < w.rank

attribute [local simp] writerMain WriterEnd.main PollWriter.main

theorem rank_payloadTest_le (hpc : w.pc = .payloadTest) : w.rank ≤ 16 * w.stdin.length + 6 := by
  simp only [rank, hpc]
  split_ifs <;> omega

theorem rank_payloadTest_done (hpc : w.pc = .payloadTest) (h : ¬ w.totalWritten < w.len) :
    w.rank = 16 * w.stdin.length + 4 := by
  simp only [rank, hpc, if_neg h]

theorem rank_headerTest_done (hpc : w.pc = .headerTest) (h : ¬ w.totalWritten < sizeofLen) :
    w.rank = 16 * w.stdin.length + 7 := by
  simp only [rank, hpc, if_neg h]

theorem top_advances (hl : w.Live) (hpc : w.pc = .top) : ∃ a t, Advances v o w a t := by
  cases v with
  | basics =>
    refine ⟨.run, w.goto .fgets, ?_, nofun, ⟨hl.1, rfl⟩, ?_⟩
    · simp [writerMain, WriterEnd.main, hpc, hl.1]
    · simp [rank, goto, hpc]
  | nonblock =>
    refine ⟨.run, w.goto .poll, ?_, nofun, ⟨hl.1, rfl⟩, ?_⟩
    · simp [writerMain, PollWriter.main, hpc, hl.1]
    · simp [rank, goto, hpc]

theorem fgets_advances (hc : w.Correct o stdin) (hl : w.Live) (hpc : w.pc = .fgets)
    (hd : ¬ w.AtEnd) : ∃ a t, Advances v o w a t := by
  have hi : w.stdin ≠ [] := by
    intro hi
    exact hd ⟨hi, .inr (.inr hpc)⟩
  cases v with
  | basics =>
    obtain ⟨hpc', -, hstop, -, hlen⟩ := takeLine_next .headerWrite hc.buffer hi
    refine ⟨.fgets true, w.takeLine .headerWrite, ?_, nofun, ⟨hstop.trans hl.1, ?_⟩, ?_⟩
    · simp [writerMain, WriterEnd.main, hpc]
    · rw [hpc']
      rfl
    · simp only [rank, hpc, hpc']
      omega
  | nonblock =>
    obtain ⟨hpc', -, hstop, -, hlen⟩ := takeLine_next .headerTest hc.buffer hi
    refine ⟨.fgets true, w.takeLine .headerTest, ?_, nofun, ⟨hstop.trans hl.1, ?_⟩, ?_⟩
    · simp [writerMain, PollWriter.main, hpc]
    · rw [hpc']
      rfl
    · simp only [rank, hpc, hpc']
      split_ifs <;> omega

theorem headerTest_advances (hl : w.Live) (hpc : w.pc = .headerTest) :
    ∃ a t, Advances .nonblock o w a t := by
  by_cases hlt : w.totalWritten < sizeofLen
  · refine ⟨.run, w.goto .headerWrite, ?_, nofun, ⟨hl.1, rfl⟩, ?_⟩
    · simp [writerMain, PollWriter.main, hpc, hlt]
    · simp [rank, goto, hpc, hlt]
  · refine ⟨.run, w.startPayload, ?_, nofun, ⟨hl.1, rfl⟩, ?_⟩
    · simp [writerMain, PollWriter.main, hpc, hlt]
    · apply (rank_payloadTest_le rfl).trans_lt
      simp only [rank, hpc, startPayload, if_neg hlt]
      omega

theorem headerWrite_advances (hc : w.Correct o stdin) (hz : w.Sending v) (hl : w.Live)
    (hpc : w.pc = .headerWrite) : ∃ a t, Advances v o w a t := by
  have hlt : w.totalWritten < sizeofLen := by
    have hp := hc.placed
    simp only [Placed, hpc] at hp
    exact hp.1
  have hlen : (w.offered o).length = sizeofLen - w.totalWritten := by
    rw [offered_header hpc, List.length_drop, uint32Bytes_length]
    rfl
  refine ⟨.write (.wrote (w.offered o).length), ?_⟩
  have hallowed : ∀ r, WriterAction.write (.wrote (w.offered o).length) = .write r →
      writeAllowed v (w.offered o) true r = true := by
    rintro _ ⟨⟩
    simp only [writeAllowed, decide_eq_true_eq]
    exact ⟨by omega, le_rfl, trivial⟩
  cases v with
  | basics =>
    have hfour : (w.offered o).length = sizeofLen := by rw [hlen, hz.whole rfl hpc, Nat.sub_zero]
    refine ⟨(w.wrote o (w.offered o).length .headerWrite).startPayload, ?_, hallowed, ⟨hl.1, rfl⟩, ?_⟩
    · simp only [writerMain, WriterEnd.main, hpc, hfour, if_true]
    · apply (rank_payloadTest_le rfl).trans_lt
      simp only [rank, hpc, startPayload, wrote]
      omega
  | nonblock =>
    refine ⟨w.wrote o (w.offered o).length .headerTest, ?_, hallowed, ⟨hl.1, rfl⟩, ?_⟩
    · simp only [writerMain, PollWriter.main, hpc]
    · have htotal : ¬ w.totalWritten + (w.offered o).length < sizeofLen := by omega
      rw [rank_headerTest_done rfl htotal]
      simp only [rank, hpc, wrote]
      omega

theorem payloadTest_advances (hl : w.Live) (hpc : w.pc = .payloadTest) :
    ∃ a t, Advances v o w a t := by
  by_cases hlt : w.totalWritten < w.len
  · refine ⟨.run, w.goto .payloadWrite, ?_, nofun, ⟨hl.1, rfl⟩, ?_⟩
    · cases v
      · simp [writerMain, WriterEnd.main, hpc, hlt, hl.1]
      · simp [writerMain, PollWriter.main, hpc, hlt]
    · simp [rank, goto, hpc, hlt]
  · refine ⟨.run, w.goto .top, ?_, nofun, ⟨hl.1, rfl⟩, ?_⟩
    · cases v
      · simp [writerMain, WriterEnd.main, hpc, hlt]
      · simp [writerMain, PollWriter.main, hpc, hlt]
    · simp [rank, goto, hpc, hlt]

theorem payloadWrite_advances (hc : w.Correct o stdin) (hz : w.Sending v) (hl : w.Live)
    (hpc : w.pc = .payloadWrite) : ∃ a t, Advances v o w a t := by
  have hlt : w.totalWritten < w.len := by
    have hp := hc.placed
    simp only [Placed, hpc] at hp
    exact hp.1
  have hoff : (w.offered o).length = w.len - w.totalWritten := by
    have hlen := hz.len
    rw [← hc.buffer] at hlen
    rw [offered_payload hpc, List.length_drop, List.length_take, Nat.min_eq_left hlen]
  refine ⟨.write (.wrote (w.offered o).length), w.wrote o (w.offered o).length .payloadTest, ?_, ?_,
    ⟨hl.1, rfl⟩, ?_⟩
  · cases v
    · simp only [writerMain, WriterEnd.main, hpc]
    · simp only [writerMain, PollWriter.main, hpc]
  · rintro _ ⟨⟩
    simp only [writeAllowed, decide_eq_true_eq]
    exact ⟨by omega, le_rfl, trivial⟩
  · have htotal : ¬ w.totalWritten + (w.offered o).length < w.len := by omega
    rw [rank_payloadTest_done rfl htotal]
    simp only [rank, hpc, wrote]
    omega

theorem goes_on (hc : w.Correct o stdin) (hz : w.Sending v) (hl : w.Live) (hd : ¬ w.AtEnd) :
    ∃ a t, Advances v o w a t := by
  cases hpc : w.pc with
  | «open» =>
    refine ⟨.openFifo true, { w with fd := true, pc := .top }, ?_, nofun, ⟨hl.1, rfl⟩, ?_⟩
    · cases v
      · simp [writerMain, WriterEnd.main, hpc]
      · simp [writerMain, PollWriter.main, hpc]
    · simp [rank, hpc]
  | top => exact top_advances hl hpc
  | poll =>
    cases v with
    | basics => exact absurd hpc (hz.absent rfl).1
    | nonblock =>
      refine ⟨.poll (.ready true false), w.goto .fgets, ?_, nofun, ⟨hl.1, rfl⟩, ?_⟩
      · simp [writerMain, PollWriter.main, hpc]
      · simp [rank, goto, hpc]
  | fgets => exact fgets_advances hc hl hpc hd
  | headerTest =>
    cases v with
    | basics => exact absurd hpc (hz.absent rfl).2
    | nonblock => exact headerTest_advances hl hpc
  | headerWrite => exact headerWrite_advances hc hz hl hpc
  | payloadTest => exact payloadTest_advances hl hpc
  | payloadWrite => exact payloadWrite_advances hc hz hl hpc
  | exited _ | killed | fault => rw [Live, hpc] at hl; cases hl.2

end Writer

namespace Channel

variable {n : ℕ} {S : Setup n} {c d : Channel n} {i : Fin n}

theorem sending_reachable (h : (channel S).Reachable c) (i : Fin n) :
    (c.writers i).Sending (S.writer i) := by
  apply System.Reachable.induct (I := fun c => (c.writers i).Sending (S.writer i)) ?_ ?_ h
  · rintro _ rfl
    exact Writer.initial_sending (S.writer i) (S.stdin i)
  · intro c a d hr hs hn
    have hb := ((processes_reachable hr).writers i).buffer
    cases a with
    | reader b =>
      obtain ⟨-, hm⟩ := Option.ite_none_right_eq_some.mp hn
      obtain ⟨r, -, rfl⟩ := Option.map_eq_some_iff.mp hm
      exact hs
    | writer j b =>
      obtain ⟨-, w, hw, rfl⟩ := writer_cases hn
      change (Function.update c.writers j w i).Sending (S.writer i)
      by_cases hj : i = j
      · subst hj
        rw [Function.update_self]
        exact Writer.writerMain_sending hs hb hw
      · rw [Function.update_of_ne hj]
        exact hs

theorem end_reached (h : (channel S).Reachable c) (hfd : c.reader.fd = true)
    (hl : (c.writers i).Live) :
    ∃ d, (channel S).PathWhile (fun _ _ => True) c d ∧ (d.writers i).AtEnd := by
  apply System.progress_from
    (I := fun c => (channel S).Reachable c ∧ c.reader.fd = true ∧ (c.writers i).Live)
    (fun c => (c.writers i).rank) ?_ ⟨h, hfd, hl⟩
  rintro c ⟨hr, hfd, hl⟩ hd
  obtain ⟨a, t, ha⟩ := Writer.goes_on (o := S.order) ((processes_reachable hr).writers i)
    (sending_reachable hr i) hl hd
  have hallowed : c.writerAllowed S i a = true := by
    cases a with
    | write r =>
      rw [writerAllowed, hfd]
      exact ha.allowed r rfl
    | _ => rfl
  have hn : (channel S).next c (.writer i a) = some { c with
      writers := Function.update c.writers i t
      queue := c.queue ++ (c.writers i).transmits S.order a } := by
    change Channel.next S c (.writer i a) = _
    rw [Channel.next, if_pos hallowed, ha.main]
    rfl
  refine ⟨_, ⟨_, trivial, hn⟩, ⟨hr.step _ hn, hfd, ?_⟩, ?_⟩
  · change (Function.update c.writers i t i).Live
    rw [Function.update_self]
    exact ha.live
  · change (Function.update c.writers i t i).rank < _
    rw [Function.update_self]
    exact ha.rank

theorem reader_opened (S : Setup n) : ∃ c, (channel S).Reachable c ∧ c.reader.fd = true ∧
    c.writers = (Channel.start S).writers := by
  have hrun : ∃ c, (channel S).run (Channel.start S) [.reader (.mkfifo (some true)),
      .reader (.openFifo true)] = some c ∧ c.reader.fd = true ∧
        c.writers = (Channel.start S).writers := by
    obtain ⟨o, writer, reader, stdin⟩ := S
    cases reader <;> exact ⟨_, rfl, rfl, rfl⟩
  obtain ⟨c, hc, hfd, hw⟩ := hrun
  exact ⟨c, .run _ (.init rfl) hc, hfd, hw⟩

end Channel

theorem frames_eq_nil {o : ByteOrder} {texts : List (List Byte)} (h : frames o texts = []) :
    texts = [] := by
  cases texts with
  | nil => rfl
  | cons t texts =>
    have hlen := congrArg List.length h
    rw [← List.singleton_append, frames_append, frames_singleton] at hlen
    simp at hlen

theorem taken_frames {o : ByteOrder} {taken texts : List (List Byte)} (h : taken <+: texts) :
    frames o taken <+: frames o texts := by
  obtain ⟨more, rfl⟩ := h
  rw [frames_append]
  exact List.prefix_append _ _

theorem stdinTexts_joined (lines : List TextLine) :
    stdinTexts (joined lines) = lines.flatMap (pieces (bufSize - 1)) :=
  chunks_joined (bufSize - 1) lines

@[simp] theorem Setup.feed_stdin {n : ℕ} (S : Setup n) (i : Fin n) (lines : List TextLine) :
    (S.feed i lines).stdin i = joined lines := Function.update_self _ _ _

theorem taken_at_end {n : ℕ} {S : Setup n} {i : Fin n} {c : Channel n}
    (h : (channel S).Reachable c) (he : (c.writers i).AtEnd) :
    (c.writers i).taken = stdinTexts (S.stdin i) :=
  he.taken ((Channel.processes_reachable h).writers i)

theorem stdinTexts_of_frames {n : ℕ} {S : Setup n} {i : Fin n} {texts : List (List Byte)}
    (h : OneFramePerLine S i texts) : stdinTexts (S.stdin i) = texts := by
  obtain ⟨c, hr, hfd, hw⟩ := Channel.reader_opened S
  have hl : (c.writers i).Live := by
    rw [hw]
    exact ⟨rfl, rfl⟩
  obtain ⟨d, hp, he⟩ := h.reached c hr hfd hl
  have hd : (channel S).Reachable d := hr.path hp
  have hc := (Channel.processes_reachable hd).writers i
  obtain ⟨⟨more, hmore⟩, -⟩ := h.ordered d hd
  have hframes := (he.2.sent hc).symm.trans (h.complete d hd he)
  rw [← hmore, frames_append, List.self_eq_append_right] at hframes
  rw [← taken_at_end hd he, ← hmore, frames_eq_nil hframes, List.append_nil]

theorem oneFramePerLine_of_stdinTexts {n : ℕ} (S : Setup n) (i : Fin n) :
    OneFramePerLine S i (stdinTexts (S.stdin i)) where
  ordered c hr := by
    have hc := (Channel.processes_reachable hr).writers i
    have ht : (c.writers i).taken <+: stdinTexts (S.stdin i) := ⟨_, hc.taken⟩
    exact ⟨ht, hc.placed.sent_prefix.trans (taken_frames ht)⟩
  complete c hr he := by
    rw [he.2.sent ((Channel.processes_reachable hr).writers i), taken_at_end hr he]
  reached c hr hfd hl := Channel.end_reached hr hfd hl

/-- A writer of either program sends one frame for each line exactly where no line has more than 254
bytes, whoever else writes to the FIFO and whatever the calls return. -/
theorem one_frame_per_line_iff {n : ℕ} (S : Setup n) (i : Fin n) (lines : List TextLine) :
    OneFramePerLine (S.feed i lines) i (lines.map TextLine.text) ↔
      ∀ l ∈ lines, l.text.length < bufSize - 1 := by
  constructor
  · intro h
    have ht := stdinTexts_of_frames h
    rw [Setup.feed_stdin, stdinTexts_joined] at ht
    apply short_of_pieces (by decide)
    rw [ht, List.length_map]
  · intro h
    have ho := oneFramePerLine_of_stdinTexts (S.feed i lines) i
    rwa [Setup.feed_stdin, stdinTexts_joined, pieces_short h] at ho

def fullLine : TextLine where
  text := List.replicate (bufSize - 1) 97
  plain := by
    intro b hb
    rw [List.eq_of_mem_replicate hb]
    decide

theorem fullLine_pieces : stdinTexts (joined [fullLine]) ≠ [fullLine.text] := by
  intro h
  rw [stdinTexts_joined] at h
  have hshort := short_of_pieces (n := bufSize - 1) (by decide) (by rw [h]; rfl) fullLine (by simp)
  rw [fullLine, List.length_replicate] at hshort
  exact lt_irrefl _ hshort

theorem full_line_split :
    ¬ OneFramePerLine ((oneWriter .little .basics .basics []).feed 0 [fullLine]) 0
        [fullLine.text] ∧
      ¬ OneFramePerLine ((oneWriter .little .nonblock .nonblock []).feed 0 [fullLine]) 0
        [fullLine.text] := by
  constructor <;>
  · intro h
    have ht := stdinTexts_of_frames h
    rw [Setup.feed_stdin] at ht
    exact fullLine_pieces ht

end LinuxSystemProgramming.Fifo
