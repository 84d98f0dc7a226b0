import LinuxSystemProgramming.Fifo.EndOfStream
import LinuxSystemProgramming.Fifo.LinePerFrame
import Mathlib.Algebra.BigOperators.Fin

namespace LinuxSystemProgramming.Fifo

open CMemory Framing Transition

def WriterAction.disturbs : WriterAction → Bool
  | .signal | .kill | .openFifo false | .fgets false | .write (.error _) => true
  | .poll .timeout | .poll (.error _) => true
  | _ => false

/-- No signal comes and no call fails or has to be repeated. The blocking `write` of four bytes
takes them all, and the reader's `open` returns only once the writer has opened the FIFO. -/
def Works (v : Variant) (c : Channel 1) : ChannelAction 1 → Prop
  | .writer i a => a.disturbs = false ∧
      (v = .basics → (c.writers i).pc = .headerWrite → ∀ n, a = .write (.wrote n) → n = sizeofLen)
  | .reader a => a ≠ .signal ∧ a.fails .basics = false ∧ a.retries = false ∧
      (a = .openFifo true → ∀ i, (c.writers i).pc ≠ .open)

inductive WriterGoes (o : ByteOrder) (w : Writer) : WriterAction → Writer → Prop
  | opened (h : w.pc = .open) : WriterGoes o w (.openFifo true) { w with fd := true, pc := .top }
  | top (a : WriterAction) (pc : WriterPc) (h : w.pc = .top) (hpc : pc = .poll ∨ pc = .fgets)
      (ha : w.transmits o a = []) : WriterGoes o w a (w.goto pc)
  | polled (a : WriterAction) (h : w.pc = .poll) (ha : w.transmits o a = []) :
      WriterGoes o w a (w.goto .fgets)
  | takeLine (next : WriterPc) (h : w.pc = .fgets) (hn : next = .headerTest ∨ next = .headerWrite) :
      WriterGoes o w (.fgets true) (w.takeLine next)
  | headerTest (h : w.pc = .headerTest) (hl : w.totalWritten < sizeofLen) :
      WriterGoes o w .run (w.goto .headerWrite)
  | startPayload (h : w.pc = .headerTest) (hl : ¬ w.totalWritten < sizeofLen) :
      WriterGoes o w .run w.startPayload
  | headerWrote (n : ℕ) (h : w.pc = .headerWrite) :
      WriterGoes o w (.write (.wrote n)) (w.wrote o n .headerTest)
  | headerWhole (h : w.pc = .headerWrite) :
      WriterGoes o w (.write (.wrote sizeofLen)) (w.wrote o sizeofLen .headerWrite).startPayload
  | payloadTest (h : w.pc = .payloadTest) (hl : w.totalWritten < w.len) :
      WriterGoes o w .run (w.goto .payloadWrite)
  | payloadDone (h : w.pc = .payloadTest) (hl : ¬ w.totalWritten < w.len) :
      WriterGoes o w .run (w.goto .top)
  | payloadWrote (n : ℕ) (h : w.pc = .payloadWrite) :
      WriterGoes o w (.write (.wrote n)) (w.wrote o n .payloadTest)

namespace Writer

variable {v : Variant} {o : ByteOrder} {stdin : List Byte} {w t : Writer} {a : WriterAction}

theorem goes_basics (h : WriterEnd.main o w a = some t) (hs : ¬ w.stopFlag = true)
    (ha : a.disturbs = false)
    (hw : w.pc = .headerWrite → ∀ n, a = .write (.wrote n) → n = sizeofLen) :
    WriterGoes o w a t := by
  unfold WriterEnd.main at h
  split at h <;> (try split_ifs at h) <;> cases h
  all_goals first
    | (cases ha; done)
    | exact absurd ‹_› hs
    | exact .opened ‹_›
    | exact .top _ .fgets ‹_› (.inr rfl) rfl
    | exact .takeLine _ ‹_› (.inr rfl)
    | (subst_vars; exact .headerWhole ‹_›)
    | exact .payloadTest ‹_› ‹_›
    | exact .payloadDone ‹_› ‹_›
    | exact .payloadWrote _ ‹_›
    | exact absurd (hw ‹_› _ rfl) ‹_›

theorem disturbs_poll {r : PollResult} (h : ∀ pollin pollhup, r = .ready pollin pollhup → False) :
    (WriterAction.poll r).disturbs = true := by
  cases r with
  | ready pollin pollhup => exact (h pollin pollhup rfl).elim
  | timeout | error e => rfl

theorem goes_nonblock (h : PollWriter.main o w a = some t) (hs : ¬ w.stopFlag = true)
    (ha : a.disturbs = false) : WriterGoes o w a t := by
  unfold PollWriter.main at h
  split at h <;> (try split_ifs at h) <;> cases h
  all_goals first
    | (cases ha; done)
    | exact absurd ‹_› hs
    | exact .opened ‹_›
    | exact .top _ .poll ‹_› (.inl rfl) rfl
    | exact absurd ((disturbs_poll ‹_›).symm.trans ha) (by decide)
    | exact .polled _ ‹_› rfl
    | exact .takeLine _ ‹_› (.inl rfl)
    | exact .headerTest ‹_› ‹_›
    | exact .startPayload ‹_› ‹_›
    | exact .headerWrote _ ‹_›
    | exact .payloadTest ‹_› ‹_›
    | exact .payloadDone ‹_› ‹_›
    | exact .payloadWrote _ ‹_›

theorem writer_goes (h : writerMain v o w a = some t) (hs : ¬ w.stopFlag = true)
    (ha : a.disturbs = false)
    (hw : v = .basics → w.pc = .headerWrite → ∀ n, a = .write (.wrote n) → n = sizeofLen) :
    WriterGoes o w a t := by
  cases v with
  | basics => exact goes_basics h hs ha (hw rfl)
  | nonblock => exact goes_nonblock h hs ha

theorem goes_move (h : WriterGoes o w a t) : WriterMove o w a t := by
  cases h with
  | opened h => exact .opened h
  | top a pc h hpc ha => exact .idle a pc (.inl h) (.inr hpc) ha
  | polled a h ha => exact .idle a .fgets (.inr h) (.inr (.inr rfl)) ha
  | takeLine next h hn => exact .takeLine next h hn
  | headerTest h hl => exact .headerTest h hl
  | startPayload h hl => exact .startPayload h hl
  | headerWrote n h => exact .headerWrote n h
  | headerWhole h => exact .headerWhole h
  | payloadTest h hl => exact .payloadTest h hl
  | payloadDone h hl => exact .payloadDone h hl
  | payloadWrote n h => exact .payloadWrote n h

def Runs (o : ByteOrder) (w : Writer) : Prop :=
  w.stopFlag = false ∧
    match w.pc with
    | .open => True
    | .exited _ => w.fd = false ∧ w.stdin = [] ∧ w.sent = frames o w.taken
    | .killed | .fault => False
    | _ => w.fd = true

theorem takeLine_runs {next : WriterPc} (h : w.Runs o) (hc : w.Correct o stdin)
    (hpc : w.pc = .fgets) (hn : next = .headerTest ∨ next = .headerWrite) :
    (w.takeLine next).Runs o := by
  simp only [Runs, hpc] at h
  by_cases hi : w.stdin = []
  · rw [takeLine_end hi]
    exact ⟨h.1, rfl, hi, Between.sent (w := w) (.inr (.inr hpc)) hc⟩
  · obtain ⟨buf, buf', rest, hf, hs, -⟩ := fgets_strip (by decide) hc.buffer.ge hi
    simp only [takeLine, hf, hs]
    rcases hn with rfl | rfl <;> exact h

theorem goes_not_open (hg : WriterGoes o w a t) : t.pc ≠ .open := by
  cases hg with
  | takeLine next hpc hn =>
    unfold takeLine
    split
    · rintro ⟨⟩
    · split
      · rintro ⟨⟩
      · rcases hn with rfl | rfl <;> rintro ⟨⟩
  | top a pc hpc hpc' ha => rcases hpc' with rfl | rfl <;> rintro ⟨⟩
  | _ => rintro ⟨⟩

theorem goes_runs (h : w.Runs o) (hc : w.Correct o stdin) (hg : WriterGoes o w a t) :
    t.Runs o := by
  cases hg with
  | opened hpc => exact ⟨h.1, rfl⟩
  | top a pc hpc hpc' _ =>
    simp only [Runs, hpc] at h
    rcases hpc' with rfl | rfl <;> exact h
  | takeLine next hpc hn => exact takeLine_runs h hc hpc hn
  | polled a hpc | headerTest hpc hl | startPayload hpc hl | headerWrote n hpc | headerWhole hpc
  | payloadTest hpc hl | payloadDone hpc hl | payloadWrote n hpc =>
    simp only [Runs, hpc] at h
    exact h

def position (w : Writer) : ℕ :=
  match w.pc with
  | .open => 5
  | .top => 4
  | .poll => 3
  | .fgets => 2
  | .headerTest => if w.totalWritten < sizeofLen then 5 else 10
  | .headerWrite => 4
  | .payloadTest => if w.totalWritten < w.len then 9 else 5
  | .payloadWrite => 8
  | _ => 0

def left (o : ByteOrder) (w : Writer) : ℕ :=
  6000 * w.stdin.length + 20 * ((frames o w.taken).length - w.sent.length) + w.position

theorem position_le (w : Writer) : w.position ≤ 10 := by
  unfold position
  split <;> (try split_ifs) <;> omega

theorem takeLine_taken (next : WriterPc) (hb : w.bufWrite.length = bufSize) (hi : w.stdin ≠ []) :
    ∃ text, (w.takeLine next).taken = w.taken ++ [text] := by
  obtain ⟨buf, buf', rest, hf, hs, -⟩ := fgets_strip (by decide) hb.ge hi
  exact ⟨cString buf', by simp only [takeLine, hf, hs]⟩

theorem takeLine_left {next : WriterPc} (hc : w.Correct o stdin) (hpc : w.pc = .fgets)
    (ht : (w.takeLine next).Correct o stdin) : (w.takeLine next).left o < w.left o := by
  by_cases hi : w.stdin = []
  · rw [takeLine_end hi]
    simp only [left, position, hpc, die, cleanup]
    omega
  · obtain ⟨text, htaken⟩ := takeLine_taken next hc.buffer hi
    have hlen := (takeLine_next next hc.buffer hi).2.2.2.2
    have htext : text.length < bufSize := by
      apply (ht.texts text _).1
      rw [htaken]
      simp
    have hframes : (frames o (w.takeLine next).taken).length =
        (frames o w.taken).length + (4 + (text.length + 1)) := by
      rw [htaken, frames_append, frames_singleton]
      simp
    have hpos := position_le (w.takeLine next)
    simp only [left, hframes, takeLine_sent]
    simp only [bufSize] at htext
    omega

theorem goes_position (hg : WriterGoes o w a t) (hf : w.pc ≠ .fgets)
    (hk : ∀ n, a = .write (.wrote n) → 0 < n ∧ n ≤ (w.offered o).length) :
    t.position < w.position + 10 * (w.transmits o a).length := by
  have hle := position_le t
  cases hg with
  | takeLine next hpc hn => exact absurd hpc hf
  | top a pc hpc hpc' ha =>
    apply Nat.lt_add_right
    rcases hpc' with rfl | rfl <;> simp [position, goto, hpc]
  | headerWrote n hpc | headerWhole hpc | payloadWrote n hpc =>
    obtain ⟨hpos, hn⟩ := hk _ rfl
    simp only [transmits, List.length_take, Nat.min_eq_left hn, position, hpc] at hle ⊢
    omega
  | startPayload hpc hl =>
    have hold : w.position = 10 := by simp only [position, hpc, if_neg hl]
    have hnew : w.startPayload.position ≤ 9 := by
      by_cases h0 : 0 < w.len <;> simp [position, startPayload, h0]
    omega
  | opened hpc | polled a hpc | headerTest hpc hl | payloadTest hpc hl | payloadDone hpc hl =>
    apply Nat.lt_add_right
    simp [position, goto, *]

theorem goes_left (hc : w.Correct o stdin) (ht : t.Correct o stdin) (hg : WriterGoes o w a t)
    (hk : ∀ n, a = .write (.wrote n) → 0 < n ∧ n ≤ (w.offered o).length) :
    t.left o + 10 * (w.transmits o a).length < w.left o := by
  by_cases hf : w.pc = .fgets
  · cases hg with
    | takeLine next hpc hn => exact takeLine_left hc hpc ht
    | _ => simp_all
  · have hm := goes_move hg
    obtain ⟨htaken, hstdin, -⟩ := move_frame hm hf
    have hsent := congrArg List.length (move_sent hm)
    have hle := ht.placed.sent_prefix.length_le
    have hpos := goes_position hg hf hk
    rw [List.length_append] at hsent
    rw [htaken] at hle
    simp only [left, htaken, hstdin]
    omega

structure Proceeds (v : Variant) (o : ByteOrder) (w : Writer) (a : WriterAction) : Prop where
  main : (writerMain v o w a).isSome = true
  calm : a.disturbs = false
  allowed : ∀ r, a = .write r → writeAllowed v (w.offered o) true r = true
  whole : v = .basics → w.pc = .headerWrite → ∀ n, a = .write (.wrote n) → n = sizeofLen

theorem open_proceeds (hpc : w.pc = .open) : Proceeds v o w (.openFifo true) := by
  refine ⟨?_, rfl, by simp, by simp⟩
  cases v
  · simp only [writerMain, WriterEnd.main, hpc, Option.isSome_some]
  · simp only [writerMain, PollWriter.main, hpc, Option.isSome_some]

theorem run_proceeds (hs : w.stopFlag = false) (hz : w.Sending v)
    (hpc : w.pc = .top ∨ w.pc = .headerTest ∨ w.pc = .payloadTest) : Proceeds v o w .run := by
  refine ⟨?_, rfl, by simp, by simp⟩
  cases v with
  | basics =>
    rcases hpc with hpc | hpc | hpc
    · simp [writerMain, WriterEnd.main, hpc, hs]
    · exact absurd hpc (hz.absent rfl).2
    · by_cases hl : w.totalWritten < w.len
      · simp [writerMain, WriterEnd.main, hpc, hs, hl]
      · simp [writerMain, WriterEnd.main, hpc, hl]
  | nonblock =>
    rcases hpc with hpc | hpc | hpc
    · simp [writerMain, PollWriter.main, hpc, hs]
    · by_cases hl : w.totalWritten < sizeofLen
      · simp [writerMain, PollWriter.main, hpc, hl]
      · simp [writerMain, PollWriter.main, hpc, hl]
    · by_cases hl : w.totalWritten < w.len
      · simp [writerMain, PollWriter.main, hpc, hl]
      · simp [writerMain, PollWriter.main, hpc, hl]

theorem write_proceeds (hc : w.Correct o stdin) (hz : w.Sending v)
    (hpc : w.pc = .headerWrite ∨ w.pc = .payloadWrite) :
    Proceeds v o w (.write (.wrote (w.offered o).length)) := by
  have hp := hc.placed
  have hpos : 0 < (w.offered o).length := by
    rcases hpc with hpc | hpc <;> simp only [Placed, hpc] at hp
    · rw [offered_header hpc, List.length_drop, uint32Bytes_length]
      simp only [sizeofLen] at hp
      omega
    · have hlen := hz.len
      rw [← hc.buffer] at hlen
      rw [offered_payload hpc, List.length_drop, List.length_take, Nat.min_eq_left hlen]
      omega
  have hwhole : v = .basics → w.pc = .headerWrite → (w.offered o).length = sizeofLen := by
    intro hv hpc
    rw [offered_header hpc, hz.whole hv hpc, List.drop_zero, uint32Bytes_length]
    rfl
  refine ⟨?_, rfl, ?_, ?_⟩
  · cases v with
    | basics =>
      rcases hpc with hpc | hpc
      · rw [hwhole rfl hpc]
        simp only [writerMain, WriterEnd.main, hpc, if_true, Option.isSome_some]
      · simp only [writerMain, WriterEnd.main, hpc, Option.isSome_some]
    | nonblock =>
      rcases hpc with hpc | hpc <;>
        simp only [writerMain, PollWriter.main, hpc, Option.isSome_some]
  · rintro _ ⟨⟩
    simp only [writeAllowed, decide_eq_true_eq]
    exact ⟨hpos, le_rfl, trivial⟩
  · rintro hv hpc _ ⟨⟩
    exact hwhole hv hpc

theorem writer_proceeds (hr : w.Runs o) (hc : w.Correct o stdin) (hz : w.Sending v)
    (he : ∀ r, w.pc ≠ .exited r) : ∃ a, Proceeds v o w a := by
  have hlive := hr.2
  cases hpc : w.pc with
  | «open» => exact ⟨_, open_proceeds hpc⟩
  | top => exact ⟨_, run_proceeds hr.1 hz (.inl hpc)⟩
  | headerTest => exact ⟨_, run_proceeds hr.1 hz (.inr (.inl hpc))⟩
  | payloadTest => exact ⟨_, run_proceeds hr.1 hz (.inr (.inr hpc))⟩
  | headerWrite => exact ⟨_, write_proceeds hc hz (.inl hpc)⟩
  | payloadWrite => exact ⟨_, write_proceeds hc hz (.inr hpc)⟩
  | poll =>
    cases v with
    | basics => exact absurd hpc (hz.absent rfl).1
    | nonblock =>
      refine ⟨.poll (.ready false false), ?_, rfl, by simp, by simp⟩
      simp only [writerMain, PollWriter.main, hpc, Option.isSome_some]
  | fgets =>
    refine ⟨.fgets true, ?_, rfl, by simp, by simp⟩
    cases v
    · simp only [writerMain, WriterEnd.main, hpc, Option.isSome_some]
    · simp only [writerMain, PollWriter.main, hpc, Option.isSome_some]
  | exited r => exact absurd hpc (he r)
  | killed | fault => simp only [hpc] at hlive

end Writer

def ReaderPc.early : ReaderPc → Bool
  | .mkfifo | .open => true
  | _ => false

namespace Reader

variable {o : ByteOrder} {s t : Reader} {a : ReaderAction}

theorem move_not_exited (hm : ReaderMove .basics o s a t) (ha : a ≠ .signal)
    (status : ExitStatus) (report : Report) : s.pc ≠ .exited status report := by
  intro hpc
  cases hm with
  | signal => exact ha rfl
  | die a msg hd _ _ => simp only [CanDie, hpc] at hd
  | _ => simp_all

theorem move_opened (hm : ReaderMove .basics o s a t) (hp : s.pc ≠ .poll) :
    t.pc ≠ .poll ∧ (t.pc.early = false → s.pc.early = false ∧ t.fd = s.fd ∨
      a = .openFifo true ∧ t.fd = true ∨ ∃ status report, t.pc = .exited status report) := by
  cases hm with
  | signal => exact ⟨hp, fun h => .inl ⟨h, rfl⟩⟩
  | created b hpc => exact ⟨by rintro ⟨⟩, by rintro ⟨⟩⟩
  | opened hpc => exact ⟨by rintro ⟨⟩, fun _ => .inr (.inl ⟨rfl, rfl⟩)⟩
  | callPoll hpc hv | polled hup hpc hv | nothing r hpc hv _ => cases hv
  | headerEof hpc | payloadEof hpc | die a msg _ _ _ =>
    exact ⟨by rintro ⟨⟩, fun _ => .inr (.inr ⟨_, _, rfl⟩)⟩
  | checkLength hpc hl =>
    unfold checkLength
    split_ifs
    · exact ⟨by rintro ⟨⟩, fun _ => .inr (.inr ⟨_, _, rfl⟩)⟩
    · exact ⟨by rintro ⟨⟩, fun _ => .inl ⟨by rw [hpc]; rfl, rfl⟩⟩
  | headerData bytes hpc =>
    unfold storeLength
    split <;> exact ⟨by rintro ⟨⟩, fun _ => .inl ⟨by rw [hpc]; rfl, rfl⟩⟩
  | payloadData bytes hpc =>
    unfold storePayload
    split <;> exact ⟨by rintro ⟨⟩, fun _ => .inl ⟨by rw [hpc]; rfl, rfl⟩⟩
  | printMessage hpc hl =>
    unfold printMessage
    split <;> exact ⟨by rintro ⟨⟩, fun _ => .inl ⟨by rw [hpc]; rfl, rfl⟩⟩
  | start hpc | headerTest hpc | headerRetry e hpc | allocated block hpc | payloadTest hpc
  | payloadRetry e hpc =>
    exact ⟨by rintro ⟨⟩, fun _ => .inl ⟨by rw [hpc]; rfl, rfl⟩⟩

theorem move_rank (hm : ReaderMove .basics o s a t) (hs : s.stopFlag = false) (ha : a ≠ .signal)
    (hf : a.fails .basics = false) (hretry : a.retries = false)
    (hk : ∀ bytes, a = .read (.data bytes) → bytes ≠ []) :
    t.rank < s.rank + 10 * a.received.length := by
  have hle := t.rank_le
  cases hm with
  | signal => exact absurd rfl ha
  | die a msg _ _ hd => simp [hs, hf] at hd
  | callPoll hpc hv | polled hup hpc hv | nothing r hpc hv _ => cases hv
  | headerRetry e hpc | payloadRetry e hpc =>
    cases e <;> simp [ReaderAction.fails, ReaderAction.retries] at hf hretry
  | headerData bytes hpc | payloadData bytes hpc =>
    have hpos := List.length_pos_of_ne_nil (hk bytes rfl)
    simp only [ReaderAction.received, rank, hpc] at hle ⊢
    omega
  | checkLength hpc hl =>
    apply Nat.lt_add_right
    unfold checkLength
    split_ifs <;> simp [rank, goto, die, exit, hpc, hl]
  | printMessage hpc hl =>
    apply Nat.lt_add_right
    unfold printMessage
    split <;> simp [rank, goto, hpc]
  | start hpc hv =>
    apply Nat.lt_add_right
    simp [rank, startMessage, hpc, sizeofLen]
  | created b hpc | opened hpc | headerTest hpc hl | headerEof hpc | allocated block hpc hl
  | payloadTest hpc hl | payloadEof hpc =>
    apply Nat.lt_add_right
    simp [rank, goto, cleanup, exit, die, allocated, *]

end Reader

namespace Channel

variable {o : ByteOrder} {v : Variant} {stdin : List Byte} {c d : Channel 1}

structure Runs (o : ByteOrder) (c : Channel 1) : Prop where
  quiet : c.reader.Quiet
  noPoll : c.reader.pc ≠ .poll
  writer : (c.writers 0).Runs o
  opened : c.reader.pc.early = false → (c.writers 0).pc ≠ .open ∧
    (c.reader.fd = true ∨ ∃ status report, c.reader.pc = .exited status report)
  ended : ∀ status report, c.reader.pc = .exited status report →
    c.queue = [] ∧ ∃ r, (c.writers 0).pc = .exited r

theorem runs_start (S : Setup 1) : (start S).Runs o := by
  refine ⟨Reader.quiet_initial, by rintro ⟨⟩, ⟨rfl, trivial⟩, by rintro ⟨⟩, ?_⟩
  rintro _ _ ⟨⟩

theorem connected_iff : c.connected = true ↔ (c.writers 0).fd = true := by
  simp [connected]

theorem eof_ended (h : c.Runs o) (hpc : c.reader.pc.early = false)
    (hk : c.readerAllowed (oneWriter o v .basics stdin) (.read .eof) = true) :
    c.queue = [] ∧ ∃ r, (c.writers 0).pc = .exited r := by
  simp only [readerAllowed, readAllowed, decide_eq_true_eq] at hk
  obtain ⟨hq, hc⟩ := hk
  refine ⟨hq, ?_⟩
  have hfd : ¬ (c.writers 0).fd = true := by
    rw [← connected_iff, hc]
    decide
  have hopen := (h.opened hpc).1
  have hw := h.writer.2
  cases hwpc : (c.writers 0).pc <;> rw [hwpc] at hw hopen
  case exited r => exact ⟨r, rfl⟩
  case «open» => exact absurd rfl hopen
  case killed | fault => exact hw.elim
  all_goals exact absurd hw hfd

theorem decode_consumed (h : (channel (oneWriter o v .basics stdin)).Reachable c)
    (hdr : List Byte) :
    ((fifoFormat o).decode c.reader.consumed).phase ≠ .failed hdr := by
  have hc := (processes_reachable h).writers 0
  have hb := oneWriter_bytes h
  have hp : c.reader.consumed <+: frames o (c.writers 0).taken :=
    (hb ▸ List.prefix_append _ _ : c.reader.consumed <+: (c.writers 0).sent).trans
      hc.placed.sent_prefix
  exact (decode_frames hc.texts hp).2 hdr

theorem runs_reader {a : ReaderAction} {t : Reader} (h : c.Runs o)
    (hm : ReaderMove .basics o c.reader a t) (hw : Works v c (.reader a))
    (hk : c.readerAllowed (oneWriter o v .basics stdin) a = true) {q : List Byte}
    (hq : c.queue = a.received ++ q)
    (hgood : ∀ n, t.pc ≠ .exited .failure (.invalidLength n)) :
    Runs o { c with reader := t, queue := q } := by
  obtain ⟨ha, hf, -, hopen⟩ := hw
  obtain ⟨hpoll, hearly⟩ := Reader.move_opened hm h.noPoll
  have hquiet := Reader.quiet_move h.quiet hm ha hf
  have hended : ∀ status report, t.pc = .exited status report →
      q = [] ∧ ∃ r, (c.writers 0).pc = .exited r := by
    intro status report hpc
    have hend : (∃ r, t.pc = .exited .success r) ∨ t.pc = .exited .failure .closedMidMessage := by
      rcases hquiet.report _ _ hpc with rfl | ⟨rfl, ⟨n, rfl⟩ | rfl⟩
      · exact .inl ⟨report, hpc⟩
      · exact absurd hpc (hgood n)
      · exact .inr hpc
    rcases Feed.ended_move hm hend with ⟨hsig, -⟩ | ⟨rfl, hs⟩
    · exact absurd hsig ha
    · have he : c.reader.pc.early = false := by
        rcases hs with hs | hs <;> rw [hs] <;> rfl
      obtain ⟨hnil, hexit⟩ := eof_ended h he hk
      exact ⟨hq.symm.trans hnil, hexit⟩
  refine ⟨hquiet, hpoll, h.writer, fun he => ?_, hended⟩
  rcases hearly he with ⟨hs, hfd⟩ | ⟨hact, hfd⟩ | ⟨status, report, hpc⟩
  · obtain ⟨hne, hfd' | ⟨status, report, hpc⟩⟩ := h.opened hs
    · exact ⟨hne, .inl (hfd.trans hfd')⟩
    · exact absurd hpc (Reader.move_not_exited hm ha status report)
  · exact ⟨hopen hact 0, .inl hfd⟩
  · obtain ⟨-, r, hr⟩ := hended status report hpc
    exact ⟨by rw [hr]; rintro ⟨⟩, .inr ⟨status, report, hpc⟩⟩

theorem runs_writer {a : WriterAction} {t : Writer} (h : c.Runs o)
    (hc : (c.writers 0).Correct o stdin) (hg : WriterGoes o (c.writers 0) a t) (q : List Byte) :
    Runs o { c with writers := Function.update c.writers 0 t, queue := q } := by
  have hopen := Writer.goes_not_open hg
  have hexit : ∀ status report, c.reader.pc ≠ .exited status report := by
    intro status report hpc
    obtain ⟨-, r, hr⟩ := h.ended status report hpc
    cases hg <;> simp_all
  refine ⟨h.quiet, h.noPoll, ?_, fun he => ⟨?_, (h.opened he).2⟩, fun status report hpc => ?_⟩
  · simpa using Writer.goes_runs h.writer hc hg
  · simpa using hopen
  · exact absurd hpc (hexit status report)

theorem works_cases (hr : c.Runs o) {a : ChannelAction 1} (hw : Works v c a)
    (hn : Channel.next (oneWriter o v .basics stdin) c a = some d) :
    (∃ b t, WriterGoes o (c.writers 0) b t ∧
        (∀ n, b = .write (.wrote n) → 0 < n ∧ n ≤ ((c.writers 0).offered o).length) ∧
        d = { c with
          writers := Function.update c.writers 0 t
          queue := c.queue ++ (c.writers 0).transmits o b }) ∨
      ∃ b t, a = .reader b ∧ ReaderMove .basics o c.reader b t ∧
        c.readerAllowed (oneWriter o v .basics stdin) b = true ∧
        c.queue = b.received ++ d.queue ∧ d = { c with reader := t, queue := d.queue } := by
  cases a with
  | writer i b =>
    obtain rfl := Subsingleton.elim i 0
    obtain ⟨hk, t, ht, rfl⟩ := writer_cases hn
    have hstop : ¬ (c.writers 0).stopFlag = true := by
      rw [hr.writer.1]
      decide
    refine .inl ⟨b, t, Writer.writer_goes ht hstop hw.1 hw.2, ?_, rfl⟩
    rintro n rfl
    simp only [writerAllowed, writeAllowed, decide_eq_true_eq] at hk
    exact ⟨hk.1, hk.2.1⟩
  | reader b =>
    obtain ⟨hk, hm⟩ := Option.ite_none_right_eq_some.mp hn
    obtain ⟨t, ht, rfl⟩ := Option.map_eq_some_iff.mp hm
    rcases next_cases hn with ⟨_, _, _, ⟨⟩, -⟩ | ⟨_, _, ⟨⟩, -, -, hq, -⟩
    exact .inr ⟨b, t, rfl, readerMain_move ht, hk, hq, rfl⟩

theorem runs_reachable (h : (channel (oneWriter o v .basics stdin)).ReachableWhile (Works v) c) :
    c.Runs o := by
  apply System.ReachableWhile.induct (I := Runs o) ?_ ?_ h
  · rintro _ rfl
    exact runs_start _
  · intro c a d hr ih hw hn
    have hd := hr.reachable.step a hn
    have hp := processes_reachable hr.reachable
    rcases works_cases ih hw hn with ⟨b, t, hg, -, rfl⟩ | ⟨b, t, rfl, hm, hk, hq, he⟩
    · exact runs_writer ih (hp.writers 0) hg _
    · rw [he] at hd ⊢
      apply runs_reader ih hm hw hk hq
      exact (processes_reachable hd).reader.accepts (decode_consumed hd)

def left (o : ByteOrder) (c : Channel 1) : ℕ :=
  ∑ i, (c.writers i).left o + 10 * c.queue.length + c.reader.rank

theorem left_lt (h : (channel (oneWriter o v .basics stdin)).ReachableWhile (Works v) c)
    (hs : (channel (oneWriter o v .basics stdin)).StepWhile (Works v) c d) :
    d.left o < c.left o := by
  obtain ⟨a, hw, hn⟩ := hs
  have hr := runs_reachable h
  have hc : (c.writers 0).Correct o stdin := (processes_reachable h.reachable).writers 0
  have hp' := processes_reachable (h.reachable.step a hn)
  rcases works_cases hr hw hn with ⟨b, t, hg, hk, rfl⟩ | ⟨b, t, rfl, hm, hk, hq, he⟩
  · have ht : t.Correct o stdin := Function.update_self (0 : Fin 1) t c.writers ▸ hp'.writers 0
    have hlt := Writer.goes_left hc ht hg hk
    simp only [left, Fin.sum_univ_one, Function.update_self, List.length_append]
    omega
  · obtain ⟨ha, hf, hretry, -⟩ := hw
    have hlt := Reader.move_rank hm hr.quiet.stopFlag ha hf hretry (by
      rintro bytes rfl
      simp only [readerAllowed, readAllowed, decide_eq_true_eq] at hk
      exact hk.1)
    have hlen := congrArg List.length hq
    rw [List.length_append] at hlen
    rw [he]
    simp only [left]
    omega

theorem writer_steps {a : WriterAction} (ha : Writer.Proceeds v o (c.writers 0) a)
    (hfd : c.reader.fd = true ∨ ∀ r, a ≠ .write r) :
    ∃ d, (channel (oneWriter o v .basics stdin)).StepWhile (Works v) c d := by
  obtain ⟨t, ht⟩ := Option.isSome_iff_exists.mp ha.main
  have hk : c.writerAllowed (oneWriter o v .basics stdin) 0 a = true := by
    cases a with
    | write r =>
      have hfd' := hfd.resolve_right (fun h => h r rfl)
      rw [writerAllowed, hfd']
      exact ha.allowed r rfl
    | _ => rfl
  refine ⟨{ c with
    writers := Function.update c.writers 0 t
    queue := c.queue ++ (c.writers 0).transmits o a }, .writer 0 a, ⟨ha.calm, ha.whole⟩, ?_⟩
  change Channel.next _ c (.writer 0 a) = _
  rw [Channel.next, if_pos hk]
  change (writerMain v o (c.writers 0) a).map _ = _
  rw [ht]
  rfl

theorem reader_steps (hr : c.Runs o) {a : ReaderAction} {t : Reader}
    (hm : ReaderMove .basics o c.reader a t) (hw : Works v c (.reader a))
    (hk : c.readerAllowed (oneWriter o v .basics stdin) a = true) :
    ∃ d, (channel (oneWriter o v .basics stdin)).StepWhile (Works v) c d := by
  have hmain := hm.main hr.quiet.stopFlag hw.2.1
  refine ⟨{ c with reader := t, queue := c.queue.drop a.received.length }, .reader a, hw, ?_⟩
  change Channel.next _ c (.reader a) = _
  rw [Channel.next, if_pos hk]
  change (readerMain .basics o c.reader a).map _ = _
  rw [hmain]
  rfl

theorem data_steps (hr : c.Runs o) {b : Byte} {q : List Byte} {t : Reader}
    (hq : c.queue = b :: q) (hreq : 0 < c.reader.requested o)
    (hm : ReaderMove .basics o c.reader (.read (.data [b])) t) :
    ∃ d, (channel (oneWriter o v .basics stdin)).StepWhile (Works v) c d := by
  apply reader_steps hr hm ⟨by simp, rfl, rfl, by simp⟩
  simp only [readerAllowed, readAllowed, hq]
  exact decide_eq_true ⟨by simp, rfl, hreq⟩

theorem sent_whole (hr : c.Runs o) {r : Report} (hw : (c.writers 0).pc = .exited r) :
    (c.writers 0).fd = false ∧ (c.writers 0).stdin = [] ∧
      (c.writers 0).sent = frames o (c.writers 0).taken := by
  have hw' := hr.writer.2
  rw [hw] at hw'
  exact hw'

theorem taken_whole (h : (channel (oneWriter o v .basics stdin)).Reachable c) (hr : c.Runs o)
    {r : Report} (hw : (c.writers 0).pc = .exited r) : (c.writers 0).taken = stdinTexts stdin := by
  have hc : (c.writers 0).Correct o stdin := (processes_reachable h).writers 0
  have ht := hc.taken
  rw [(sent_whole hr hw).2.1] at ht
  exact (List.append_nil _).symm.trans ht

theorem decode_whole (h : (channel (oneWriter o v .basics stdin)).Reachable c) (hr : c.Runs o)
    {r : Report} (hw : (c.writers 0).pc = .exited r) (hq : c.queue = []) :
    (fifoFormat o).decode c.reader.consumed = ⟨(stdinTexts stdin).map payload, .header []⟩ := by
  have hc : (c.writers 0).Correct o stdin := (processes_reachable h).writers 0
  have htaken := taken_whole h hr hw
  have hb := oneWriter_bytes h
  rw [hq, List.append_nil, (sent_whole hr hw).2.2, htaken] at hb
  rw [hb]
  apply Format.decode_encodeAll
  intro p hp
  obtain ⟨t, ht, rfl⟩ := List.mem_map.mp hp
  rw [← htaken] at ht
  exact payload_valid (hc.texts t ht).1

theorem read_goes_on (h : (channel (oneWriter o v .basics stdin)).Reachable c) (hr : c.Runs o)
    {r : Report} (hw : (c.writers 0).pc = .exited r)
    (hpc : c.reader.pc = .headerRead ∨ c.reader.pc = .payloadRead) :
    ∃ d, (channel (oneWriter o v .basics stdin)).StepWhile (Works v) c d := by
  obtain ⟨ps, -, ht⟩ := (processes_reachable h).reader
  cases hq : c.queue with
  | cons b q =>
    rcases hpc with hpc | hpc <;> simp only [Reader.Tracks, hpc] at ht
    · apply data_steps hr hq ?_ (.headerData [b] hpc)
      simp only [Reader.requested, hpc]
      omega
    · apply data_steps hr hq ?_ (.payloadData [b] hpc)
      simp only [Reader.requested, hpc]
      have hlt : c.reader.totalRead < c.reader.len o := ht.2.2.2.1
      omega
  | nil =>
    rcases hpc with hpc | hpc
    · apply reader_steps hr (.headerEof hpc) ⟨by simp, rfl, rfl, by simp⟩
      have hc : c.connected = false := by
        rw [Bool.eq_false_iff]
        intro hc
        rw [connected_iff, (sent_whole hr hw).1] at hc
        cases hc
      simp [readerAllowed, readAllowed, hq, hc]
    · obtain ⟨ps, -, hd⟩ := Reader.payload_phase (processes_reachable h).reader (.inr hpc)
        (Reader.payloadRead_lt (processes_reachable h).reader hpc)
      have hwhole := decode_whole h hr hw hq
      change (fifoFormat o).decode c.reader.consumed = _ at hd
      rw [hwhole] at hd
      cases hd

theorem reader_goes_on (h : (channel (oneWriter o v .basics stdin)).Reachable c) (hr : c.Runs o)
    {r : Report} (hw : (c.writers 0).pc = .exited r)
    (hd : ∀ status report, c.reader.pc ≠ .exited status report) :
    ∃ d, (channel (oneWriter o v .basics stdin)).StepWhile (Works v) c d := by
  have hrun {t : Reader} (hm : ReaderMove .basics o c.reader .run t) :
      ∃ d, (channel (oneWriter o v .basics stdin)).StepWhile (Works v) c d :=
    reader_steps hr hm ⟨by simp, rfl, rfl, by simp⟩ rfl
  cases hpc : c.reader.pc with
  | mkfifo => exact reader_steps hr (.created true hpc) ⟨by simp, rfl, rfl, by simp⟩ rfl
  | «open» =>
    refine reader_steps hr (.opened hpc) ⟨by simp, rfl, rfl, fun _ i => ?_⟩ rfl
    rw [Fin.fin_one_eq_zero i, hw]
    rintro ⟨⟩
  | top => exact hrun (.start hpc rfl)
  | headerTest =>
    by_cases hl : c.reader.totalRead < sizeofLen
    · exact hrun (.headerTest hpc hl)
    · exact hrun (.checkLength hpc hl)
  | payloadTest =>
    by_cases hl : c.reader.totalRead < c.reader.len o
    · exact hrun (.payloadTest hpc hl)
    · exact hrun (.printMessage hpc hl)
  | malloc =>
    have hlen : (List.replicate (c.reader.len o + 1) (0 : Byte)).length = c.reader.len o + 1 :=
      List.length_replicate
    exact reader_steps hr (.allocated _ hpc hlen) ⟨by simp, rfl, rfl, by simp⟩ rfl
  | headerRead => exact read_goes_on h hr hw (.inl hpc)
  | payloadRead => exact read_goes_on h hr hw (.inr hpc)
  | poll => exact absurd hpc hr.noPoll
  | exited status report => exact absurd hpc (hd status report)
  | fault => exact absurd hpc (processes_reachable h).reader.no_fault

theorem goes_on (h : (channel (oneWriter o v .basics stdin)).Reachable c) (hr : c.Runs o)
    (hd : ∀ status report, c.reader.pc ≠ .exited status report) :
    ∃ d, (channel (oneWriter o v .basics stdin)).StepWhile (Works v) c d := by
  by_cases hw : ∃ r, (c.writers 0).pc = .exited r
  · obtain ⟨r, hw⟩ := hw
    exact reader_goes_on h hr hw hd
  · by_cases hopen : (c.writers 0).pc = .open
    · exact writer_steps (Writer.open_proceeds hopen) (.inr (by simp))
    · have hc : (c.writers 0).Correct o stdin := (processes_reachable h).writers 0
      obtain ⟨a, ha⟩ := Writer.writer_proceeds hr.writer hc (sending_reachable h 0)
        (fun r hr => hw ⟨r, hr⟩)
      cases he : c.reader.pc.early with
      | false =>
        rcases (hr.opened he).2 with hfd | ⟨status, report, hpc⟩
        · exact writer_steps ha (.inl hfd)
        · exact absurd hpc (hd status report)
      | true =>
        cases hpc : c.reader.pc <;> rw [hpc] at he <;> first | (cases he; done) | skip
        case mkfifo => exact reader_steps hr (.created true hpc) ⟨by simp, rfl, rfl, by simp⟩ rfl
        case «open» =>
          have hall : ∀ i, (c.writers i).pc ≠ .open := fun i => Fin.fin_one_eq_zero i ▸ hopen
          exact reader_steps hr (.opened hpc) ⟨by simp, rfl, rfl, fun _ => hall⟩ rfl

end Channel

/-- A writer of either program with the reader of 11_4: every run in which no call fails or has to
be repeated comes to its end, the reader with success and with every text of the `stdin` printed,
however the bytes are cut into writes and reads. -/
theorem delivers_every_line (o : ByteOrder) (v : Variant) (stdin : List Byte) {c : Channel 1}
    (h : (channel (oneWriter o v .basics stdin)).ReachableWhile (Works v) c) :
    (channel (oneWriter o v .basics stdin)).Inevitable (Works v) (fun d =>
      (∃ report, d.reader.pc = .exited .success report) ∧ d.reader.printed = stdinTexts stdin ∧
        ∃ report, (d.writers 0).pc = .exited report) c := by
  let M := channel (oneWriter o v .basics stdin)
  have hends : M.Inevitable (Works v) (fun d => (M.ReachableWhile (Works v) d) ∧
      ∃ status report, d.reader.pc = .exited status report) c := by
    apply System.Inevitable.of_measure (I := fun d => M.ReachableWhile (Works v) d)
      (Channel.left o) ?_ ?_ h
    · intro c hc hd
      apply Channel.goes_on hc.reachable (Channel.runs_reachable hc)
      intro status report hpc
      exact hd ⟨hc, status, report, hpc⟩
    · rintro c d hc - hs
      refine ⟨?_, Channel.left_lt hc hs⟩
      obtain ⟨a, hw, hn⟩ := hs
      exact .step a hc hw hn
  apply hends.mono
  rintro d ⟨hd, status, report, hpc⟩
  have hr := Channel.runs_reachable hd
  obtain ⟨hq, r, hw⟩ := hr.ended status report hpc
  have hwhole := Channel.decode_whole hd.reachable hr hw hq
  obtain ⟨ps, hps, ht⟩ := (Channel.processes_reachable hd.reachable).reader
  change Reader.Tracks o d.reader ps ((fifoFormat o).decode d.reader.consumed) at ht
  rw [hwhole] at ht
  rcases hr.quiet.report _ _ hpc with rfl | ⟨rfl, ⟨n, rfl⟩ | rfl⟩ <;>
    simp only [Reader.Tracks, hpc] at ht
  · obtain ⟨got, ht⟩ := ht
    refine ⟨⟨report, hpc⟩, ?_, r, hw⟩
    have hc : (d.writers 0).Correct o stdin := (Channel.processes_reachable hd.reachable).writers 0
    have hid : ∀ t ∈ stdinTexts stdin, cString (payload t) = t := by
      intro t ht
      rw [← Channel.taken_whole hd.reachable hr hw] at ht
      exact cString_payload (hc.texts t ht).2
    rw [← hps, ← (Decoded.mk.inj ht).1, List.map_map]
    exact (List.map_congr_left hid).trans (List.map_id _)
  · obtain ⟨hdr, ht, -⟩ := ht
    cases ht
  · obtain ⟨need, got, ht⟩ := ht
    cases ht

theorem delivers_every_line_start :
    (channel (oneWriter .little .nonblock .basics [104, 105, 10])).Inevitable (Works .nonblock)
      (fun d => (∃ report, d.reader.pc = .exited .success report) ∧
        d.reader.printed = stdinTexts [104, 105, 10] ∧ ∃ report, (d.writers 0).pc = .exited report)
      (Channel.start (oneWriter .little .nonblock .basics [104, 105, 10])) :=
  delivers_every_line _ _ _ (.init rfl)

end LinuxSystemProgramming.Fifo
