import LinuxSystemProgramming.Fifo.Feed

namespace LinuxSystemProgramming.Fifo

open CMemory Framing Transition

def texts (o : ByteOrder) (bytes : List Byte) : List (List Byte) :=
  ((fifoFormat o).parse bytes).payloads.map cString

def consumption (o : ByteOrder) (bytes : List Byte) : List Byte :=
  (fifoFormat o).encodeAll ((fifoFormat o).parse bytes).payloads ++
    (fifoFormat o).pending ((fifoFormat o).parse bytes).phase

namespace Reader

def Exact (o : ByteOrder) (s : Reader) : Prop :=
  s.consumed = consumption o s.consumed

theorem storeLength_consumed (s : Reader) (bytes : List Byte) :
    (s.storeLength bytes).consumed = s.consumed ++ bytes := by
  unfold storeLength
  split <;> rfl

theorem storePayload_consumed (s : Reader) (bytes : List Byte) :
    (s.storePayload bytes).consumed = s.consumed ++ bytes := by
  unfold storePayload
  split <;> rfl

theorem exact_of_accepts {o : ByteOrder} {s : Reader}
    (h : ∀ hdr, ((fifoFormat o).decode s.consumed).phase ≠ .failed hdr) : s.Exact o := by
  have hw := ((fifoFormat o).decode_wellFormed s.consumed).2 h
  rw [Format.decode_eq_parse] at hw
  exact hw

theorem exact_storeLength {o : ByteOrder} {s : Reader} {bytes : List Byte} (h : s.Correct o)
    (hpc : s.pc = .headerRead) (hb : bytes.length ≤ s.requested o) :
    (s.storeLength bytes).Exact o := by
  obtain ⟨ps, -, hd⟩ := headerRead_phase h hpc
  have hs := (fifoFormat o).decode_wellFormed s.consumed
  rw [hd] at hs
  have hgot := hs.1.header _ rfl
  have hlen : (s.msgLen.take s.totalRead).length + bytes.length ≤ (fifoFormat o).headerSize := by
    obtain ⟨_, _, ht⟩ := h
    simp only [Tracks, hpc] at ht
    simp only [requested, hpc] at hb
    rw [List.length_take, fifoFormat_headerSize]
    omega
  have hnew : (fifoFormat o).decode (s.consumed ++ bytes) =
      (fifoFormat o).inHeader ps (s.msgLen.take s.totalRead ++ bytes) := by
    rw [Format.decode_append, hd, ← Format.inHeader_of_lt _ ps hgot,
      Format.decodeFrom_inHeader _ _ _ _ hlen]
  unfold Exact consumption
  rw [storeLength_consumed, ← Format.decode_eq_parse, hnew,
    (Format.inHeader_wellFormed _ _ hs.1.payloads (by simpa using hlen)).2, ← List.append_assoc]
  exact congrArg (· ++ bytes) (hs.2 (by simp))

theorem exact_storePayload {o : ByteOrder} {s : Reader} {bytes : List Byte} (h : s.Correct o)
    (hpc : s.pc = .payloadRead) (hb : bytes.length ≤ s.requested o) :
    (s.storePayload bytes).Exact o := by
  apply exact_of_accepts
  obtain ⟨ps, -, hd⟩ := payload_phase h (.inr hpc) (payloadRead_lt h hpc)
  have hw := ((fifoFormat o).decode_wellFormed s.consumed).1
  rw [hd] at hw
  have hgot := (hw.payload _ _ rfl).2
  have hlen : (s.bufRead.take s.totalRead).length + bytes.length ≤ s.len o := by
    obtain ⟨_, _, ht⟩ := h
    simp only [Tracks, hpc] at ht
    simp only [requested, hpc] at hb
    rw [List.length_take]
    omega
  intro hdr
  rw [storePayload_consumed, Format.decode_append, hd, ← Format.inPayload_of_lt ps hgot,
    Format.decodeFrom_inPayload _ _ _ _ _ hlen]
  unfold Format.inPayload
  split_ifs <;> simp

theorem exact_move {v : Variant} {o : ByteOrder} {s t : Reader} {a : ReaderAction}
    (he : s.Exact o) (h : s.Correct o) (hm : ReaderMove v o s a t)
    (hk : ∀ bytes, a = .read (.data bytes) → bytes.length ≤ s.requested o) : t.Exact o := by
  cases hm with
  | headerData bytes hpc => exact exact_storeLength h hpc (hk bytes rfl)
  | payloadData bytes hpc => exact exact_storePayload h hpc (hk bytes rfl)
  | die a msg hd ha hf => exact he
  | checkLength hpc hl =>
    unfold checkLength
    split_ifs <;> exact he
  | printMessage hpc hl =>
    unfold printMessage
    split <;> exact he
  | _ => exact he

structure Quiet (s : Reader) : Prop where
  stopFlag : s.stopFlag = false
  report : ∀ status report, s.pc = .exited status report →
    status = .success ∨ status = .failure ∧
      ((∃ n, report = .invalidLength n) ∨ report = .closedMidMessage)

theorem quiet_initial : initial.Quiet := ⟨rfl, by rintro _ _ ⟨⟩⟩

theorem quiet_move {v : Variant} {o : ByteOrder} {s t : Reader} {a : ReaderAction}
    (hs : s.Quiet) (hm : ReaderMove v o s a t) (ha : a ≠ .signal) (hf : a.fails v = false) :
    t.Quiet := by
  obtain ⟨hstop, hrep⟩ := hs
  cases hm with
  | signal => exact absurd rfl ha
  | die a msg hd ha hf' => simp [hstop, hf] at hf'
  | headerEof hpc =>
    refine ⟨hstop, ?_⟩
    rintro _ _ ⟨⟩
    exact .inl rfl
  | payloadEof hpc =>
    refine ⟨hstop, ?_⟩
    rintro _ _ ⟨⟩
    exact .inr ⟨rfl, .inr rfl⟩
  | checkLength hpc hl =>
    unfold checkLength
    split_ifs
    · refine ⟨hstop, ?_⟩
      rintro _ _ ⟨⟩
      exact .inr ⟨rfl, .inl ⟨_, rfl⟩⟩
    · exact ⟨hstop, by rintro _ _ ⟨⟩⟩
  | headerData bytes hpc =>
    unfold storeLength
    split <;> exact ⟨hstop, by rintro _ _ ⟨⟩⟩
  | payloadData bytes hpc =>
    unfold storePayload
    split <;> exact ⟨hstop, by rintro _ _ ⟨⟩⟩
  | printMessage hpc hl =>
    unfold printMessage
    split <;> exact ⟨hstop, by rintro _ _ ⟨⟩⟩
  | _ => exact ⟨hstop, by rintro _ _ ⟨⟩⟩

def Waits (s : Reader) : Prop := s.pc = .poll ∨ s.pc = .headerRead ∨ s.pc = .payloadRead

end Reader

namespace Feed

def Finished (f : Feed) : Prop :=
  (∃ status report, f.reader.pc = .exited status report) ∨
    f.queue = [] ∧ f.pending = [] ∧ f.reader.Waits

structure Parses (v : Variant) (o : ByteOrder) (bytes : List Byte) (f : Feed) : Prop where
  inv : f.Inv v o bytes
  exact : f.reader.Exact o
  quiet : f.reader.Quiet

theorem parses_undisturbed {v : Variant} {o : ByteOrder} {bytes : List Byte} {f : Feed}
    (h : (feed v o bytes).ReachableWhile (Undisturbed v) f) : f.Parses v o bytes := by
  apply System.ReachableWhile.induct _ _ h
  · rintro _ rfl
    exact ⟨inv_start v o bytes, Reader.exact_of_accepts (by simp [start, Reader.initial, Format.decode]),
      Reader.quiet_initial⟩
  · intro f a g hr hs hc hn
    have hg := inv_next hs.inv hn
    cases a with
    | reader b =>
      obtain ⟨hk, t, ht, rfl⟩ := reader_cases hn
      have hm := readerMain_move ht
      refine ⟨hg, ?_, Reader.quiet_move hs.quiet hm hc.1 hc.2⟩
      apply Reader.exact_move hs.exact hs.inv.correct hm
      rintro block rfl
      exact (readerAllowed_data hk).2
    | connect | arrive | close =>
      rw [feed_next] at hn
      have hsame := outside_reader hn (by rintro _ ⟨⟩)
      exact ⟨hg, hsame ▸ hs.exact, hsame ▸ hs.quiet⟩

theorem Inv.consumed_prefix {v : Variant} {o : ByteOrder} {bytes : List Byte} {f : Feed}
    (h : f.Inv v o bytes) : f.reader.consumed <+: bytes := ⟨_, h.history⟩

theorem Inv.consumed_all {v : Variant} {o : ByteOrder} {bytes : List Byte} {f : Feed}
    (h : f.Inv v o bytes) (hq : f.queue = []) (hp : f.pending = []) :
    f.reader.consumed = bytes := by
  have hh := h.history
  rwa [hq, hp, List.append_nil, List.append_nil] at hh

theorem waits_decode {v : Variant} {o : ByteOrder} {bytes : List Byte} {f : Feed}
    (h : f.Inv v o bytes) (hq : f.queue = []) (hp : f.pending = []) (hw : f.reader.Waits) :
    f.reader.printed = ((fifoFormat o).decode bytes).payloads.map cString ∧
      (f.reader.pc = .poll ∧ ((fifoFormat o).decode bytes).phase = .header [] ∨
        f.reader.pc = .headerRead ∧
          ((fifoFormat o).decode bytes).phase =
            .header (f.reader.msgLen.take f.reader.totalRead) ∧
          (v = .nonblock → f.reader.msgLen.take f.reader.totalRead ≠ []) ∨
        f.reader.pc = .payloadRead ∧
          ∃ need got, ((fifoFormat o).decode bytes).phase = .payload need got) := by
  rw [← h.consumed_all hq hp]
  rcases hw with hpc | hpc | hpc
  · obtain ⟨ps, hps, ht⟩ := h.correct
    simp only [Reader.Tracks, hpc] at ht
    exact ⟨by rw [ht, hps], .inl ⟨hpc, by rw [ht]⟩⟩
  · obtain ⟨ps, hps, ht⟩ := Reader.headerRead_phase h.correct hpc
    refine ⟨by rw [ht, hps], .inr (.inl ⟨hpc, by rw [ht], ?_⟩)⟩
    obtain ⟨_, -, hc⟩ := h.correct
    have hg := h.gated
    simp only [Reader.Tracks, hpc] at hc
    simp only [Gated, hpc] at hg
    intro hv hnil
    have hlen := congrArg List.length hnil
    rw [List.length_take, hc.1, List.length_nil, sizeofLen] at hlen
    exact hg hv (by omega) hq
  · obtain ⟨ps, hps, ht⟩ :=
      Reader.payload_phase h.correct (.inr hpc) (Reader.payloadRead_lt h.correct hpc)
    exact ⟨by rw [ht, hps], .inr (.inr ⟨hpc, _, _, by rw [ht]⟩)⟩

theorem finished_decode {v : Variant} {o : ByteOrder} {bytes : List Byte} {f : Feed}
    (h : f.Inv v o bytes) (hs : f.reader.Quiet) (hf : f.Finished) :
    (fifoFormat o).decode bytes = (fifoFormat o).decode f.reader.consumed ∧
      f.reader.printed = ((fifoFormat o).decode f.reader.consumed).payloads.map cString := by
  rcases hf with ⟨status, report, hpc⟩ | ⟨hq, hp, hw⟩
  · obtain ⟨ps, hps, ht⟩ := h.correct
    rcases hs.report _ _ hpc with rfl | ⟨rfl, ⟨n, rfl⟩ | rfl⟩
    · obtain ⟨hq, hc⟩ := h.ended (.inl ⟨_, hpc⟩)
      simp only [Reader.Tracks, hpc] at ht
      obtain ⟨got, ht⟩ := ht
      exact ⟨by rw [h.consumed_all hq (h.closed hc)], by rw [ht, hps]⟩
    · simp only [Reader.Tracks, hpc] at ht
      obtain ⟨hdr, ht, -⟩ := ht
      exact ⟨Format.failed_mono _ h.consumed_prefix (by rw [ht]), by rw [ht, hps]⟩
    · obtain ⟨hq, hc⟩ := h.ended (.inr hpc)
      simp only [Reader.Tracks, hpc] at ht
      obtain ⟨need, got, ht⟩ := ht
      exact ⟨by rw [h.consumed_all hq (h.closed hc)], by rw [ht, hps]⟩
  · rw [h.consumed_all hq hp]
    exact ⟨rfl, (waits_decode h hq hp hw).1⟩

end Feed

theorem ReaderMove.main {v : Variant} {o : ByteOrder} {s t : Reader} {a : ReaderAction}
    (h : ReaderMove v o s a t) (hs : s.stopFlag = false) (hf : a.fails v = false) :
    readerMain v o s a = some t := by
  cases h with
  | die a msg hd ha hf' => simp [hs, hf] at hf'
  | start hpc hv => subst hv; simp [readerMain, ReaderEnd.main, hpc, hs]
  | callPoll hpc hv => subst hv; simp [readerMain, PollReader.main, hpc, hs]
  | polled hup hpc hv => subst hv; simp [readerMain, PollReader.main, hpc]
  | nothing r hpc hv hr =>
    subst hv
    cases r with
    | timeout => simp [readerMain, PollReader.main, hpc]
    | ready p hup =>
      have hp : p = false := by
        cases p with
        | true => exact absurd rfl (hr hup)
        | false => rfl
      simp [readerMain, PollReader.main, hpc, hp]
    | error e =>
      obtain rfl : e = .eintr := by simpa [ReaderAction.fails] using hf
      simp [readerMain, PollReader.main, hpc]
  | headerRetry e hpc | payloadRetry e hpc =>
    cases v <;> cases e <;>
      simp_all [ReaderAction.fails, readerMain, ReaderEnd.main, PollReader.main]
  | _ => cases v <;> simp [readerMain, ReaderEnd.main, PollReader.main, *]

def Reader.rank (s : Reader) : ℕ :=
  match s.pc with
  | .mkfifo => 9
  | .open => 8
  | .malloc => 7
  | .payloadTest => 6
  | .top => 5
  | .poll => 4
  | .headerTest => if s.totalRead < sizeofLen then 2 else 8
  | .headerRead | .payloadRead => 1
  | .exited _ _ | .fault => 0

theorem Reader.rank_le (s : Reader) : s.rank ≤ 9 := by
  unfold rank
  split <;> (try split_ifs) <;> omega

namespace Feed

def distance (f : Feed) : ℕ :=
  10 * (f.queue.length + f.pending.length) + f.pending.length +
    (if f.peer = .absent then 1 else 0) + f.reader.rank

def Advances (v : Variant) (o : ByteOrder) (bytes : List Byte) (f : Feed) : Prop :=
  ∃ g, (feed v o bytes).StepWhile (Undisturbed v) f g ∧ g.distance < f.distance

theorem reader_step {v : Variant} {o : ByteOrder} {bytes : List Byte} {f : Feed} {a : ReaderAction}
    {t : Reader} (hk : f.readerAllowed v o a = true) (hm : ReaderMove v o f.reader a t)
    (hs : f.reader.stopFlag = false) (ha : a ≠ .signal) (hf : a.fails v = false) :
    (feed v o bytes).StepWhile (Undisturbed v) f
      { f with reader := t, queue := f.queue.drop a.received.length } :=
  ⟨.reader a, ⟨ha, hf⟩, next_reader hk (hm.main hs hf)⟩

theorem reader_advances {v : Variant} {o : ByteOrder} {bytes : List Byte} {f : Feed}
    {a : ReaderAction} {t : Reader} (hs : f.reader.stopFlag = false)
    (hm : ReaderMove v o f.reader a t) (hk : f.readerAllowed v o a = true) (ha : a ≠ .signal)
    (hf : a.fails v = false) (hr : t.rank < f.reader.rank) : f.Advances v o bytes := by
  refine ⟨_, reader_step hk hm hs ha hf, ?_⟩
  simp only [distance, List.length_drop]
  omega

theorem read_advances {v : Variant} {o : ByteOrder} {bytes : List Byte} {f : Feed} {b : Byte}
    {q : List Byte} {t : Reader} (hs : f.reader.stopFlag = false) (hq : f.queue = b :: q)
    (hr : 0 < f.reader.requested o) (hm : ReaderMove v o f.reader (.read (.data [b])) t) :
    f.Advances v o bytes := by
  have hk : f.readerAllowed v o (.read (.data [b])) = true := by
    simp only [readerAllowed, readAllowed, hq]
    exact decide_eq_true ⟨by simp, rfl, hr⟩
  refine ⟨_, reader_step hk hm hs (by simp) rfl, ?_⟩
  have hrank := t.rank_le
  have hl : (f.queue.drop [b].length).length + 1 = f.queue.length := by simp [hq]
  simp only [distance, ReaderAction.received]
  omega

theorem test_advances {v : Variant} {o : ByteOrder} {bytes : List Byte} {f : Feed}
    (h : f.Parses v o bytes)
    (hpc : f.reader.pc = .top ∨ f.reader.pc = .headerTest ∨ f.reader.pc = .payloadTest) :
    f.Advances v o bytes := by
  have hs := h.quiet.stopFlag
  rcases hpc with hpc | hpc | hpc
  · cases v with
    | basics =>
      apply reader_advances hs (.start hpc rfl) rfl (by simp) rfl
      simp [Reader.rank, Reader.startMessage, hpc, sizeofLen]
    | nonblock =>
      apply reader_advances hs (.callPoll hpc rfl) rfl (by simp) rfl
      simp [Reader.rank, Reader.goto, hpc]
  · by_cases hl : f.reader.totalRead < sizeofLen
    · apply reader_advances hs (.headerTest hpc hl) rfl (by simp) rfl
      simp [Reader.rank, Reader.goto, hpc, hl]
    · apply reader_advances hs (.checkLength hpc hl) rfl (by simp) rfl
      unfold Reader.checkLength
      split_ifs <;> simp [Reader.rank, Reader.goto, Reader.die, Reader.exit, hpc, hl]
  · by_cases hl : f.reader.totalRead < f.reader.len o
    · apply reader_advances hs (.payloadTest hpc hl) rfl (by simp) rfl
      simp [Reader.rank, Reader.goto, hpc]
    · apply reader_advances hs (.printMessage hpc hl) rfl (by simp) rfl
      unfold Reader.printMessage
      split <;> simp [Reader.rank, Reader.goto, hpc]

theorem call_advances {v : Variant} {o : ByteOrder} {bytes : List Byte} {f : Feed}
    (h : f.Parses v o bytes) (hp : f.pending = []) (hd : ¬ f.Finished) (hw : f.reader.Waits) :
    f.Advances v o bytes := by
  have hs := h.quiet.stopFlag
  obtain ⟨b, q, hq⟩ : ∃ b q, f.queue = b :: q :=
    List.exists_cons_of_ne_nil fun hq => hd (.inr ⟨hq, hp, hw⟩)
  obtain ⟨ps, hps, ht⟩ := h.inv.correct
  rcases hw with hpc | hpc | hpc
  · have hg := h.inv.gated
    simp only [Gated, hpc] at hg
    subst hg
    apply reader_advances hs (.polled (decide (f.peer = .closed)) hpc rfl) _ (by simp) rfl
    · simp [Reader.rank, Reader.startMessage, hpc, sizeofLen]
    · simp [readerAllowed, pollAllowed, hq]
  · simp only [Reader.Tracks, hpc] at ht
    apply read_advances hs hq _ (.headerData [b] hpc)
    simp only [Reader.requested, hpc]
    omega
  · simp only [Reader.Tracks, hpc] at ht
    apply read_advances hs hq _ (.payloadData [b] hpc)
    simp only [Reader.requested, hpc]
    omega

theorem reader_progress {v : Variant} {o : ByteOrder} {bytes : List Byte} {f : Feed}
    (h : f.Parses v o bytes) (hp : f.pending = []) (hc : f.peer ≠ .absent) (hd : ¬ f.Finished) :
    f.Advances v o bytes := by
  have hs := h.quiet.stopFlag
  cases hpc : f.reader.pc with
  | mkfifo =>
    apply reader_advances hs (.created true hpc) rfl (by simp) rfl
    simp [Reader.rank, hpc]
  | «open» =>
    apply reader_advances hs (.opened hpc) (by simp [readerAllowed, hc]) (by simp) rfl
    simp [Reader.rank, hpc]
  | malloc =>
    apply reader_advances hs
      (.allocated (List.replicate (f.reader.len o + 1) 0) hpc List.length_replicate) rfl (by simp) rfl
    simp [Reader.rank, Reader.allocated, hpc]
  | top => exact test_advances h (.inl hpc)
  | headerTest => exact test_advances h (.inr (.inl hpc))
  | payloadTest => exact test_advances h (.inr (.inr hpc))
  | poll => exact call_advances h hp hd (.inl hpc)
  | headerRead => exact call_advances h hp hd (.inr (.inl hpc))
  | payloadRead => exact call_advances h hp hd (.inr (.inr hpc))
  | exited status report => exact absurd (.inl ⟨_, _, hpc⟩) hd
  | fault => exact absurd hpc h.inv.correct.no_fault

theorem feed_progress {v : Variant} {o : ByteOrder} {bytes : List Byte} {f : Feed}
    (h : f.Parses v o bytes) (hd : ¬ f.Finished) : f.Advances v o bytes := by
  by_cases hc : f.peer = .absent
  · refine ⟨{ f with peer := .connected }, ⟨.connect, trivial, if_pos hc⟩, ?_⟩
    simp [distance, hc]
  · by_cases hp : f.pending = []
    · exact reader_progress h hp hc hd
    · have hlen := List.length_pos_of_ne_nil hp
      have hcon : f.peer = .connected := by
        cases hpeer : f.peer with
        | absent => exact absurd hpeer hc
        | connected => rfl
        | closed => exact absurd (h.inv.closed hpeer) hp
      refine ⟨_, ⟨.arrive f.pending.length, trivial, if_pos ⟨hcon, hlen, le_rfl⟩⟩, ?_⟩
      simp only [distance, List.length_append, List.length_take, List.length_drop]
      omega

end Feed

/-- Every byte is stored inside the object it is read into; nothing is printed that the one-shot
parser does not find; a reader with nothing left to do has printed all that the parser finds and
consumed what the parser consumes; and it can always get there. -/
theorem reader_parses (v : Variant) (o : ByteOrder) (bytes : List Byte) {f : Feed}
    (h : (feed v o bytes).ReachableWhile (Undisturbed v) f) :
    f.reader.pc ≠ .fault ∧
      (f.reader.pc = .headerTest ∨ f.reader.pc = .headerRead →
        f.reader.msgLen.length = sizeofLen ∧ f.reader.totalRead ≤ sizeofLen) ∧
      (f.reader.pc = .payloadTest ∨ f.reader.pc = .payloadRead →
        f.reader.bufRead.length = f.reader.len o + 1 ∧ f.reader.totalRead ≤ f.reader.len o) ∧
      f.reader.printed <+: texts o bytes ∧
      (f.Finished → f.reader.printed = texts o bytes ∧ f.reader.consumed = consumption o bytes) ∧
      ∃ g, (feed v o bytes).PathWhile (Undisturbed v) f g ∧ g.Finished := by
  have hf := Feed.parses_undisturbed h
  obtain ⟨ps, hps, ht⟩ := hf.inv.correct
  refine ⟨hf.inv.correct.no_fault, ?_, ?_, ?_, ?_, ?_⟩
  · rintro (hpc | hpc) <;> simp only [Reader.Tracks, hpc] at ht
    · exact ⟨ht.1, ht.2.1⟩
    · exact ⟨ht.1, ht.2.1.le⟩
  · rintro (hpc | hpc) <;> simp only [Reader.Tracks, hpc] at ht
    · exact ⟨ht.2.2.1, ht.2.2.2.1⟩
    · exact ⟨ht.2.2.1, ht.2.2.2.1.le⟩
  · have hp := Format.payloads_mono (fifoFormat o) hf.inv.consumed_prefix
    rw [Format.decode_eq_parse _ bytes] at hp
    exact hf.inv.correct.printed_prefix.trans (hp.map cString)
  · intro hfin
    obtain ⟨hd, hp⟩ := Feed.finished_decode hf.inv hf.quiet hfin
    rw [Format.decode_eq_parse, Format.decode_eq_parse] at hd
    have he := hf.exact
    unfold Reader.Exact consumption at he
    constructor
    · rw [hp, texts, hd, Format.decode_eq_parse]
    · rw [consumption, hd, ← he]
  · apply System.ReachableWhile.progress Feed.distance _ h
    intro g hg hd
    exact Feed.feed_progress (Feed.parses_undisturbed hg) hd

def overlongStream : List Byte := [2, 0, 0, 0, 104, 105, 3, 1, 0, 0, 120]

def overlongRun : List FeedAction :=
  [.reader (.mkfifo (some false)), .reader (.openFifo true), .reader .run, .connect, .arrive 11,
    .reader (.poll (.ready true false)), .reader .run, .reader (.read (.data [2, 0, 0])),
    .reader .run, .reader (.read (.error .eagain)), .reader .run, .reader (.read (.data [0])),
    .reader .run, .reader (.malloc (some [1, 2, 3])), .reader .run,
    .reader (.read (.data [104, 105])), .reader .run, .reader .run,
    .reader (.poll (.ready true false)), .reader .run, .reader (.read (.data [3, 1, 0, 0])),
    .reader .run]

theorem reader_parses_overlong : ∃ f : Feed,
    f.reader.pc = .exited .failure (.invalidLength 259) ∧
      f.reader.printed = texts .little overlongStream ∧
      f.reader.consumed = consumption .little overlongStream := by
  let M := feed .nonblock .little overlongStream
  have hrun : (M.runWhile (fun f a => decide (Undisturbed .nonblock f a)) (Feed.start overlongStream)
      overlongRun).map (fun f => f.reader.pc) = some (.exited .failure (.invalidLength 259)) := by
    decide +kernel
  obtain ⟨f, hf, hpc⟩ := Option.map_eq_some_iff.mp hrun
  have hr : M.ReachableWhile (Undisturbed .nonblock) f :=
    .run (fun _ _ => of_decide_eq_true) overlongRun (.init rfl) hf
  obtain ⟨-, -, -, -, hfin, -⟩ := reader_parses _ _ _ hr
  exact ⟨f, hpc, hfin (.inl ⟨_, _, hpc⟩)⟩

end LinuxSystemProgramming.Fifo
