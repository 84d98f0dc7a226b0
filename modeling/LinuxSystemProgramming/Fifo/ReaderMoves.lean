import LinuxSystemProgramming.Fifo.Reader

namespace LinuxSystemProgramming.Fifo

open CMemory Framing

def Reader.CanDie (o : ByteOrder) (s : Reader) : Prop :=
  match s.pc with
  | .mkfifo | .open | .top | .poll | .headerRead | .malloc | .payloadRead => True
  | .payloadTest => s.totalRead < s.len o
  | _ => False

inductive ReaderMove (v : Variant) (o : ByteOrder) (s : Reader) : ReaderAction → Reader → Prop
  | signal : ReaderMove v o s .signal s.signalHandler
  | created (b : Bool) (h : s.pc = .mkfifo) :
      ReaderMove v o s (.mkfifo (some b)) { s with fifoPath := true, pc := .open }
  | opened (h : s.pc = .open) : ReaderMove v o s (.openFifo true) { s with fd := true, pc := .top }
  | start (h : s.pc = .top) (hv : v = .basics) : ReaderMove v o s .run (s.startMessage o)
  | callPoll (h : s.pc = .top) (hv : v = .nonblock) : ReaderMove v o s .run (s.goto .poll)
  | polled (hup : Bool) (h : s.pc = .poll) (hv : v = .nonblock) :
      ReaderMove v o s (.poll (.ready true hup)) (s.startMessage o)
  | nothing (r : PollResult) (h : s.pc = .poll) (hv : v = .nonblock)
      (hr : ∀ hup, r ≠ .ready true hup) : ReaderMove v o s (.poll r) (s.goto .top)
  | headerTest (h : s.pc = .headerTest) (hl : s.totalRead < sizeofLen) :
      ReaderMove v o s .run (s.goto .headerRead)
  | checkLength (h : s.pc = .headerTest) (hl : ¬ s.totalRead < sizeofLen) :
      ReaderMove v o s .run (s.checkLength o)
  | headerData (bytes : List Byte) (h : s.pc = .headerRead) :
      ReaderMove v o s (.read (.data bytes)) (s.storeLength bytes)
  | headerRetry (e : Errno) (h : s.pc = .headerRead) :
      ReaderMove v o s (.read (.error e)) (s.goto .headerTest)
  | headerEof (h : s.pc = .headerRead) :
      ReaderMove v o s (.read .eof) ((s.cleanup).exit .success .closed)
  | allocated (block : List Byte) (h : s.pc = .malloc) (hl : block.length = s.len o + 1) :
      ReaderMove v o s (.malloc (some block)) (s.allocated block)
  | payloadTest (h : s.pc = .payloadTest) (hl : s.totalRead < s.len o) :
      ReaderMove v o s .run (s.goto .payloadRead)
  | printMessage (h : s.pc = .payloadTest) (hl : ¬ s.totalRead < s.len o) :
      ReaderMove v o s .run (s.printMessage o)
  | payloadData (bytes : List Byte) (h : s.pc = .payloadRead) :
      ReaderMove v o s (.read (.data bytes)) (s.storePayload bytes)
  | payloadRetry (e : Errno) (h : s.pc = .payloadRead) :
      ReaderMove v o s (.read (.error e)) (s.goto .payloadTest)
  | payloadEof (h : s.pc = .payloadRead) : ReaderMove v o s (.read .eof) (s.die .closedMidMessage)
  | die (a : ReaderAction) (msg : String) (h : s.CanDie o) (ha : a.received = [])
      (hf : s.stopFlag = true ∨ a.fails v = true) : ReaderMove v o s a (s.die (.perror msg))

theorem ReaderEnd.main_move {o : ByteOrder} {s t : Reader} {a : ReaderAction}
    (h : ReaderEnd.main o s a = some t) : ReaderMove .basics o s a t := by
  unfold ReaderEnd.main at h
  split at h <;> (try split_ifs at h) <;> cases h
  all_goals first
    | exact .signal
    | exact .created _ ‹_›
    | exact .opened ‹_›
    | exact .start ‹_› rfl
    | exact .headerTest ‹_› ‹_›
    | exact .checkLength ‹_› ‹_›
    | exact .headerData _ ‹_›
    | exact .headerRetry _ ‹_›
    | exact .headerEof ‹_›
    | exact .allocated _ ‹_› ‹_›
    | exact .payloadTest ‹_› ‹_›
    | exact .printMessage ‹_› ‹_›
    | exact .payloadData _ ‹_›
    | exact .payloadRetry _ ‹_›
    | exact .payloadEof ‹_›
    | exact .die _ _ (by simp [Reader.CanDie, *]) rfl (.inl ‹_›)
    | exact .die _ _ (by simp [Reader.CanDie, *]) rfl (.inr (by simp_all [ReaderAction.fails]))

theorem PollReader.main_move {o : ByteOrder} {s t : Reader} {a : ReaderAction}
    (h : PollReader.main o s a = some t) : ReaderMove .nonblock o s a t := by
  unfold PollReader.main at h
  split at h <;> (try split_ifs at h) <;> (try subst_vars) <;> cases h
  all_goals first
    | exact .signal
    | exact .created _ ‹_›
    | exact .opened ‹_›
    | exact .callPoll ‹_› rfl
    | exact .polled _ ‹_› rfl
    | exact .nothing _ ‹_› rfl (by simp_all)
    | exact .headerTest ‹_› ‹_›
    | exact .checkLength ‹_› ‹_›
    | exact .headerData _ ‹_›
    | exact .headerRetry _ ‹_›
    | exact .headerEof ‹_›
    | exact .allocated _ ‹_› ‹_›
    | exact .payloadTest ‹_› ‹_›
    | exact .printMessage ‹_› ‹_›
    | exact .payloadData _ ‹_›
    | exact .payloadRetry _ ‹_›
    | exact .payloadEof ‹_›
    | exact .die _ _ (by simp [Reader.CanDie, *]) rfl (.inl ‹_›)
    | exact .die _ _ (by simp [Reader.CanDie, *]) rfl (.inr (by simp_all [ReaderAction.fails]))

theorem readerMain_move {v : Variant} {o : ByteOrder} {s t : Reader} {a : ReaderAction}
    (h : readerMain v o s a = some t) : ReaderMove v o s a t := by
  cases v with
  | basics => exact ReaderEnd.main_move h
  | nonblock => exact PollReader.main_move h

namespace Reader

-- The payloads `ps` have been printed and `d` is what the consumed bytes decode to.
def Tracks (o : ByteOrder) (s : Reader) (ps : List (List Byte)) (d : Decoded Byte) : Prop :=
  match s.pc with
  | .mkfifo | .open | .top | .poll => d = ⟨ps, .header []⟩
  | .headerTest => s.msgLen.length = sizeofLen ∧ s.totalRead ≤ sizeofLen ∧
      d = (fifoFormat o).inHeader ps (s.msgLen.take s.totalRead)
  | .headerRead => s.msgLen.length = sizeofLen ∧ s.totalRead < sizeofLen ∧
      d = (fifoFormat o).inHeader ps (s.msgLen.take s.totalRead)
  | .malloc => 0 < s.len o ∧ s.len o ≤ bufSize ∧ d = ⟨ps, .payload (s.len o) []⟩
  | .payloadTest => 0 < s.len o ∧ s.len o ≤ bufSize ∧ s.bufRead.length = s.len o + 1 ∧
      s.totalRead ≤ s.len o ∧ d = Format.inPayload ps (s.len o) (s.bufRead.take s.totalRead)
  | .payloadRead => 0 < s.len o ∧ s.len o ≤ bufSize ∧ s.bufRead.length = s.len o + 1 ∧
      s.totalRead < s.len o ∧ d = Format.inPayload ps (s.len o) (s.bufRead.take s.totalRead)
  | .exited .success _ => ∃ got, d = ⟨ps, .header got⟩
  | .exited .failure (.invalidLength n) => ∃ h, d = ⟨ps, .failed h⟩ ∧ uint32Value o h = n
  | .exited .failure .closedMidMessage => ∃ need got, d = ⟨ps, .payload need got⟩
  | .exited .failure _ => d.payloads = ps ∧ ∀ h, d.phase ≠ .failed h
  | .fault => False

def Correct (o : ByteOrder) (s : Reader) : Prop :=
  ∃ ps, ps.map cString = s.printed ∧ s.Tracks o ps ((fifoFormat o).decode s.consumed)

theorem correct_initial (o : ByteOrder) : initial.Correct o := ⟨[], rfl, rfl⟩

theorem storeLength_correct {o : ByteOrder} {s : Reader} {bytes : List Byte}
    (h : s.Correct o) (hpc : s.pc = .headerRead) (hb : bytes.length ≤ s.requested o) :
    (s.storeLength bytes).Correct o := by
  obtain ⟨ps, hp, ht⟩ := h
  simp only [Tracks, hpc] at ht
  simp only [requested, hpc] at hb
  obtain ⟨hm, hr, hd⟩ := ht
  obtain ⟨obj, hs, hlen, htake⟩ : ∃ obj, store s.msgLen s.totalRead bytes = some obj ∧ _ :=
    store_ok (by omega)
  simp only [storeLength, hs]
  refine ⟨ps, hp, hlen.trans hm, by simp only; omega, ?_⟩
  rw [Format.decode_append, hd, Format.decodeFrom_inHeader, ← htake]
  simp only [List.length_take, fifoFormat_headerSize]
  omega

theorem storePayload_correct {o : ByteOrder} {s : Reader} {bytes : List Byte}
    (h : s.Correct o) (hpc : s.pc = .payloadRead) (hb : bytes.length ≤ s.requested o) :
    (s.storePayload bytes).Correct o := by
  obtain ⟨ps, hp, ht⟩ := h
  simp only [Tracks, hpc] at ht
  simp only [requested, hpc] at hb
  obtain ⟨hv, hv', hm, hr, hd⟩ := ht
  obtain ⟨buf, hs, hlen, htake⟩ : ∃ buf, store s.bufRead s.totalRead bytes = some buf ∧ _ :=
    store_ok (by omega)
  simp only [storePayload, hs]
  refine ⟨ps, hp, hv, hv', hlen.trans hm, by simp only [len] at *; omega, ?_⟩
  rw [Format.decode_append, hd, Format.decodeFrom_inPayload, ← htake]
  · rfl
  · simp only [List.length_take]
    omega

theorem checkLength_correct {o : ByteOrder} {s : Reader}
    (h : s.Correct o) (hpc : s.pc = .headerTest) (hl : ¬ s.totalRead < sizeofLen) :
    (s.checkLength o).Correct o := by
  obtain ⟨ps, hp, ht⟩ := h
  simp only [Tracks, hpc] at ht
  obtain ⟨hm, hr, hd⟩ := ht
  have he : s.msgLen.take s.totalRead = s.msgLen := List.take_of_length_le (by omega)
  rw [he] at hd
  unfold Format.inHeader at hd
  rw [if_neg (by rw [hm]; exact lt_irrefl _)] at hd
  unfold checkLength
  split_ifs with hbad
  · have hv : ¬ (fifoFormat o).valid ((fifoFormat o).length s.msgLen) = true := by
      rw [fifoFormat_valid]
      change ¬ (0 < s.len o ∧ s.len o ≤ bufSize)
      omega
    rw [if_neg hv] at hd
    exact ⟨ps, hp, s.msgLen, hd, rfl⟩
  · have hgood : 0 < s.len o ∧ s.len o ≤ bufSize := by omega
    have hv : (fifoFormat o).valid ((fifoFormat o).length s.msgLen) = true :=
      fifoFormat_valid.mpr hgood
    rw [if_pos hv] at hd
    refine ⟨ps, hp, hgood.1, hgood.2, ?_⟩
    change _ = Decoded.mk ps (.payload (s.len o) [])
    rw [show (s.goto .malloc).consumed = s.consumed from rfl, hd]
    exact if_pos hgood.1

theorem printMessage_correct {o : ByteOrder} {s : Reader}
    (h : s.Correct o) (hpc : s.pc = .payloadTest) (hl : ¬ s.totalRead < s.len o) :
    (s.printMessage o).Correct o := by
  obtain ⟨ps, hp, ht⟩ := h
  simp only [Tracks, hpc] at ht
  obtain ⟨hv, hv', hm, hr, hd⟩ := ht
  obtain ⟨buf, hs, hlen, htake⟩ : ∃ buf, store s.bufRead (s.len o) [0] = some buf ∧ _ :=
    store_ok (by simp [hm])
  have hbuf : buf = s.bufRead.take (s.len o) ++ [0] := by
    rw [← htake, List.take_of_length_le (by simp [hlen, hm])]
  have he : s.totalRead = s.len o := by omega
  simp only [printMessage, hs]
  refine ⟨ps ++ [s.bufRead.take (s.len o)], ?_, ?_⟩
  · simp only [List.map_append, hp, List.map_cons, List.map_nil, hbuf, cString_nul]
  · change (fifoFormat o).decode s.consumed = _
    rw [hd, he]
    unfold Format.inPayload
    rw [if_neg (by simp [hm])]

theorem headerRead_phase {o : ByteOrder} {s : Reader} (h : s.Correct o) (hpc : s.pc = .headerRead) :
    ∃ ps, ps.map cString = s.printed ∧
      (fifoFormat o).decode s.consumed = ⟨ps, .header (s.msgLen.take s.totalRead)⟩ := by
  obtain ⟨ps, hp, ht⟩ := h
  simp only [Tracks, hpc] at ht
  obtain ⟨hm, hr, ht⟩ := ht
  refine ⟨ps, hp, ?_⟩
  rw [ht, Format.inHeader_of_lt]
  simp only [List.length_take, fifoFormat_headerSize]
  omega

theorem payload_phase {o : ByteOrder} {s : Reader} (h : s.Correct o)
    (hpc : s.pc = .payloadTest ∨ s.pc = .payloadRead) (hl : s.totalRead < s.len o) :
    ∃ ps, ps.map cString = s.printed ∧
      (fifoFormat o).decode s.consumed =
        ⟨ps, .payload (s.len o) (s.bufRead.take s.totalRead)⟩ := by
  obtain ⟨ps, hp, ht⟩ := h
  refine ⟨ps, hp, ?_⟩
  rcases hpc with hpc | hpc <;> simp only [Tracks, hpc] at ht
  all_goals
    obtain ⟨-, -, hm, -, ht⟩ := ht
    rw [ht, Format.inPayload_of_lt]
    simp only [List.length_take]
    omega

theorem payloadRead_lt {o : ByteOrder} {s : Reader} (h : s.Correct o) (hpc : s.pc = .payloadRead) :
    s.totalRead < s.len o := by
  obtain ⟨_, _, ht⟩ := h
  simp only [Tracks, hpc] at ht
  exact ht.2.2.2.1

theorem die_correct {o : ByteOrder} {s : Reader} (h : s.Correct o) (hd : s.CanDie o) (msg : String) :
    (s.die (.perror msg)).Correct o := by
  suffices hs : ∃ ps, ps.map cString = s.printed ∧
      ((fifoFormat o).decode s.consumed).payloads = ps ∧
        ∀ hdr, ((fifoFormat o).decode s.consumed).phase ≠ .failed hdr from hs
  cases hpc : s.pc <;> simp only [CanDie, hpc] at hd
  case mkfifo | «open» | top | poll | malloc =>
    obtain ⟨ps, hp, ht⟩ := h
    simp only [Tracks, hpc] at ht
    exact ⟨ps, hp, by simp [ht], by simp [ht]⟩
  case headerRead =>
    obtain ⟨ps, hp, ht⟩ := headerRead_phase h hpc
    exact ⟨ps, hp, by rw [ht], by simp [ht]⟩
  case payloadTest =>
    obtain ⟨ps, hp, ht⟩ := payload_phase h (.inl hpc) hd
    exact ⟨ps, hp, by rw [ht], by simp [ht]⟩
  case payloadRead =>
    obtain ⟨ps, hp, ht⟩ := payload_phase h (.inr hpc) (payloadRead_lt h hpc)
    exact ⟨ps, hp, by rw [ht], by simp [ht]⟩

theorem eof_correct {o : ByteOrder} {s : Reader} (h : s.Correct o) (hpc : s.pc = .headerRead) :
    ((s.cleanup).exit .success .closed).Correct o := by
  obtain ⟨ps, hp, ht⟩ := headerRead_phase h hpc
  exact ⟨ps, hp, _, ht⟩

theorem payloadEof_correct {o : ByteOrder} {s : Reader} (h : s.Correct o)
    (hpc : s.pc = .payloadRead) : (s.die .closedMidMessage).Correct o := by
  obtain ⟨ps, hp, ht⟩ := payload_phase h (.inr hpc) (payloadRead_lt h hpc)
  exact ⟨ps, hp, _, _, ht⟩

theorem startMessage_correct {o : ByteOrder} {s : Reader} (h : s.Correct o)
    (hpc : s.pc = .top ∨ s.pc = .poll) : (s.startMessage o).Correct o := by
  obtain ⟨ps, hp, ht⟩ := h
  refine ⟨ps, hp, uint32Bytes_length o 0, Nat.zero_le _, ?_⟩
  rcases hpc with hpc | hpc <;> simp only [Tracks, hpc] at ht <;>
    simpa [startMessage] using ht

theorem move_correct {v : Variant} {o : ByteOrder} {s t : Reader} {a : ReaderAction} (h : s.Correct o)
    (hm : ReaderMove v o s a t)
    (hk : ∀ bytes, a = .read (.data bytes) → bytes.length ≤ s.requested o) : t.Correct o := by
  cases hm with
  | signal => exact h
  | created b hpc =>
    obtain ⟨ps, hp, ht⟩ := h
    simp only [Tracks, hpc] at ht
    exact ⟨ps, hp, ht⟩
  | opened hpc =>
    obtain ⟨ps, hp, ht⟩ := h
    simp only [Tracks, hpc] at ht
    exact ⟨ps, hp, ht⟩
  | start hpc _ => exact startMessage_correct h (.inl hpc)
  | polled hup hpc _ => exact startMessage_correct h (.inr hpc)
  | callPoll hpc _ =>
    obtain ⟨ps, hp, ht⟩ := h
    simp only [Tracks, hpc] at ht
    exact ⟨ps, hp, ht⟩
  | nothing r hpc _ _ =>
    obtain ⟨ps, hp, ht⟩ := h
    simp only [Tracks, hpc] at ht
    exact ⟨ps, hp, ht⟩
  | headerTest hpc hl =>
    obtain ⟨ps, hp, ht⟩ := h
    simp only [Tracks, hpc] at ht
    exact ⟨ps, hp, ht.1, hl, ht.2.2⟩
  | checkLength hpc hl => exact checkLength_correct h hpc hl
  | headerData bytes hpc => exact storeLength_correct h hpc (hk bytes rfl)
  | headerRetry e hpc =>
    obtain ⟨ps, hp, ht⟩ := h
    simp only [Tracks, hpc] at ht
    exact ⟨ps, hp, ht.1, ht.2.1.le, ht.2.2⟩
  | headerEof hpc => exact eof_correct h hpc
  | allocated block hpc hl =>
    obtain ⟨ps, hp, ht⟩ := h
    simp only [Tracks, hpc] at ht
    obtain ⟨hv, hv', ht⟩ := ht
    refine ⟨ps, hp, hv, hv', hl, Nat.zero_le _, ?_⟩
    exact ht.trans (if_pos hv).symm
  | payloadTest hpc hl =>
    obtain ⟨ps, hp, ht⟩ := h
    simp only [Tracks, hpc] at ht
    exact ⟨ps, hp, ht.1, ht.2.1, ht.2.2.1, hl, ht.2.2.2.2⟩
  | printMessage hpc hl => exact printMessage_correct h hpc hl
  | payloadData bytes hpc => exact storePayload_correct h hpc (hk bytes rfl)
  | payloadRetry e hpc =>
    obtain ⟨ps, hp, ht⟩ := h
    simp only [Tracks, hpc] at ht
    exact ⟨ps, hp, ht.1, ht.2.1, ht.2.2.1, ht.2.2.2.1.le, ht.2.2.2.2⟩
  | payloadEof hpc => exact payloadEof_correct h hpc
  | die a msg hd _ _ => exact die_correct h hd msg

theorem exited_payloads {o : ByteOrder} {s : Reader} {ps : List (List Byte)} {d : Decoded Byte}
    {status : ExitStatus} {report : Report} (hpc : s.pc = .exited status report)
    (ht : s.Tracks o ps d) : d.payloads = ps := by
  simp only [Tracks, hpc] at ht
  cases status with
  | success =>
    obtain ⟨got, rfl⟩ := ht
    rfl
  | failure =>
    cases report with
    | invalidLength n =>
      obtain ⟨hdr, rfl, -⟩ := ht
      rfl
    | closedMidMessage =>
      obtain ⟨need, got, rfl⟩ := ht
      rfl
    | _ => exact ht.1

theorem Correct.printed_prefix {o : ByteOrder} {s : Reader} (h : s.Correct o) :
    s.printed <+: ((fifoFormat o).decode s.consumed).payloads.map cString := by
  obtain ⟨ps, hp, ht⟩ := h
  rw [← hp]
  apply List.IsPrefix.map
  have htracks := ht
  unfold Tracks at ht
  cases hpc : s.pc <;> simp only [hpc] at ht
  case headerTest | headerRead =>
    rw [ht.2.2]
    exact Format.payloads_prefix_inHeader _ _ _
  case malloc => rw [ht.2.2]
  case payloadTest | payloadRead =>
    rw [ht.2.2.2.2]
    exact Format.payloads_prefix_inPayload _ _ _
  case exited status report => exact exited_payloads hpc htracks ▸ List.prefix_rfl
  case mkfifo | «open» | top | poll => rw [ht]

theorem Correct.accepts {o : ByteOrder} {s : Reader} (h : s.Correct o)
    (hd : ∀ hdr, ((fifoFormat o).decode s.consumed).phase ≠ .failed hdr) (n : ℕ) :
    s.pc ≠ .exited .failure (.invalidLength n) := by
  intro hpc
  obtain ⟨ps, -, ht⟩ := h
  simp only [Tracks, hpc] at ht
  obtain ⟨hdr, ht, -⟩ := ht
  exact hd hdr (by rw [ht])

theorem Correct.no_fault {o : ByteOrder} {s : Reader} (h : s.Correct o) : s.pc ≠ .fault := by
  intro hpc
  obtain ⟨ps, -, ht⟩ := h
  simp only [Tracks, hpc] at ht

theorem move_consumed {v : Variant} {o : ByteOrder} {s t : Reader} {a : ReaderAction}
    (hm : ReaderMove v o s a t) :
    t.consumed = s.consumed ++ a.received := by
  cases hm with
  | die a msg h ha _ => rw [ha]; exact (List.append_nil _).symm
  | headerData bytes hpc => unfold storeLength; split <;> rfl
  | payloadData bytes hpc => unfold storePayload; split <;> rfl
  | checkLength hpc hl => unfold checkLength; split_ifs <;> exact (List.append_nil _).symm
  | printMessage hpc hl => unfold printMessage; split <;> exact (List.append_nil _).symm
  | _ => exact (List.append_nil _).symm

end Reader

end LinuxSystemProgramming.Fifo
