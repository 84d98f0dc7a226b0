import LinuxSystemProgramming.Fifo.Writer

namespace LinuxSystemProgramming.Fifo

open CMemory Framing

inductive WriterMove (o : ByteOrder) (w : Writer) : WriterAction → Writer → Prop
  | signal : WriterMove o w .signal w.signalHandler
  | kill : WriterMove o w .kill w.kill
  | opened (h : w.pc = .open) : WriterMove o w (.openFifo true) { w with fd := true, pc := .top }
  | idle (a : WriterAction) (pc : WriterPc) (h : w.pc = .top ∨ w.pc = .poll)
      (hpc : pc = .top ∨ pc = .poll ∨ pc = .fgets) (ha : w.transmits o a = []) :
      WriterMove o w a (w.goto pc)
  | takeLine (next : WriterPc) (h : w.pc = .fgets) (hn : next = .headerTest ∨ next = .headerWrite) :
      WriterMove o w (.fgets true) (w.takeLine next)
  | headerTest (h : w.pc = .headerTest) (hl : w.totalWritten < sizeofLen) :
      WriterMove o w .run (w.goto .headerWrite)
  | startPayload (h : w.pc = .headerTest) (hl : ¬ w.totalWritten < sizeofLen) :
      WriterMove o w .run w.startPayload
  | headerWrote (n : ℕ) (h : w.pc = .headerWrite) :
      WriterMove o w (.write (.wrote n)) (w.wrote o n .headerTest)
  | headerWhole (h : w.pc = .headerWrite) :
      WriterMove o w (.write (.wrote sizeofLen)) (w.wrote o sizeofLen .headerWrite).startPayload
  | headerShort (n : ℕ) (r : Report) (h : w.pc = .headerWrite) :
      WriterMove o w (.write (.wrote n)) ((w.wrote o n .headerWrite).die r)
  | headerRetry (e : Errno) (h : w.pc = .headerWrite) :
      WriterMove o w (.write (.error e)) (w.goto .headerTest)
  | payloadTest (h : w.pc = .payloadTest) (hl : w.totalWritten < w.len) :
      WriterMove o w .run (w.goto .payloadWrite)
  | payloadDone (h : w.pc = .payloadTest) (hl : ¬ w.totalWritten < w.len) :
      WriterMove o w .run (w.goto .top)
  | payloadWrote (n : ℕ) (h : w.pc = .payloadWrite) :
      WriterMove o w (.write (.wrote n)) (w.wrote o n .payloadTest)
  | payloadRetry (e : Errno) (h : w.pc = .payloadWrite) :
      WriterMove o w (.write (.error e)) (w.goto .payloadTest)
  | die (a : WriterAction) (r : Report) (ha : w.transmits o a = []) : WriterMove o w a (w.die r)

theorem WriterEnd.main_move {o : ByteOrder} {w t : Writer} {a : WriterAction}
    (h : WriterEnd.main o w a = some t) : WriterMove o w a t := by
  unfold WriterEnd.main at h
  split at h <;> (try split_ifs at h) <;> cases h
  all_goals first
    | exact .signal
    | exact .kill
    | exact .opened ‹_›
    | exact .idle _ .fgets (.inl ‹_›) (.inr (.inr rfl)) rfl
    | exact .takeLine _ ‹_› (.inr rfl)
    | (subst_vars; exact .headerWhole ‹_›)
    | exact .headerShort _ _ ‹_›
    | exact .payloadTest ‹_› ‹_›
    | exact .payloadDone ‹_› ‹_›
    | exact .payloadWrote _ ‹_›
    | exact .payloadRetry _ ‹_›
    | exact .die _ _ rfl

theorem PollWriter.main_move {o : ByteOrder} {w t : Writer} {a : WriterAction}
    (h : PollWriter.main o w a = some t) : WriterMove o w a t := by
  unfold PollWriter.main at h
  split at h <;> (try split_ifs at h) <;> cases h
  all_goals first
    | exact .signal
    | exact .kill
    | exact .opened ‹_›
    | exact .idle _ .poll (.inl ‹_›) (.inr (.inl rfl)) rfl
    | exact .idle _ .top (.inr ‹_›) (.inl rfl) rfl
    | exact .idle _ .fgets (.inr ‹_›) (.inr (.inr rfl)) rfl
    | exact .takeLine _ ‹_› (.inl rfl)
    | exact .headerTest ‹_› ‹_›
    | exact .startPayload ‹_› ‹_›
    | exact .headerWrote _ ‹_›
    | exact .headerRetry _ ‹_›
    | exact .payloadTest ‹_› ‹_›
    | exact .payloadDone ‹_› ‹_›
    | exact .payloadWrote _ ‹_›
    | exact .payloadRetry _ ‹_›
    | exact .die _ _ rfl

theorem writerMain_move {v : Variant} {o : ByteOrder} {w t : Writer} {a : WriterAction}
    (h : writerMain v o w a = some t) : WriterMove o w a t := by
  cases v with
  | basics => exact WriterEnd.main_move h
  | nonblock => exact PollWriter.main_move h

/-- The strings that the successive `fgets` chunks of an input hold once their newline is stripped. -/
def stdinTexts (stdin : List Byte) : List (List Byte) := (chunks (bufSize - 1) stdin).map lineText

-- A string travels with its terminating NUL.
def payload (text : List Byte) : List Byte := text ++ [0]

def frames (o : ByteOrder) (texts : List (List Byte)) : List Byte :=
  (fifoFormat o).encodeAll (texts.map payload)

theorem frames_append (o : ByteOrder) (texts more : List (List Byte)) :
    frames o (texts ++ more) = frames o texts ++ frames o more := by
  simp [frames]

theorem frames_singleton (o : ByteOrder) (text : List Byte) :
    frames o [text] = uint32Bytes o (text.length + 1) ++ (text ++ [0]) := by
  simp [frames, payload, Format.encode]

namespace Writer

def unsent (o : ByteOrder) (w : Writer) : List Byte :=
  match w.pc with
  | .headerTest | .headerWrite =>
    (uint32Bytes o w.len).drop w.totalWritten ++ w.bufWrite.take w.len
  | .payloadTest | .payloadWrite => (w.bufWrite.take w.len).drop w.totalWritten
  | _ => []

def Placed (o : ByteOrder) (w : Writer) : Prop :=
  match w.pc with
  | .headerTest => w.totalWritten ≤ sizeofLen ∧ w.sent ++ w.unsent o = frames o w.taken
  | .headerWrite => w.totalWritten < sizeofLen ∧ w.sent ++ w.unsent o = frames o w.taken
  | .payloadTest => w.sent ++ w.unsent o = frames o w.taken
  | .payloadWrite => w.totalWritten < w.len ∧ w.sent ++ w.unsent o = frames o w.taken
  | .exited _ | .killed => w.sent <+: frames o w.taken
  | .fault => False
  | _ => w.sent = frames o w.taken

structure Correct (o : ByteOrder) (stdin : List Byte) (w : Writer) : Prop where
  taken : w.taken ++ stdinTexts w.stdin = stdinTexts stdin
  texts : ∀ t ∈ w.taken, t.length < bufSize ∧ ∀ b ∈ t, b ≠ 0
  buffer : w.bufWrite.length = bufSize
  placed : w.Placed o

theorem correct_initial (o : ByteOrder) (stdin : List Byte) : (initial stdin).Correct o stdin := by
  refine ⟨rfl, ?_, List.length_replicate, rfl⟩
  intro t ht
  cases ht

theorem offered_header {o : ByteOrder} {w : Writer} (hpc : w.pc = .headerWrite) :
    w.offered o = (uint32Bytes o w.len).drop w.totalWritten := by
  simp only [offered, hpc]
  apply List.take_of_length_le
  simp [sizeofLen]

theorem offered_payload {o : ByteOrder} {w : Writer} (hpc : w.pc = .payloadWrite) :
    w.offered o = (w.bufWrite.take w.len).drop w.totalWritten := by
  simp only [offered, hpc, List.drop_take]

theorem Placed.sent_prefix {o : ByteOrder} {w : Writer} (h : w.Placed o) :
    w.sent <+: frames o w.taken := by
  unfold Placed at h
  split at h
  · exact ⟨_, h.2⟩
  · exact ⟨_, h.2⟩
  · exact ⟨_, h⟩
  · exact ⟨_, h.2⟩
  · exact h
  · exact h
  · exact h.elim
  · exact h ▸ List.prefix_rfl

theorem wrote_prefix {o : ByteOrder} {w : Writer} (h : w.Placed o) (n : ℕ) :
    w.sent ++ (w.offered o).take n <+: frames o w.taken := by
  by_cases hh : w.pc = .headerWrite
  · simp only [Placed, hh, unsent] at h
    rw [offered_header hh, ← h.2, ← List.append_assoc]
    exact (List.prefix_append_right_inj _).mpr (List.take_prefix _ _) |>.trans (List.prefix_append _ _)
  · by_cases hp : w.pc = .payloadWrite
    · simp only [Placed, hp, unsent] at h
      rw [offered_payload hp, ← h.2]
      exact (List.prefix_append_right_inj _).mpr (List.take_prefix _ _)
    · have he : w.offered o = [] := by
        unfold offered
        split <;> simp_all
      rw [he, List.take_nil, List.append_nil]
      exact h.sent_prefix

theorem takeLine_correct {o : ByteOrder} {stdin : List Byte} {w : Writer} {next : WriterPc}
    (h : w.Correct o stdin) (hpc : w.pc = .fgets) (hn : next = .headerTest ∨ next = .headerWrite) :
    (w.takeLine next).Correct o stdin := by
  have hsent : w.sent = frames o w.taken := by
    have hp := h.placed
    simp only [Placed, hpc] at hp
    exact hp
  by_cases hi : w.stdin = []
  · have hf : CMemory.fgets w.bufWrite bufSize w.stdin = none := if_pos hi
    simp only [takeLine, hf]
    exact ⟨h.taken, h.texts, h.buffer, h.placed.sent_prefix⟩
  · obtain ⟨buf, buf', rest, hf, hs, hlen, hbuf'⟩ := fgets_strip (by decide) h.buffer.ge hi
    have htext := lineText_length_le (bufSize - 1) w.stdin
    have hc : cString buf' = lineText (line (bufSize - 1) w.stdin) := by
      rw [hbuf', cString_lineText]
    simp only [takeLine, hf, hs]
    refine ⟨?_, ?_, hlen.trans h.buffer, ?_⟩
    · rw [← h.taken, hc, List.append_assoc]
      congr 1
      unfold stdinTexts
      rw [chunks_line (by decide) hi]
      rfl
    · intro t ht
      rcases List.mem_append.mp ht with ht | ht
      · exact h.texts t ht
      · rw [List.mem_singleton.mp ht, hc]
        refine ⟨?_, fun b hb => lineText_ne_zero hb⟩
        simp only [bufSize] at *
        omega
    · have hframe : w.sent ++ (uint32Bytes o (strlen buf' + 1) ++ buf'.take (strlen buf' + 1)) =
          frames o (w.taken ++ [cString buf']) := by
        rw [frames_append, frames_singleton, hsent, strlen, hc, hbuf']
        congr 2
        rw [List.take_append, List.take_of_length_le (by omega)]
        simp
      rcases hn with rfl | rfl
      · exact ⟨Nat.zero_le _, hframe⟩
      · exact ⟨Nat.zero_lt_succ _, hframe⟩

theorem headerWrote_placed {o : ByteOrder} {w : Writer} {n : ℕ} (h : w.Placed o)
    (hpc : w.pc = .headerWrite) (hn : n ≤ (w.offered o).length) :
    (w.wrote o n .headerTest).Placed o := by
  simp only [Placed, hpc, unsent] at h
  rw [offered_header hpc] at hn
  simp only [List.length_drop, uint32Bytes_length] at hn
  constructor
  · simp only [wrote, sizeofLen] at *
    omega
  · simp only [wrote, unsent]
    rw [offered_header hpc, ← h.2, ← List.drop_drop]
    simp only [List.append_assoc]
    rw [← List.append_assoc (List.take n _), List.take_append_drop]

theorem payloadWrote_placed {o : ByteOrder} {w : Writer} {n : ℕ} (h : w.Placed o)
    (hpc : w.pc = .payloadWrite) : (w.wrote o n .payloadTest).Placed o := by
  simp only [Placed, hpc, unsent] at h
  change w.sent ++ (w.offered o).take n ++ (w.bufWrite.take w.len).drop (w.totalWritten + n) =
    frames o w.taken
  rw [offered_payload hpc, ← h.2, List.append_assoc, ← List.drop_drop, List.take_append_drop]

theorem startPayload_placed {o : ByteOrder} {w : Writer} (h : w.Placed o)
    (hpc : w.pc = .headerTest) (hl : ¬ w.totalWritten < sizeofLen) : w.startPayload.Placed o := by
  simp only [Placed, hpc, unsent] at h
  have hd : (uint32Bytes o w.len).drop w.totalWritten = [] := by
    apply List.drop_eq_nil_of_le
    simp only [uint32Bytes_length, sizeofLen] at *
    omega
  rw [hd, List.nil_append] at h
  exact h.2

theorem payloadDone_placed {o : ByteOrder} {w : Writer} (h : w.Placed o)
    (hpc : w.pc = .payloadTest) (hl : ¬ w.totalWritten < w.len) : (w.goto .top).Placed o := by
  simp only [Placed, hpc, unsent] at h
  rw [List.drop_eq_nil_of_le (by simp only [List.length_take]; omega), List.append_nil] at h
  exact h

theorem move_placed {o : ByteOrder} {w t : Writer} {a : WriterAction} (h : w.Placed o)
    (hm : WriterMove o w a t) (hf : w.pc ≠ .fgets)
    (hk : ∀ n, a = .write (.wrote n) → n ≤ (w.offered o).length) : t.Placed o := by
  cases hm with
  | signal => exact h
  | kill => exact h.sent_prefix
  | opened hpc =>
    simp only [Placed, hpc] at h
    exact h
  | idle a pc hpc hpc' _ =>
    rcases hpc with hpc | hpc <;> simp only [Placed, hpc] at h <;>
      rcases hpc' with rfl | rfl | rfl <;> exact h
  | takeLine next hpc _ => exact absurd hpc hf
  | headerTest hpc hl =>
    simp only [Placed, hpc, unsent] at h
    exact ⟨hl, h.2⟩
  | startPayload hpc hl => exact startPayload_placed h hpc hl
  | headerWrote n hpc => exact headerWrote_placed h hpc (hk n rfl)
  | headerWhole hpc =>
    have hn := hk sizeofLen rfl
    have hw := headerWrote_placed h hpc hn
    rw [offered_header hpc] at hn
    have hp := startPayload_placed hw rfl
      (by simp only [List.length_drop, uint32Bytes_length, sizeofLen, wrote] at *; omega)
    exact hp
  | headerShort n r hpc => exact wrote_prefix h n
  | headerRetry e hpc =>
    simp only [Placed, hpc, unsent] at h
    exact ⟨h.1.le, h.2⟩
  | payloadTest hpc hl =>
    simp only [Placed, hpc, unsent] at h
    exact ⟨hl, h⟩
  | payloadDone hpc hl => exact payloadDone_placed h hpc hl
  | payloadWrote n hpc => exact payloadWrote_placed h hpc
  | payloadRetry e hpc =>
    simp only [Placed, hpc, unsent] at h
    exact h.2
  | die a r ha => exact h.sent_prefix

theorem move_frame {o : ByteOrder} {w t : Writer} {a : WriterAction} (hm : WriterMove o w a t)
    (hf : w.pc ≠ .fgets) :
    t.taken = w.taken ∧ t.stdin = w.stdin ∧ t.bufWrite = w.bufWrite := by
  cases hm with
  | takeLine next hpc _ => exact absurd hpc hf
  | _ => exact ⟨rfl, rfl, rfl⟩

theorem move_correct {o : ByteOrder} {stdin : List Byte} {w t : Writer} {a : WriterAction}
    (h : w.Correct o stdin) (hm : WriterMove o w a t)
    (hk : ∀ n, a = .write (.wrote n) → n ≤ (w.offered o).length) : t.Correct o stdin := by
  by_cases hf : w.pc = .fgets
  · cases hm with
    | takeLine next hpc hn => exact takeLine_correct h hpc hn
    | signal => exact ⟨h.taken, h.texts, h.buffer, h.placed⟩
    | kill => exact ⟨h.taken, h.texts, h.buffer, h.placed.sent_prefix⟩
    | die a r ha => exact ⟨h.taken, h.texts, h.buffer, h.placed.sent_prefix⟩
    | _ => simp_all
  · obtain ⟨ht, hs, hb⟩ := move_frame hm hf
    refine ⟨?_, ?_, hb ▸ h.buffer, move_placed h.placed hm hf hk⟩
    · rw [ht, hs, h.taken]
    · rw [ht]
      exact h.texts

theorem takeLine_sent (w : Writer) (next : WriterPc) : (w.takeLine next).sent = w.sent := by
  unfold takeLine
  split
  · rfl
  · split <;> rfl

theorem move_sent {o : ByteOrder} {w t : Writer} {a : WriterAction} (hm : WriterMove o w a t) :
    t.sent = w.sent ++ w.transmits o a := by
  cases hm with
  | takeLine next hpc hn => rw [takeLine_sent]; exact (List.append_nil _).symm
  | idle a pc h hpc ha => rw [ha]; exact (List.append_nil _).symm
  | die a r ha => rw [ha]; exact (List.append_nil _).symm
  | headerWrote n hpc => rfl
  | headerWhole hpc => rfl
  | headerShort n r hpc => rfl
  | payloadWrote n hpc => rfl
  | _ => exact (List.append_nil _).symm

end Writer

end LinuxSystemProgramming.Fifo
