import LinuxSystemProgramming.Fifo.ReaderMoves
import LinuxSystemProgramming.Fifo.WriterMoves
import LinuxSystemProgramming.Lib.Transition

namespace LinuxSystemProgramming.Fifo

open CMemory Framing Transition

structure Setup (n : ℕ) where
  order : ByteOrder
  writer : Fin n → Variant
  reader : Variant
  stdin : Fin n → List Byte

structure Channel (n : ℕ) where
  writers : Fin n → Writer
  reader : Reader
  queue : List Byte

inductive ChannelAction (n : ℕ)
  | writer (i : Fin n) (a : WriterAction)
  | reader (a : ReaderAction)

namespace Channel

variable {n : ℕ}

def connected (c : Channel n) : Bool := decide (∃ i, (c.writers i).fd = true)

def writerAllowed (S : Setup n) (c : Channel n) (i : Fin n) : WriterAction → Bool
  | .write r => writeAllowed (S.writer i) ((c.writers i).offered S.order) c.reader.fd r
  | _ => true

def readerAllowed (S : Setup n) (c : Channel n) : ReaderAction → Bool
  | .read r => readAllowed S.reader c.queue c.connected (c.reader.requested S.order) r
  | .poll r => pollAllowed c.queue (!c.connected) r
  | _ => true

def next (S : Setup n) (c : Channel n) : ChannelAction n → Option (Channel n)
  | .writer i a =>
    if c.writerAllowed S i a then
      (writerMain (S.writer i) S.order (c.writers i) a).map (fun w =>
        { c with
          writers := Function.update c.writers i w
          queue := c.queue ++ (c.writers i).transmits S.order a })
    else none
  | .reader a =>
    if c.readerAllowed S a then
      (readerMain S.reader S.order c.reader a).map (fun r =>
        { c with reader := r, queue := c.queue.drop a.received.length })
    else none

def start (S : Setup n) : Channel n := ⟨fun i => Writer.initial (S.stdin i), Reader.initial, []⟩

end Channel

def channel {n : ℕ} (S : Setup n) : System (Channel n) (ChannelAction n) where
  init c := c = Channel.start S
  next := Channel.next S

namespace Channel

variable {n : ℕ} {S : Setup n}

theorem writer_cases {c d : Channel n} {i : Fin n} {a : WriterAction}
    (h : Channel.next S c (.writer i a) = some d) :
    c.writerAllowed S i a = true ∧ ∃ w, writerMain (S.writer i) S.order (c.writers i) a = some w ∧
      d = { c with
        writers := Function.update c.writers i w
        queue := c.queue ++ (c.writers i).transmits S.order a } := by
  obtain ⟨hk, hm⟩ := Option.ite_none_right_eq_some.mp h
  obtain ⟨w, hw, rfl⟩ := Option.map_eq_some_iff.mp hm
  exact ⟨hk, w, hw, rfl⟩

theorem next_cases {c d : Channel n} {a : ChannelAction n} (h : Channel.next S c a = some d) :
    (∃ i b w, a = .writer i b ∧ WriterMove S.order (c.writers i) b w ∧
        (∀ k, b = .write (.wrote k) → k ≤ ((c.writers i).offered S.order).length) ∧
        d.writers = Function.update c.writers i w ∧ d.reader = c.reader ∧
        d.queue = c.queue ++ (c.writers i).transmits S.order b) ∨
      ∃ b r, a = .reader b ∧ ReaderMove S.reader S.order c.reader b r ∧
        (∀ bytes, b = .read (.data bytes) → bytes.length ≤ c.reader.requested S.order) ∧
        c.queue = b.received ++ d.queue ∧ d.writers = c.writers ∧ d.reader = r := by
  cases a with
  | writer i b =>
    obtain ⟨hk, w, hw, rfl⟩ := writer_cases h
    refine Or.inl ⟨i, b, w, rfl, writerMain_move hw, ?_, rfl, rfl, rfl⟩
    rintro k rfl
    exact writeAllowed_bound (S.writer i) hk
  | reader b =>
    simp only [next, Option.ite_none_right_eq_some, Option.map_eq_some_iff] at h
    obtain ⟨hk, r, hr, rfl⟩ := h
    refine Or.inr ⟨b, r, rfl, readerMain_move hr, ?_, ?_, rfl, rfl⟩
    · rintro bytes rfl
      exact (readAllowed_bound S.reader c.connected hk).2
    · cases b with
      | read result =>
        cases result with
        | data bytes =>
          have hb := (readAllowed_bound S.reader c.connected hk).1
          change c.queue = bytes ++ c.queue.drop bytes.length
          conv_lhs => rw [← List.take_append_drop bytes.length c.queue, ← hb]
        | _ => rfl
      | _ => rfl

structure Processes (S : Setup n) (c : Channel n) : Prop where
  writers : ∀ i, (c.writers i).Correct S.order (S.stdin i)
  reader : c.reader.Correct S.order

theorem processes_next {c d : Channel n} {a : ChannelAction n} (h : c.Processes S)
    (hs : Channel.next S c a = some d) : d.Processes S := by
  rcases next_cases hs with ⟨i, b, w, -, hm, hk, hw, hr, -⟩ | ⟨b, r, -, hm, hk, -, hw, hr⟩
  · refine ⟨?_, hr ▸ h.reader⟩
    intro j
    rw [hw]
    by_cases hj : j = i
    · subst hj
      rw [Function.update_self]
      exact Writer.move_correct (h.writers j) hm hk
    · rw [Function.update_of_ne hj]
      exact h.writers j
  · exact ⟨hw ▸ h.writers, hr ▸ Reader.move_correct h.reader hm hk⟩

theorem processes_reachable {c : Channel n} (h : (channel S).Reachable c) : c.Processes S := by
  apply System.Reachable.induct _ _ h
  · rintro _ rfl
    exact ⟨fun i => Writer.correct_initial _ _, Reader.correct_initial _⟩
  · intro s a t _ hs hn
    exact processes_next hs hn

end Channel

theorem cString_payload {text : List Byte} (h : ∀ b ∈ text, b ≠ 0) :
    cString (payload text) = text := by
  rw [payload, cString_nul, cString_eq_self h]

theorem payload_valid {o : ByteOrder} {text : List Byte} (h : text.length < bufSize) :
    (fifoFormat o).valid (payload text).length = true := by
  rw [fifoFormat_valid, payload, List.length_append]
  exact ⟨Nat.succ_pos _, h⟩

theorem decode_frames {o : ByteOrder} {texts : List (List Byte)} {bytes : List Byte}
    (ht : ∀ t ∈ texts, t.length < bufSize ∧ ∀ b ∈ t, b ≠ 0) (h : bytes <+: frames o texts) :
    ((fifoFormat o).decode bytes).payloads.map cString <+: texts ∧
      ∀ hdr, ((fifoFormat o).decode bytes).phase ≠ .failed hdr := by
  have hv : ∀ p ∈ texts.map payload, (fifoFormat o).valid p.length = true := by
    intro p hp
    obtain ⟨t, htm, rfl⟩ := List.mem_map.mp hp
    exact payload_valid (ht t htm).1
  obtain ⟨hp, hf⟩ := Format.decode_prefix_encodeAll _ hv h
  refine ⟨?_, hf⟩
  have hm := List.IsPrefix.map cString hp
  rw [List.map_map] at hm
  have he : texts.map (cString ∘ payload) = texts := by
    conv_rhs => rw [← List.map_id texts]
    apply List.map_congr_left
    intro t htm
    exact cString_payload (ht t htm).2
  rwa [he] at hm

def oneWriter (o : ByteOrder) (w r : Variant) (stdin : List Byte) : Setup 1 :=
  ⟨o, fun _ => w, r, fun _ => stdin⟩

theorem oneWriter_bytes {S : Setup 1} {c : Channel 1} (h : (channel S).Reachable c) :
    c.reader.consumed ++ c.queue = (c.writers 0).sent := by
  apply System.Reachable.induct _ _ h
  · rintro _ rfl
    rfl
  · intro s a t _ hs hn
    rcases Channel.next_cases hn with
      ⟨i, b, w, -, hm, -, hw, hr, hq⟩ | ⟨b, r, -, hm, -, hq, hw, hr⟩
    · obtain rfl := Subsingleton.elim i 0
      rw [hw, hr, hq, Function.update_self, Writer.move_sent hm, ← hs, List.append_assoc]
    · rw [hr, Reader.move_consumed hm, hw, ← hs, hq, List.append_assoc]

/-- Everything the reader prints was taken from `stdin` by the writer, in order and unchanged, and
the reader never refuses a length. -/
theorem fifo_delivery (o : ByteOrder) (w r : Variant) (stdin : List Byte) {c : Channel 1}
    (h : (channel (oneWriter o w r stdin)).Reachable c) :
    c.reader.printed <+: (c.writers 0).taken ∧
      (c.writers 0).taken <+: stdinTexts stdin ∧
      ∀ len, c.reader.pc ≠ .exited .failure (.invalidLength len) := by
  obtain ⟨hw, hr⟩ := Channel.processes_reachable h
  have hsent : c.reader.consumed <+: frames o (c.writers 0).taken := by
    have hb := oneWriter_bytes h
    exact (hb ▸ List.prefix_append _ _ : c.reader.consumed <+: (c.writers 0).sent).trans
      (hw 0).placed.sent_prefix
  obtain ⟨hp, hf⟩ := decode_frames (hw 0).texts hsent
  exact ⟨hr.printed_prefix.trans hp, ⟨_, (hw 0).taken⟩, hr.accepts hf⟩

def splitReads : List (ChannelAction 1) :=
  [.reader (.mkfifo (some true)), .reader (.openFifo true), .writer 0 (.openFifo true),
    .writer 0 .run, .writer 0 (.fgets true), .writer 0 (.write (.wrote 4)), .reader .run,
    .reader .run, .reader (.read (.data [3, 0])), .writer 0 .run, .reader .run,
    .reader (.read (.error .eintr)), .reader .run, .reader (.read (.data [0, 0])), .reader .run,
    .reader (.malloc (some [7, 7, 7, 7])), .writer 0 (.write (.wrote 1)), .reader .run,
    .reader (.read (.data [104])), .writer 0 .run, .writer 0 (.write (.wrote 2)), .reader .run,
    .reader (.read (.data [105, 0])), .reader .run]

theorem fifo_delivery_splitReads : ∃ c : Channel 1, c.reader.printed = [[104, 105]] ∧
    c.reader.printed <+: (c.writers 0).taken ∧
    (c.writers 0).taken <+: stdinTexts [104, 105, 10] ∧
    ∀ len, c.reader.pc ≠ .exited .failure (.invalidLength len) := by
  let S := oneWriter .little .basics .basics [104, 105, 10]
  have hrun : ((channel S).run (Channel.start S) splitReads).map (fun c => c.reader.printed) =
      some [[104, 105]] := by decide +kernel
  obtain ⟨c, hc, hp⟩ := Option.map_eq_some_iff.mp hrun
  have hr : (channel S).Reachable c := .run splitReads (.init rfl) hc
  exact ⟨c, hp, fifo_delivery _ _ _ _ hr⟩

end LinuxSystemProgramming.Fifo
