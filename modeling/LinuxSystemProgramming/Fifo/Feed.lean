import LinuxSystemProgramming.Fifo.ReaderMoves
import LinuxSystemProgramming.Lib.Transition

/-!
A reader whose FIFO is fed with an arbitrary stream of bytes. `pending` is the part of the stream
that has not arrived; the stream ends where the last writer closes the FIFO.
-/

namespace LinuxSystemProgramming.Fifo

open CMemory Framing Transition

inductive Peer
  | absent
  | connected
  | closed
  deriving DecidableEq

structure Feed where
  reader : Reader
  queue : List Byte
  pending : List Byte
  peer : Peer
  deriving DecidableEq

inductive FeedAction
  | reader (a : ReaderAction)
  | connect
  | arrive (n : ℕ)
  | close
  deriving DecidableEq

namespace Feed

def readerAllowed (v : Variant) (o : ByteOrder) (f : Feed) : ReaderAction → Bool
  | .openFifo true => v = .nonblock ∨ f.peer ≠ .absent
  | .read r => readAllowed v f.queue (f.peer = .connected) (f.reader.requested o) r
  | .poll r => pollAllowed f.queue (f.peer = .closed) r
  | _ => true

def next (v : Variant) (o : ByteOrder) (f : Feed) : FeedAction → Option Feed
  | .reader a =>
    if f.readerAllowed v o a then
      (readerMain v o f.reader a).map (fun r =>
        { f with reader := r, queue := f.queue.drop a.received.length })
    else none
  | .connect => if f.peer = .absent then some { f with peer := .connected } else none
  | .arrive n =>
    if f.peer = .connected ∧ 0 < n ∧ n ≤ f.pending.length then
      some { f with queue := f.queue ++ f.pending.take n, pending := f.pending.drop n }
    else none
  | .close =>
    if f.peer = .connected ∧ f.pending = [] then some { f with peer := .closed } else none

def start (bytes : List Byte) : Feed := ⟨Reader.initial, [], bytes, .absent⟩

end Feed

def feed (v : Variant) (o : ByteOrder) (bytes : List Byte) : System Feed FeedAction where
  init f := f = Feed.start bytes
  next := Feed.next v o

@[simp] theorem feed_next (v : Variant) (o : ByteOrder) (bytes : List Byte) (f : Feed)
    (a : FeedAction) : (feed v o bytes).next f a = f.next v o a := rfl

-- No stop signal, and no call fails but for `EINTR` and, with `O_NONBLOCK`, `EAGAIN`.
def Undisturbed (v : Variant) (_ : Feed) : FeedAction → Prop
  | .reader a => a ≠ .signal ∧ a.fails v = false
  | _ => True

instance (v : Variant) (f : Feed) (a : FeedAction) : Decidable (Undisturbed v f a) :=
  match a with
  | .reader b => inferInstanceAs (Decidable (b ≠ .signal ∧ b.fails v = false))
  | .connect | .arrive _ | .close => .isTrue trivial

namespace Feed

theorem next_reader {v : Variant} {o : ByteOrder} {f : Feed} {a : ReaderAction} {t : Reader}
    (hk : f.readerAllowed v o a = true) (hm : readerMain v o f.reader a = some t) :
    f.next v o (.reader a) =
      some { f with reader := t, queue := f.queue.drop a.received.length } := by
  rw [next, if_pos hk, hm, Option.map_some]

theorem reader_cases {v : Variant} {o : ByteOrder} {f g : Feed} {a : ReaderAction}
    (h : f.next v o (.reader a) = some g) :
    f.readerAllowed v o a = true ∧ ∃ t, readerMain v o f.reader a = some t ∧
      g = { f with reader := t, queue := f.queue.drop a.received.length } := by
  obtain ⟨hk, hm⟩ := Option.ite_none_right_eq_some.mp h
  obtain ⟨t, ht, rfl⟩ := Option.map_eq_some_iff.mp hm
  exact ⟨hk, t, ht, rfl⟩

theorem outside_reader {v : Variant} {o : ByteOrder} {f g : Feed} {a : FeedAction}
    (h : f.next v o a = some g) (ha : ∀ b, a ≠ .reader b) : g.reader = f.reader := by
  cases a with
  | reader b => exact absurd rfl (ha b)
  | connect | arrive | close =>
    obtain ⟨-, hg⟩ := Option.ite_none_right_eq_some.mp h
    rw [← Option.some.inj hg]

theorem readerAllowed_data {v : Variant} {o : ByteOrder} {f : Feed} {bytes : List Byte}
    (h : f.readerAllowed v o (.read (.data bytes)) = true) :
    bytes = f.queue.take bytes.length ∧ bytes.length ≤ f.reader.requested o :=
  readAllowed_bound v (decide (f.peer = .connected)) h

theorem readerAllowed_eof {v : Variant} {o : ByteOrder} {f : Feed}
    (h : f.readerAllowed v o (.read .eof) = true) : f.queue = [] ∧ f.peer ≠ .connected := by
  simpa [readerAllowed, readAllowed] using h

theorem received_queue {v : Variant} {o : ByteOrder} {f : Feed} {a : ReaderAction}
    (h : f.readerAllowed v o a = true) :
    f.queue = a.received ++ f.queue.drop a.received.length := by
  cases a with
  | read result =>
    cases result with
    | data bytes =>
      have hb := (readerAllowed_data h).1
      change f.queue = bytes ++ f.queue.drop bytes.length
      conv_lhs => rw [← List.take_append_drop bytes.length f.queue, ← hb]
    | _ => rfl
  | _ => rfl

def Early (v : Variant) (s : Reader) : Prop :=
  match s.pc with
  | .mkfifo | .open | .exited _ _ => True
  | .top | .poll => v = .nonblock
  | _ => False

def Gated (v : Variant) (f : Feed) : Prop :=
  match f.reader.pc with
  | .poll => v = .nonblock
  | .headerTest | .headerRead => v = .nonblock → f.reader.totalRead = 0 → f.queue ≠ []
  | _ => True

structure Inv (v : Variant) (o : ByteOrder) (bytes : List Byte) (f : Feed) : Prop where
  correct : f.reader.Correct o
  history : f.reader.consumed ++ (f.queue ++ f.pending) = bytes
  absent : f.peer = .absent → f.queue = [] ∧ Early v f.reader
  closed : f.peer = .closed → f.pending = []
  ended : (∃ r, f.reader.pc = .exited .success r) ∨ f.reader.pc = .exited .failure .closedMidMessage →
    f.queue = [] ∧ f.peer = .closed
  gated : f.Gated v

theorem inv_start (v : Variant) (o : ByteOrder) (bytes : List Byte) :
    (start bytes).Inv v o bytes := by
  refine ⟨Reader.correct_initial o, rfl, fun _ => ⟨rfl, trivial⟩, ?_, ?_, trivial⟩
  · intro h
    cases h
  · rintro (⟨r, h⟩ | h) <;> cases h

theorem early_move {v : Variant} {o : ByteOrder} {f : Feed} {a : ReaderAction} {t : Reader}
    (hk : f.readerAllowed v o a = true) (hm : ReaderMove v o f.reader a t)
    (hp : f.peer = .absent) (hq : f.queue = []) (he : Early v f.reader) : Early v t := by
  cases hm with
  | signal => exact he
  | created b hpc => trivial
  | opened hpc =>
    simp only [readerAllowed, decide_eq_true_eq] at hk
    exact hk.resolve_right (fun h => h hp)
  | start hpc hv =>
    subst hv
    simp [Early, hpc] at he
  | callPoll hpc hv => exact hv
  | polled hup hpc hv => simp [readerAllowed, pollAllowed, hq] at hk
  | nothing r hpc hv hr => exact hv
  | die a msg hd ha hf => trivial
  | headerTest hpc hl | checkLength hpc hl | headerData bytes hpc | headerRetry e hpc
  | headerEof hpc | allocated block hpc hl | payloadTest hpc hl | printMessage hpc hl
  | payloadData bytes hpc | payloadRetry e hpc | payloadEof hpc =>
    simp [Early, hpc] at he

theorem ended_move {v : Variant} {o : ByteOrder} {s t : Reader} {a : ReaderAction}
    (hm : ReaderMove v o s a t)
    (ht : (∃ r, t.pc = .exited .success r) ∨ t.pc = .exited .failure .closedMidMessage) :
    a = .signal ∧ t.pc = s.pc ∨
      a = .read .eof ∧ (s.pc = .headerRead ∨ s.pc = .payloadRead) := by
  cases hm with
  | signal => exact .inl ⟨rfl, rfl⟩
  | headerEof hpc => exact .inr ⟨rfl, .inl hpc⟩
  | payloadEof hpc => exact .inr ⟨rfl, .inr hpc⟩
  | checkLength hpc hl =>
    exfalso
    unfold Reader.checkLength at ht
    split_ifs at ht <;> simp [Reader.die, Reader.exit, Reader.goto] at ht
  | headerData bytes hpc =>
    exfalso
    unfold Reader.storeLength at ht
    split at ht <;> simp at ht
  | payloadData bytes hpc =>
    exfalso
    unfold Reader.storePayload at ht
    split at ht <;> simp at ht
  | printMessage hpc hl =>
    exfalso
    unfold Reader.printMessage at ht
    split at ht <;> simp [Reader.goto] at ht
  | _ => simp [Reader.goto, Reader.startMessage, Reader.allocated, Reader.die, Reader.exit] at ht

theorem gated_move {v : Variant} {o : ByteOrder} {f : Feed} {a : ReaderAction} {t : Reader}
    (h : f.Gated v) (hk : f.readerAllowed v o a = true) (hm : ReaderMove v o f.reader a t) :
    Gated v { f with reader := t, queue := f.queue.drop a.received.length } := by
  cases hm with
  | signal => exact h
  | start hpc hv =>
    rintro rfl
    cases hv
  | callPoll hpc hv => exact hv
  | polled hup hpc hv =>
    have hq : f.queue ≠ [] := by
      rintro hq
      simp [readerAllowed, pollAllowed, hq] at hk
    exact fun _ _ => hq
  | headerTest hpc hl =>
    simp only [Gated, hpc] at h
    exact h
  | headerRetry e hpc =>
    simp only [Gated, hpc] at h
    exact h
  | headerData bytes hpc =>
    have hb : bytes ≠ [] := by
      simp only [readerAllowed, readAllowed, decide_eq_true_eq] at hk
      exact hk.1
    have hl := List.length_pos_of_ne_nil hb
    unfold Reader.storeLength Gated
    cases store f.reader.msgLen f.reader.totalRead bytes with
    | none => trivial
    | some obj =>
      intro _ h0
      simp only at h0
      omega
  | checkLength hpc hl =>
    unfold Reader.checkLength
    split_ifs <;> trivial
  | payloadData bytes hpc =>
    unfold Reader.storePayload Gated
    cases store f.reader.bufRead f.reader.totalRead bytes <;> trivial
  | printMessage hpc hl =>
    unfold Reader.printMessage Gated
    cases store f.reader.bufRead (f.reader.len o) [0] <;> trivial
  | _ => trivial

-- `read` returns 0 only where the stream has ended.
theorem eof_closed {v : Variant} {o : ByteOrder} {bytes : List Byte} {f : Feed}
    (h : f.Inv v o bytes) (hk : f.readerAllowed v o (.read .eof) = true)
    (hs : f.reader.pc = .headerRead ∨ f.reader.pc = .payloadRead) :
    f.queue = [] ∧ f.peer = .closed := by
  obtain ⟨hq, hc⟩ := readerAllowed_eof hk
  refine ⟨hq, ?_⟩
  cases hp : f.peer with
  | connected => exact absurd hp hc
  | closed => rfl
  | absent =>
    have he := (h.absent hp).2
    rcases hs with hs | hs <;> simp [Early, hs] at he

theorem inv_reader {v : Variant} {o : ByteOrder} {bytes : List Byte} {f : Feed} {a : ReaderAction}
    {t : Reader} (h : f.Inv v o bytes) (hk : f.readerAllowed v o a = true)
    (hm : ReaderMove v o f.reader a t) :
    Inv v o bytes { f with reader := t, queue := f.queue.drop a.received.length } := by
  have hq := received_queue hk
  refine ⟨?_, ?_, ?_, h.closed, ?_, gated_move h.gated hk hm⟩
  · apply Reader.move_correct h.correct hm
    rintro block rfl
    exact (readerAllowed_data hk).2
  · rw [← h.history, Reader.move_consumed hm, List.append_assoc]
    conv_rhs => rw [hq]
    simp only [List.append_assoc]
  · intro hp
    obtain ⟨hqe, he⟩ := h.absent hp
    exact ⟨by simp only [hqe, List.drop_nil], early_move hk hm hp hqe he⟩
  · intro ht
    rcases ended_move hm ht with ⟨rfl, hs⟩ | ⟨rfl, hs⟩
    · exact h.ended (hs ▸ ht)
    · obtain ⟨hqe, hc⟩ := eof_closed h hk hs
      exact ⟨by simp only [hqe, List.drop_nil], hc⟩

theorem gated_arrive {v : Variant} {f : Feed} (h : f.Gated v) (n : ℕ) :
    Gated v { f with queue := f.queue ++ f.pending.take n, pending := f.pending.drop n } := by
  cases hpc : f.reader.pc <;> simp only [Gated, hpc] at h ⊢
  case poll => exact h
  case headerTest | headerRead =>
    intro hv h0 hq
    exact h hv h0 (List.append_eq_nil_iff.mp hq).1

theorem inv_next {v : Variant} {o : ByteOrder} {bytes : List Byte} {f g : Feed} {a : FeedAction}
    (h : f.Inv v o bytes) (hn : f.next v o a = some g) : g.Inv v o bytes := by
  cases a with
  | reader b =>
    obtain ⟨hk, t, ht, rfl⟩ := reader_cases hn
    exact inv_reader h hk (readerMain_move ht)
  | connect =>
    obtain ⟨hp, hg⟩ := Option.ite_none_right_eq_some.mp hn
    obtain rfl := Option.some.inj hg
    refine ⟨h.correct, h.history, by simp, by simp, ?_, h.gated⟩
    intro he
    exact absurd (h.ended he).2 (by simp [hp])
  | arrive n =>
    obtain ⟨⟨hp, -, -⟩, hg⟩ := Option.ite_none_right_eq_some.mp hn
    obtain rfl := Option.some.inj hg
    refine ⟨h.correct, ?_, by simp [hp], by simp [hp], ?_, gated_arrive h.gated _⟩
    · rw [← h.history]
      simp only [List.append_assoc, List.take_append_drop]
    · intro he
      exact absurd (h.ended he).2 (by simp [hp])
  | close =>
    obtain ⟨⟨hp, hb⟩, hg⟩ := Option.ite_none_right_eq_some.mp hn
    obtain rfl := Option.some.inj hg
    refine ⟨h.correct, h.history, by simp, fun _ => hb, ?_, h.gated⟩
    intro he
    exact absurd (h.ended he).2 (by simp [hp])

theorem inv_reachable {v : Variant} {o : ByteOrder} {bytes : List Byte} {f : Feed}
    (h : (feed v o bytes).Reachable f) : f.Inv v o bytes := by
  apply System.Reachable.induct _ _ h
  · rintro _ rfl
    exact inv_start v o bytes
  · intro s a t _ hs hn
    exact inv_next hs hn

end Feed

end LinuxSystemProgramming.Fifo
