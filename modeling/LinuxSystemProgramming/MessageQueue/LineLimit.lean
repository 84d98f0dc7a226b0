import LinuxSystemProgramming.Lib.TextLines
import LinuxSystemProgramming.MessageQueue.Delivery

namespace LinuxSystemProgramming.MessageQueue

open CMemory NamedObjects Transition

structure Record where
  passed : List (List Byte)
  rejected : ℕ
  deriving DecidableEq

def Record.line (r : Record) (s : Sender) : Record :=
  match s.pc with
  | .send => { r with passed := r.passed ++ [s.text] }
  | .top => { r with rejected := r.rejected + 1 }
  | _ => r

def observe (i : ℕ) (e : Exchange) (a : Action) (r : Record) : Record :=
  match a with
  | .sender j (.fgets bufWrite) => if j = i then r.line ((e.senders i).takeLine bufWrite) else r
  | _ => r

def observed (stdin : ℕ → List Byte) (i : ℕ) : System (Exchange × Record) Action where
  init x := x = (Exchange.start stdin, ⟨[], 0⟩)
  next x a := (x.1.next a).map (fun e => (e, observe i x.1 a x.2))

/-- Each line that the program announces to be short enough is a message, and each other line is
rejected as a whole. `size` is the `mq_msgsize` that the run has found. -/
structure LengthPolicy (stdin : ℕ → List Byte) (i size : ℕ) (lines : List TextLine) : Prop where
  ordered : ∀ e r, (observed stdin i).Reachable (e, r) → (e.senders i).msgsize = size →
    r.passed <+: (lines.filter (fun l => l.text.length ≤ size - 1)).map TextLine.text ∧
      r.rejected ≤ (lines.filter (fun l => ¬ l.text.length ≤ size - 1)).length
  complete : ∀ e r, (observed stdin i).Reachable (e, r) → (e.senders i).msgsize = size →
    (e.senders i).stdin = [] →
    r.passed = (lines.filter (fun l => l.text.length ≤ size - 1)).map TextLine.text ∧
      r.rejected = (lines.filter (fun l => ¬ l.text.length ≤ size - 1)).length
  bounded : ∀ e r, (observed stdin i).Reachable (e, r) → (e.senders i).msgsize = size →
    ∀ text ∈ r.passed, text.length ≤ size

def texts (size : ℕ) (input : List Byte) : List (List Byte) :=
  (chunks (size - 1) input).map lineText

variable {stdin : ℕ → List Byte} {e f : Exchange} {r r' : Record} {s t : Sender} {i : ℕ}

-- The rest of the line has not been looked at, and the text is always short enough.
theorem takeLine_text {buf : List Byte} (hs : 2 ≤ s.msgsize) (hb : buf.length = s.msgsize)
    (hi : s.stdin ≠ []) : s.takeLine buf =
      { s with
        stdin := s.stdin.drop (line (s.msgsize - 1) s.stdin).length
        text := lineText (line (s.msgsize - 1) s.stdin)
        pc := .send } := by
  obtain ⟨taken, buf', rest, hf, hstore, -, rfl⟩ := fgets_strip (by omega) hb.ge hi
  have hle := lineText_length_le (s.msgsize - 1) s.stdin
  have hshort : ¬ strlen (lineText (line (s.msgsize - 1) s.stdin) ++ 0 :: rest) ≥ s.msgsize := by
    rw [strlen, cString_lineText]
    omega
  simp only [Sender.takeLine, hf, hstore, if_neg hshort, cString_lineText]

theorem takeLine_end {buf : List Byte} (hi : s.stdin = []) : s.takeLine buf = s.goto .close := by
  have hf : CMemory.fgets buf s.msgsize s.stdin = none := if_pos hi
  rw [Sender.takeLine, hf]

inductive Reads (s : Sender) : Sender → Prop
  | kept (t : Sender) (hs : t.stdin = s.stdin) (hm : t.msgsize = s.msgsize)
      (hpc : t.pc = .open ∨ t.pc = .getattr → s.pc = .open ∨ s.pc = .getattr) : Reads s t
  | getattr (size : ℕ) (hpc : s.pc = .getattr) : Reads s { s with msgsize := size, pc := .top }

theorem sender_reads {a : SenderAction} (h : e.sender i a = some f)
    (ha : ∀ buf, a ≠ .fgets buf) : Reads (e.senders i) (f.senders i) := by
  cases a with
  | signal =>
    simp only [Exchange.sender, Option.some.injEq] at h
    subst h
    simp only [Exchange.setSender, Function.update_self]
    exact .kept _ rfl rfl id
  | mqOpen attr =>
    cases hpc : (e.senders i).pc <;> simp only [Exchange.sender, hpc, reduceCtorEq] at h
    obtain ⟨-, h⟩ := Option.ite_none_right_eq_some.mp h
    obtain rfl := Option.some.inj h
    simp only [Exchange.setSender, Function.update_self]
    exact .kept _ rfl rfl (fun _ => .inl hpc)
  | fgets buf => exact absurd rfl (ha buf)
  | fails =>
    cases hpc : (e.senders i).pc <;> simp only [Exchange.sender, hpc, reduceCtorEq] at h
    all_goals
      obtain rfl := Option.some.inj h
      simp only [Exchange.setSender, Function.update_self]
      exact .kept _ rfl rfl (by simp [Sender.goto])
  | run =>
    cases hpc : (e.senders i).pc <;> simp only [Exchange.sender, hpc, reduceCtorEq] at h
    case getattr =>
      obtain ⟨q, -, rfl⟩ := Option.map_eq_some_iff.mp h
      simp only [Exchange.setSender, Function.update_self]
      exact .getattr _ hpc
    case send =>
      obtain ⟨q, -, hs⟩ := Option.bind_eq_some_iff.mp h
      obtain ⟨-, hs⟩ := Option.ite_none_right_eq_some.mp hs
      obtain rfl := Option.some.inj hs
      simp only [Exchange.setSender, Function.update_self]
      exact .kept _ rfl rfl (by simp [Sender.goto])
    all_goals
      obtain rfl := Option.some.inj h
      simp only [Exchange.setSender, Function.update_self]
      refine .kept _ rfl rfl ?_
      try split_ifs
      all_goals simp [Sender.goto]

theorem sender_other {a : SenderAction} {j : ℕ} (h : e.sender j a = some f) (hj : i ≠ j) :
    f.senders i = e.senders i := by
  cases sender_move h <;> exact Function.update_of_ne hj _ _

theorem receiver_other {a : ReceiverAction} (h : e.receiverMain a = some f) :
    f.senders i = e.senders i := by
  cases receiver_move h <;> rfl

structure Cut (input : List Byte) (s : Sender) (r : Record) : Prop where
  early : s.pc = .open ∨ s.pc = .getattr → s.stdin = input ∧ r = ⟨[], 0⟩
  cut : 2 ≤ s.msgsize → r.passed ++ texts s.msgsize s.stdin = texts s.msgsize input ∧ r.rejected = 0

theorem Cut.reads {input : List Byte} (h : Cut input s r) (hr : Reads s t) : Cut input t r := by
  cases hr with
  | kept t hs hm hpc =>
    refine ⟨?_, ?_⟩
    · intro he
      rw [hs]
      exact h.early (hpc he)
    · rw [hs, hm]
      exact h.cut
  | getattr size hpc =>
    obtain ⟨hs, rfl⟩ := h.early (.inr hpc)
    refine ⟨?_, ?_⟩
    · rintro (he | he) <;> cases he
    · intro _
      rw [hs]
      exact ⟨rfl, rfl⟩

theorem takeLine_frame (s : Sender) (buf : List Byte) :
    (s.takeLine buf).msgsize = s.msgsize ∧ (s.takeLine buf).pc ≠ .open ∧
      (s.takeLine buf).pc ≠ .getattr := by
  unfold Sender.takeLine
  split
  · simp [Sender.goto]
  · split
    · simp [Sender.goto]
    · split_ifs <;> simp

theorem texts_cons {size : ℕ} {input : List Byte} (hs : 2 ≤ size) (hi : input ≠ []) :
    texts size input = lineText (line (size - 1) input) ::
      texts size (input.drop (line (size - 1) input).length) := by
  rw [texts, chunks_line (by omega) hi, List.map_cons]
  rfl

theorem Cut.takeLine {input buf : List Byte} (h : Cut input s r) (hb : buf.length = s.msgsize) :
    Cut input (s.takeLine buf) (r.line (s.takeLine buf)) := by
  obtain ⟨hm, hopen, hgetattr⟩ := takeLine_frame s buf
  refine ⟨?_, ?_⟩
  · rintro (he | he)
    · exact absurd he hopen
    · exact absurd he hgetattr
  · intro hs
    rw [hm] at hs ⊢
    obtain ⟨hcut, hrejected⟩ := h.cut hs
    by_cases hi : s.stdin = []
    · rw [takeLine_end hi]
      exact ⟨hcut, hrejected⟩
    · rw [takeLine_text hs hb hi]
      refine ⟨?_, hrejected⟩
      rw [← hcut, texts_cons hs hi]
      exact List.append_assoc _ _ _

theorem cut_next {input : List Byte} {a : Action} (h : Cut input (e.senders i) r)
    (hn : e.next a = some f) : Cut input (f.senders i) (observe i e a r) := by
  cases a with
  | receiver b =>
    rw [receiver_other hn]
    exact h
  | sender j b =>
    change e.sender j b = some f at hn
    by_cases hj : i = j
    · subst hj
      by_cases hb : ∃ buf, b = .fgets buf
      · obtain ⟨buf, rfl⟩ := hb
        cases hpc : (e.senders i).pc <;> simp only [Exchange.sender, hpc, reduceCtorEq] at hn
        obtain ⟨hlen, hn⟩ := Option.ite_none_right_eq_some.mp hn
        obtain rfl := Option.some.inj hn
        simp only [Exchange.setSender, Function.update_self, observe, if_true]
        exact h.takeLine hlen
      · have hquiet : observe i e (.sender i b) r = r := by
          cases b with
          | fgets buf => exact absurd ⟨buf, rfl⟩ hb
          | _ => rfl
        rw [hquiet]
        exact h.reads (sender_reads hn (fun buf he => hb ⟨buf, he⟩))
    · have hquiet : observe i e (.sender j b) r = r := by
        cases b with
        | fgets buf => exact if_neg (fun he => hj he.symm)
        | _ => rfl
      rw [hquiet, sender_other hn hj]
      exact h

theorem cut_reachable (h : (observed stdin i).Reachable (e, r)) :
    Cut (stdin i) (e.senders i) r := by
  have hall : ∀ x : Exchange × Record, (observed stdin i).Reachable x →
      Cut (stdin i) (x.1.senders i) x.2 := by
    intro x hx
    apply System.Reachable.induct (I := fun x => Cut (stdin i) (x.1.senders i) x.2) ?_ ?_ hx
    · rintro _ rfl
      exact ⟨fun _ => ⟨rfl, rfl⟩, fun hs => absurd (show 2 ≤ 0 from hs) (by decide)⟩
    · intro x a y _ hc hn
      obtain ⟨f, hf, rfl⟩ := Option.map_eq_some_iff.mp hn
      exact cut_next hc hf
  exact hall _ h

def pending (s : Sender) : ℕ := if s.pc = .send then 1 else 0

structure Alone (i size : ℕ) (e : Exchange) (q : ℕ) : Prop where
  stop : (e.senders i).stopFlag = false
  found : (e.senders i).msgsize = size
  pc : (e.senders i).pc = .top ∨ (e.senders i).pc = .fgets ∨ (e.senders i).pc = .send ∨
    (e.senders i).pc = .print
  mqd : (e.senders i).mqd = some q
  msgsize : (e.kernel.object q).attr.msgsize = size
  room : (e.kernel.object q).messages.length + (e.senders i).stdin.length + pending (e.senders i) <
    (e.kernel.object q).attr.maxmsg
  text : (e.senders i).pc = .send → (e.senders i).text.length ≤ size

def rank (s : Sender) : ℕ :=
  4 * s.stdin.length +
    match s.pc with
    | .send => 3
    | .print => 2
    | .top => 1
    | _ => 0

theorem alone_setSender {size q : ℕ} (h : Alone i size e q) (hstop : s.stopFlag = false)
    (hsize : s.msgsize = size) (hpc : s.pc = .top ∨ s.pc = .fgets ∨ s.pc = .send ∨ s.pc = .print)
    (hmqd : s.mqd = some q)
    (hroom : s.stdin.length + pending s ≤
      (e.senders i).stdin.length + pending (e.senders i))
    (htext : s.pc = .send → s.text.length ≤ size) : Alone i size (e.setSender i s) q := by
  have hs : (e.setSender i s).senders i = s := Function.update_self _ _ _
  have hr := h.room
  refine ⟨?_, ?_, ?_, ?_, h.msgsize, ?_, ?_⟩ <;> rw [hs]
  · exact hstop
  · exact hsize
  · exact hpc
  · exact hmqd
  · change (e.kernel.object q).messages.length + _ + _ < (e.kernel.object q).attr.maxmsg
    omega
  · exact htext

theorem alone_fgets {size q : ℕ} (hs : 2 ≤ size) (h : Alone i size e q)
    (hpc : (e.senders i).pc = .fgets) (hi : (e.senders i).stdin ≠ []) :
    ∃ f, e.next (.sender i (.fgets (List.replicate size 0))) = some f ∧ Alone i size f q ∧
      rank (f.senders i) < rank (e.senders i) := by
  have hsize := h.found
  have hbuf : (List.replicate size (0 : Byte)).length = (e.senders i).msgsize := by
    rw [hsize, List.length_replicate]
  have htake := takeLine_text (hsize ▸ hs) hbuf hi
  have hle := lineText_length_le ((e.senders i).msgsize - 1) (e.senders i).stdin
  have hpos := line_length_pos (n := (e.senders i).msgsize - 1) (by omega) hi
  have hlen := List.length_pos_iff.mpr hi
  refine ⟨e.setSender i ((e.senders i).takeLine (List.replicate size 0)), ?_, ?_, ?_⟩
  · change e.sender i _ = _
    simp only [Exchange.sender, hpc, if_pos hbuf]
  · rw [htake]
    refine alone_setSender h ?_ ?_ (.inr (.inr (.inl rfl))) ?_ ?_ ?_
    · exact h.stop
    · exact hsize
    · exact h.mqd
    · simp only [pending, hpc, List.length_drop, if_true, reduceCtorEq, if_false]
      omega
    · intro _
      change (lineText _).length ≤ size
      omega
  · rw [htake]
    simp only [Exchange.setSender, Function.update_self, rank, hpc, List.length_drop]
    omega

theorem alone_send {size q : ℕ} (h : Alone i size e q) (hpc : (e.senders i).pc = .send) :
    ∃ f, e.next (.sender i .run) = some f ∧ Alone i size f q ∧
      rank (f.senders i) < rank (e.senders i) := by
  have hroom := h.room
  have hsize := h.msgsize
  rw [pending, if_pos hpc] at hroom
  have hok : (e.kernel.object q).messages.length < (e.kernel.object q).attr.maxmsg ∧
      (e.senders i).text.length ≤ (e.kernel.object q).attr.msgsize := by
    rw [hsize]
    exact ⟨by omega, h.text hpc⟩
  refine ⟨{ e with
      kernel := e.kernel.modify q (fun b => { b with messages := b.messages ++ [e.message i] })
      sent := e.sent ++ [e.message i] }.setSender i ((e.senders i).goto .print), ?_, ?_, ?_⟩
  · change e.sender i _ = _
    simp only [Exchange.sender, hpc, h.mqd, Option.bind_some, Exchange.mqSend, if_pos hok]
  · refine ⟨?_, ?_, ?_, ?_, ?_, ?_, ?_⟩ <;>
      simp only [Exchange.setSender, Function.update_self, Sender.goto, Store.modify_object_self]
    · exact h.stop
    · exact h.found
    · simp
    · exact h.mqd
    · exact hsize
    · simp only [pending, List.length_append, List.length_singleton, reduceCtorEq, if_false]
      omega
    · rintro ⟨⟩
  · simp only [Exchange.setSender, Function.update_self, Sender.goto, rank, hpc]
    omega

theorem alone_next {size q : ℕ} (hs : 2 ≤ size) (h : Alone i size e q)
    (hi : (e.senders i).stdin ≠ []) :
    ∃ a f, e.next a = some f ∧ Alone i size f q ∧ rank (f.senders i) < rank (e.senders i) := by
  rcases h.pc with hpc | hpc | hpc | hpc
  · refine ⟨.sender i .run, e.setSender i ((e.senders i).goto .fgets), ?_, ?_, ?_⟩
    · change e.sender i _ = _
      simp [Exchange.sender, hpc, h.stop]
    · exact alone_setSender h h.stop h.found (.inr (.inl rfl)) h.mqd
        (by simp [pending, hpc, Sender.goto]) (by rintro ⟨⟩)
    · simp [Exchange.setSender, Sender.goto, rank, hpc]
  · obtain ⟨f, hf⟩ := alone_fgets hs h hpc hi
    exact ⟨_, f, hf⟩
  · obtain ⟨f, hf⟩ := alone_send h hpc
    exact ⟨_, f, hf⟩
  · refine ⟨.sender i .run, { e with acked := e.acked ++ [e.message i] }.setSender i
      { e.senders i with lines := (e.senders i).lines + 1, pc := .top }, ?_, ?_, ?_⟩
    · change e.sender i _ = _
      simp [Exchange.sender, hpc]
    · have h' : Alone i size { e with acked := e.acked ++ [e.message i] } q :=
        ⟨h.stop, h.found, h.pc, h.mqd, h.msgsize, h.room, h.text⟩
      exact alone_setSender h' h.stop h.found (.inl rfl) h.mqd (by simp [pending, hpc])
        (by rintro ⟨⟩)
    · simp [Exchange.setSender, rank, hpc]

theorem alone_started (stdin : ℕ → List Byte) (i : ℕ) {size : ℕ} (hs : 2 ≤ size) :
    ∃ x : Exchange × Record, (observed stdin i).Reachable x ∧ ∃ q, Alone i size x.1 q := by
  let attr : Attr := ⟨(stdin i).length + 1, size⟩
  let opened := (Store.empty (⟨⟨0, 0⟩, []⟩ : Queue)).openCreate ⟨attr, []⟩
  let e₁ := { Exchange.start stdin with kernel := opened.1 }.setSender i
    { Sender.initial (stdin i) with mqd := some opened.2, pc := .getattr }
  let e₂ := e₁.setSender i
    { Sender.initial (stdin i) with mqd := some opened.2, pc := .top, msgsize := size }
  have hopened : opened = (Store.create (Store.empty ⟨⟨0, 0⟩, []⟩) ⟨attr, []⟩, 0) :=
    Store.openCreate_of_none _ rfl
  have hattr : 0 < attr.maxmsg ∧ 0 < attr.msgsize := ⟨Nat.succ_pos _, by change 0 < size; omega⟩
  have h₁ : (Exchange.start stdin).next (.sender i (.mqOpen attr)) = some e₁ := if_pos hattr
  have hs₁ : e₁.senders i = { Sender.initial (stdin i) with mqd := some opened.2, pc := .getattr } :=
    Function.update_self _ _ _
  have hs₂ : e₂.senders i =
      { Sender.initial (stdin i) with mqd := some opened.2, pc := .top, msgsize := size } :=
    Function.update_self _ _ _
  have hq : e₂.kernel.object opened.2 = ⟨attr, []⟩ := by
    change opened.1.object opened.2 = _
    rw [hopened]
    exact Store.create_object_fresh _ _
  have h₂ : e₁.next (.sender i .run) = some e₂ := by
    change e₁.sender i .run = _
    simp only [Exchange.sender, hs₁, Option.map_some]
    rfl
  refine ⟨(e₂, ⟨[], 0⟩), ?_, opened.2, ?_⟩
  · have hr₀ : (observed stdin i).Reachable (Exchange.start stdin, ⟨[], 0⟩) := .init rfl
    have hr₁ : (observed stdin i).Reachable (e₁, ⟨[], 0⟩) :=
      hr₀.step (.sender i (.mqOpen attr)) (congrArg (Option.map _) h₁)
    exact hr₁.step (.sender i .run) (congrArg (Option.map _) h₂)
  · refine ⟨?_, ?_, ?_, ?_, ?_, ?_, ?_⟩
    · rw [hs₂]
      rfl
    · rw [hs₂]
    · rw [hs₂]
      exact .inl rfl
    · rw [hs₂]
    · rw [hq]
    · rw [hq, hs₂]
      simp [pending, Sender.initial, attr]
    · rw [hs₂]
      rintro ⟨⟩

theorem end_reached (stdin : ℕ → List Byte) (i : ℕ) {size : ℕ} (hs : 2 ≤ size) :
    ∃ e r, (observed stdin i).Reachable (e, r) ∧ (e.senders i).msgsize = size ∧
      (e.senders i).stdin = [] := by
  obtain ⟨x, hx, q, ha⟩ := alone_started stdin i hs
  have hpath : ∃ y, (observed stdin i).PathWhile (fun _ _ => True) x y ∧
      (y.1.senders i).msgsize = size ∧ (y.1.senders i).stdin = [] := by
    apply System.progress_from (I := fun x => Alone i size x.1 q) (fun x => rank (x.1.senders i)) ?_ ha
    intro x ha hd
    have hi : (x.1.senders i).stdin ≠ [] := by
      intro hi
      exact hd ⟨ha.found, hi⟩
    obtain ⟨a, f, hn, hf, hlt⟩ := alone_next hs ha hi
    have hstep : (observed stdin i).next x a = some (f, observe i x.1 a x.2) := by
      change (x.1.next a).map _ = _
      rw [hn]
      rfl
    exact ⟨_, ⟨a, trivial, hstep⟩, hf, hlt⟩
  obtain ⟨y, hp, hsize, hi⟩ := hpath
  exact ⟨y.1, y.2, hx.path hp, hsize, hi⟩

theorem texts_joined (size : ℕ) (lines : List TextLine) :
    texts size (joined lines) = lines.flatMap (pieces (size - 1)) :=
  chunks_joined (size - 1) lines

theorem texts_length_le {size : ℕ} (hs : 2 ≤ size) {input text : List Byte}
    (h : text ∈ texts size input) : text.length ≤ size := by
  obtain ⟨chunk, hc, rfl⟩ := List.mem_map.mp h
  have htext : (lineText chunk).length ≤ chunk.length := (List.takeWhile_prefix _).length_le
  have hchunk := chunks_length_le (by omega) hc
  omega

theorem passed_texts {size : ℕ} (hs : 2 ≤ size) (h : (observed stdin i).Reachable (e, r))
    (hm : (e.senders i).msgsize = size) :
    r.passed ++ texts size (e.senders i).stdin = texts size (stdin i) ∧ r.rejected = 0 := by
  have hc := (cut_reachable h).cut
  rw [hm] at hc
  exact hc hs

theorem filter_long {size : ℕ} {lines : List TextLine}
    (h : ∀ l ∈ lines, l.text.length < size - 1) :
    lines.filter (fun l => ¬ l.text.length ≤ size - 1) = [] := by
  apply List.filter_eq_nil_iff.mpr
  intro l hl
  simpa using (h l hl).le

theorem filter_short {size : ℕ} {lines : List TextLine}
    (h : ∀ l ∈ lines, l.text.length < size - 1) :
    lines.filter (fun l => l.text.length ≤ size - 1) = lines := by
  apply List.filter_eq_self.mpr
  intro l hl
  simpa using (h l hl).le

/-- The program keeps to the length that it announces exactly where every line is shorter: a line of
`size - 1` bytes is followed by an empty message, and a longer one is sent in pieces. -/
theorem length_policy_iff (stdin : ℕ → List Byte) (i : ℕ) {size : ℕ} (hs : 2 ≤ size)
    (lines : List TextLine) :
    LengthPolicy (Function.update stdin i (joined lines)) i size lines ↔
      ∀ l ∈ lines, l.text.length < size - 1 := by
  have hstdin : Function.update stdin i (joined lines) i = joined lines :=
    Function.update_self _ _ _
  constructor
  · intro h
    obtain ⟨e, r, hr, hm, hi⟩ := end_reached (Function.update stdin i (joined lines)) i hs
    have hpassed := (passed_texts hs hr hm).1
    have hall := (h.complete e r hr hm hi).1
    rw [hi, hstdin, texts_joined] at hpassed
    have hlen : (lines.flatMap (pieces (size - 1))).length = r.passed.length := by
      rw [← hpassed]
      exact congrArg List.length (List.append_nil _)
    apply short_of_pieces (by omega)
    rw [hlen, hall, List.length_map]
    exact List.length_filter_le _ _
  · intro h
    have hfilter := filter_short h
    have htexts : texts size (joined lines) = lines.map TextLine.text := by
      rw [texts_joined, pieces_short h]
    refine ⟨?_, ?_, ?_⟩
    · intro e r hr hm
      obtain ⟨hpassed, hrejected⟩ := passed_texts hs hr hm
      rw [hstdin, htexts] at hpassed
      rw [hfilter, hrejected]
      exact ⟨⟨_, hpassed⟩, Nat.zero_le _⟩
    · intro e r hr hm hi
      obtain ⟨hpassed, hrejected⟩ := passed_texts hs hr hm
      rw [hstdin, htexts, hi] at hpassed
      rw [hfilter, filter_long h, hrejected, ← hpassed]
      exact ⟨(List.append_nil _).symm, rfl⟩
    · intro e r hr hm text ht
      have hpassed := (passed_texts hs hr hm).1
      have hmem : text ∈ texts size (Function.update stdin i (joined lines) i) := by
        rw [← hpassed]
        exact List.mem_append_left _ ht
      exact texts_length_le hs hmem

def shortLine : TextLine := ⟨[104, 105], by simp [newline]⟩

theorem length_policy_short :
    LengthPolicy (Function.update (fun _ => []) 0 (joined [shortLine])) 0 4 [shortLine] :=
  (length_policy_iff (fun _ => []) 0 (by decide) [shortLine]).mpr (by
    intro l hl
    rw [List.mem_singleton.mp hl]
    decide)

def longLine : TextLine := ⟨[97, 98, 99, 100], by simp [newline]⟩

theorem length_policy_long :
    ¬ LengthPolicy (Function.update (fun _ => []) 0 (joined [longLine])) 0 4 [longLine] := by
  intro h
  obtain ⟨e, r, hr, hm, hi⟩ :=
    end_reached (Function.update (fun _ => []) 0 (joined [longLine])) 0 (by decide : 2 ≤ 4)
  have hpassed := (passed_texts (by decide) hr hm).1
  rw [hi, Function.update_self, (h.complete e r hr hm hi).1] at hpassed
  revert hpassed
  decide

end LinuxSystemProgramming.MessageQueue
