import LinuxSystemProgramming.MessageQueue.Programs
import Mathlib.Data.List.Nodup

namespace LinuxSystemProgramming.MessageQueue

open CMemory NamedObjects Transition

inductive SenderMove (e : Exchange) (i : ℕ) : SenderAction → Exchange → Prop
  | quiet (a : SenderAction) (s : Sender) (hl : s.lines = (e.senders i).lines)
      (hp : s.pc = .print → (e.senders i).pc = .print ∧ s.text = (e.senders i).text)
      (hk : (e.senders i).pc = .print → s.pc = .print) : SenderMove e i a (e.setSender i s)
  | opened (a : SenderAction) (b : Queue) (s : Sender) (hl : s.lines = (e.senders i).lines)
      (hp : s.pc ≠ .print)
      (hb : b.messages = []) (hk : (e.senders i).pc ≠ .print) :
      SenderMove e i a ({ e with kernel := (e.kernel.openCreate b).1 }.setSender i s)
  | sent (q : ℕ) (hpc : (e.senders i).pc = .send) (hq : (e.senders i).mqd = some q) :
      SenderMove e i .run ({ e with
        kernel := e.kernel.modify q (fun b => { b with messages := b.messages ++ [e.message i] })
        sent := e.sent ++ [e.message i] }.setSender i ((e.senders i).goto .print))
  | reported (hpc : (e.senders i).pc = .print) :
      SenderMove e i .run ({ e with acked := e.acked ++ [e.message i] }.setSender i
        { e.senders i with lines := (e.senders i).lines + 1, pc := .top })

inductive ReceiverMove (e : Exchange) : ReceiverAction → Exchange → Prop
  | quiet (a : ReceiverAction) (r : Receiver) : ReceiverMove e a (e.setReceiver r)
  | opened (a : ReceiverAction) (b : Queue) (r : Receiver) (hb : b.messages = []) :
      ReceiverMove e a ({ e with kernel := (e.kernel.openCreate b).1 }.setReceiver r)
  | unlinked (r : Receiver) (hpc : e.receiver.pc = .unlink ∨ e.receiver.pc = .cleanupUnlink) :
      ReceiverMove e .run ({ e with kernel := e.kernel.unlink }.setReceiver r)
  | received (q : ℕ) (m : Message) (rest : List Message) (r : Receiver)
      (hm : (e.kernel.object q).messages = m :: rest) : ReceiverMove e .run ({ e with
        kernel := e.kernel.modify q (fun b => { b with messages := rest })
        received := e.received ++ [m] }.setReceiver r)

theorem takeLine_quiet (s : Sender) (bufWrite : List Byte) :
    (s.takeLine bufWrite).lines = s.lines ∧ (s.takeLine bufWrite).pc ≠ .print := by
  unfold Sender.takeLine
  split
  · exact ⟨rfl, by simp [Sender.goto]⟩
  · split
    · exact ⟨rfl, by simp [Sender.goto]⟩
    · split_ifs <;> exact ⟨rfl, by simp⟩

theorem sender_move {e f : Exchange} {i : ℕ} {a : SenderAction} (h : e.sender i a = some f) :
    SenderMove e i a f := by
  cases a with
  | signal =>
    simp only [Exchange.sender] at h
    exact Option.some.inj h ▸ .quiet _ _ rfl (fun hp => ⟨hp, rfl⟩) (fun hp => hp)
  | mqOpen attr =>
    cases hpc : (e.senders i).pc <;> simp only [Exchange.sender, hpc, reduceCtorEq] at h
    obtain ⟨-, h⟩ := Option.ite_none_right_eq_some.mp h
    exact Option.some.inj h ▸ .opened _ _ _ rfl (by simp) rfl (by simp [hpc])
  | fgets bufWrite =>
    cases hpc : (e.senders i).pc <;> simp only [Exchange.sender, hpc, reduceCtorEq] at h
    obtain ⟨-, h⟩ := Option.ite_none_right_eq_some.mp h
    obtain ⟨hl, hp⟩ := takeLine_quiet (e.senders i) bufWrite
    exact Option.some.inj h ▸ .quiet _ _ hl (fun he => absurd he hp) (by simp [hpc])
  | fails =>
    cases hpc : (e.senders i).pc <;> simp only [Exchange.sender, hpc, reduceCtorEq] at h
    all_goals
      exact Option.some.inj h ▸ .quiet _ _ rfl (by simp [Sender.goto]) (by simp [hpc])
  | run =>
    cases hpc : (e.senders i).pc <;> simp only [Exchange.sender, hpc, reduceCtorEq] at h
    case getattr =>
      obtain ⟨q, -, rfl⟩ := Option.map_eq_some_iff.mp h
      exact .quiet _ _ rfl (by simp) (by simp [hpc])
    case top =>
      refine Option.some.inj h ▸ .quiet _ _ rfl ?_ (by simp [hpc])
      split_ifs <;> simp [Sender.goto]
    case send =>
      obtain ⟨q, hq, hs⟩ := Option.bind_eq_some_iff.mp h
      obtain ⟨-, hs⟩ := Option.ite_none_right_eq_some.mp hs
      exact Option.some.inj hs ▸ .sent q hpc hq
    case print => exact Option.some.inj h ▸ .reported hpc
    case close => exact Option.some.inj h ▸ .quiet _ _ rfl (by simp) (by simp [hpc])

theorem receiver_move {e f : Exchange} {a : ReceiverAction} (h : e.receiverMain a = some f) :
    ReceiverMove e a f := by
  cases hpc : e.receiver.pc <;> cases a <;>
    simp only [Exchange.receiverMain, hpc, reduceCtorEq] at h
  case unlink.run => exact Option.some.inj h ▸ .unlinked _ (.inl hpc)
  case cleanupUnlink.run => exact Option.some.inj h ▸ .unlinked _ (.inr hpc)
  case open.run => exact Option.some.inj h ▸ .opened _ _ _ rfl
  case getattr.run =>
    obtain ⟨q, -, rfl⟩ := Option.map_eq_some_iff.mp h
    exact .quiet _ _
  case receive.run =>
    obtain ⟨q, -, hq⟩ := Option.bind_eq_some_iff.mp h
    unfold Exchange.mqReceive at hq
    split at hq
    · cases hq
    · obtain ⟨-, hq⟩ := Option.ite_none_right_eq_some.mp hq
      exact Option.some.inj hq ▸ .received q _ _ _ ‹_›
  all_goals exact Option.some.inj h ▸ .quiet _ _

/-- The receiver takes the name away only from a queue that holds no message, and a sender sends
only to the queue that has the name. -/
def Keeps (e : Exchange) : Action → Prop
  | .sender i .run => (e.senders i).pc = .send → (e.senders i).mqd = e.kernel.named
  | .receiver .run => e.receiver.pc = .unlink ∨ e.receiver.pc = .cleanupUnlink → e.waiting = []
  | _ => True

instance (e : Exchange) (a : Action) : Decidable (Keeps e a) := by
  unfold Keeps
  split <;> infer_instance

/-- Every message reported as sent has been received once or waits, once, behind the name. -/
def Kept (e : Exchange) : Prop :=
  ∀ m ∈ e.acked, e.received.count m + e.waiting.count m = 1

structure Inv (e : Exchange) : Prop where
  unnamed : e.kernel.Unnamed (fun q => q.messages = [])
  perm : (e.received ++ e.waiting).Perm e.sent
  nodup : e.sent.Nodup
  seq : ∀ m ∈ e.sent, m.seq < (e.senders m.run).lines ∨
    m.seq = (e.senders m.run).lines ∧ (e.senders m.run).pc = .print
  printing : ∀ i, (e.senders i).pc = .print → e.message i ∈ e.sent
  acked : ∀ m ∈ e.acked, m ∈ e.sent

theorem waiting_openCreate (e : Exchange) {b : Queue} (hb : b.messages = []) :
    { e with kernel := (e.kernel.openCreate b).1 }.waiting = e.waiting := by
  unfold Exchange.waiting
  cases hn : e.kernel.named with
  | some q => rw [Store.openCreate_of_named b hn, hn]
  | none =>
    rw [Store.openCreate_of_none b hn]
    change (Function.update e.kernel.object e.kernel.fresh b e.kernel.fresh).messages = []
    rw [Function.update_self, hb]

theorem waiting_modify (e : Exchange) {q : ℕ} (f : Queue → Queue) (hq : e.kernel.named = some q) :
    { e with kernel := e.kernel.modify q f }.waiting = (f (e.kernel.object q)).messages := by
  simp only [Exchange.waiting, Store.modify_named, hq, Store.modify_object_self]

theorem waiting_named {e : Exchange} {q : ℕ} (hq : e.kernel.named = some q) :
    e.waiting = (e.kernel.object q).messages := by
  simp only [Exchange.waiting, hq]

theorem inv_start (stdin : ℕ → List Byte) : Inv (Exchange.start stdin) :=
  ⟨fun _ _ => rfl, List.Perm.refl _, List.nodup_nil, by rintro _ ⟨⟩, by rintro _ ⟨⟩, by rintro _ ⟨⟩⟩

theorem Inv.unsent {e : Exchange} (h : Inv e) {i : ℕ} (hpc : (e.senders i).pc ≠ .print) :
    e.message i ∉ e.sent := by
  intro hm
  rcases h.seq _ hm with hlt | ⟨-, hp⟩
  · exact lt_irrefl _ hlt
  · exact hpc hp

theorem inv_setSender {e : Exchange} {i : ℕ} {s : Sender} (h : Inv e)
    (hl : s.lines = (e.senders i).lines)
    (hp : s.pc = .print → (e.senders i).pc = .print ∧ s.text = (e.senders i).text)
    (hk : (e.senders i).pc = .print → s.pc = .print) : Inv (e.setSender i s) := by
  refine ⟨h.unnamed, h.perm, h.nodup, ?_, ?_, h.acked⟩
  · intro m hm
    by_cases hi : m.run = i
    · simp only [Exchange.setSender, hi, Function.update_self, hl]
      have hs := h.seq m hm
      rw [hi] at hs
      exact hs.imp_right (fun hr => ⟨hr.1, hk hr.2⟩)
    · simp only [Exchange.setSender, Function.update_of_ne hi]
      exact h.seq m hm
  · intro j hj
    by_cases hji : j = i
    · subst hji
      simp only [Exchange.setSender, Function.update_self] at hj
      obtain ⟨hpc, ht⟩ := hp hj
      have hm := h.printing j hpc
      simpa only [Exchange.message, Exchange.setSender, Function.update_self, hl, ht] using hm
    · simp only [Exchange.setSender, Function.update_of_ne hji] at hj
      have hm := h.printing j hj
      simpa only [Exchange.message, Exchange.setSender, Function.update_of_ne hji] using hm

theorem inv_sent {e : Exchange} {i q : ℕ} (h : Inv e) (hpc : (e.senders i).pc = .send)
    (hnamed : e.kernel.named = some q) : Inv ({ e with
      kernel := e.kernel.modify q (fun b => { b with messages := b.messages ++ [e.message i] })
      sent := e.sent ++ [e.message i] }.setSender i ((e.senders i).goto .print)) := by
  have hw := waiting_modify e (fun b => { b with messages := b.messages ++ [e.message i] }) hnamed
  have hnew : e.message i ∉ e.sent := h.unsent (by simp [hpc])
  refine ⟨h.unnamed.modify _ hnamed, ?_, ?_, ?_, ?_, ?_⟩
  · change (e.received ++ Exchange.waiting { e with kernel := e.kernel.modify q _ }).Perm
      (e.sent ++ [e.message i])
    rw [hw, ← waiting_named hnamed, ← List.append_assoc]
    exact h.perm.append_right _
  · simpa [Exchange.setSender] using
      List.nodup_append_comm.mp (List.nodup_cons.mpr ⟨hnew, h.nodup⟩)
  · intro m hm
    by_cases hi : m.run = i
    · simp only [Exchange.setSender, hi, Function.update_self, Sender.goto, and_true]
      rcases List.mem_append.mp hm with hm | hm
      · have hs := h.seq m hm
        rw [hi] at hs
        exact hs.imp_right And.left
      · rw [List.mem_singleton.mp hm]
        exact .inr rfl
    · simp only [Exchange.setSender, Function.update_of_ne hi]
      rcases List.mem_append.mp hm with hm | hm
      · exact h.seq m hm
      · rw [List.mem_singleton.mp hm] at hi
        exact absurd rfl hi
  · intro j hj
    by_cases hji : j = i
    · subst hji
      simp only [Exchange.message, Exchange.setSender, Function.update_self, Sender.goto]
      exact List.mem_append_right _ (List.mem_singleton_self _)
    · simp only [Exchange.setSender, Function.update_of_ne hji] at hj
      simp only [Exchange.message, Exchange.setSender, Function.update_of_ne hji]
      exact List.mem_append_left _ (h.printing j hj)
  · intro m hm
    exact List.mem_append_left _ (h.acked m hm)

theorem inv_reported {e : Exchange} {i : ℕ} (h : Inv e) (hpc : (e.senders i).pc = .print) :
    Inv ({ e with acked := e.acked ++ [e.message i] }.setSender i
      { e.senders i with lines := (e.senders i).lines + 1, pc := .top }) := by
  refine ⟨h.unnamed, h.perm, h.nodup, ?_, ?_, ?_⟩
  · intro m hm
    by_cases hi : m.run = i
    · simp only [Exchange.setSender, hi, Function.update_self, reduceCtorEq, and_false, or_false]
      have hs := h.seq m hm
      rw [hi] at hs
      omega
    · simp only [Exchange.setSender, Function.update_of_ne hi]
      exact h.seq m hm
  · intro j hj
    by_cases hji : j = i
    · subst hji
      simp [Exchange.setSender] at hj
    · simp only [Exchange.setSender, Function.update_of_ne hji] at hj
      simp only [Exchange.message, Exchange.setSender, Function.update_of_ne hji]
      exact h.printing j hj
  · intro m hm
    rcases List.mem_append.mp hm with hm | hm
    · exact h.acked m hm
    · rw [List.mem_singleton.mp hm]
      exact h.printing i hpc

theorem inv_sender {e f : Exchange} {i : ℕ} {a : SenderAction} (h : Inv e)
    (hk : Keeps e (.sender i a)) (hm : SenderMove e i a f) : Inv f := by
  cases hm with
  | quiet a s hl hp hkeep => exact inv_setSender h hl hp hkeep
  | opened a b s hl hp hb hne =>
    have ho : Inv { e with kernel := (e.kernel.openCreate b).1 } := by
      refine ⟨h.unnamed.openCreate b, ?_, h.nodup, h.seq, h.printing, h.acked⟩
      rw [waiting_openCreate e hb]
      exact h.perm
    exact inv_setSender ho hl (fun hs => absurd hs hp) (fun hs => absurd hs hne)
  | sent q hpc hq => exact inv_sent h hpc ((hk hpc).symm.trans hq)
  | reported hpc => exact inv_reported h hpc

theorem inv_receiver {e f : Exchange} {a : ReceiverAction} (h : Inv e)
    (hk : Keeps e (.receiver a)) (hm : ReceiverMove e a f) : Inv f := by
  cases hm with
  | quiet a r => exact ⟨h.unnamed, h.perm, h.nodup, h.seq, h.printing, h.acked⟩
  | opened a b r hb =>
    refine ⟨h.unnamed.openCreate b, ?_, h.nodup, h.seq, h.printing, h.acked⟩
    have hw := waiting_openCreate e hb
    exact (hw ▸ h.perm : (e.received ++ Exchange.waiting _).Perm e.sent)
  | unlinked r hpc =>
    have hw := hk hpc
    refine ⟨h.unnamed.unlink ?_, ?_, h.nodup, h.seq, h.printing, h.acked⟩
    · intro q hq
      rw [← waiting_named hq, hw]
    · have hp := h.perm
      rw [hw] at hp
      exact hp
  | received q m rest r hmess =>
    have hnamed : e.kernel.named = some q := by
      by_contra hne
      have hnil : (e.kernel.object q).messages = [] := h.unnamed q hne
      rw [hmess] at hnil
      cases hnil
    refine ⟨h.unnamed.modify _ hnamed, ?_, h.nodup, h.seq, h.printing, h.acked⟩
    have hw := waiting_modify e (fun b => { b with messages := rest }) hnamed
    have hp := h.perm
    rw [waiting_named hnamed, hmess] at hp
    change ((e.received ++ [m]) ++ Exchange.waiting { e with kernel := e.kernel.modify q _ }).Perm
      e.sent
    rw [hw, List.append_assoc]
    exact hp

theorem inv_next {e f : Exchange} {a : Action} (h : Inv e) (hk : Keeps e a)
    (hn : e.next a = some f) : Inv f := by
  cases a with
  | sender i b => exact inv_sender h hk (sender_move hn)
  | receiver b => exact inv_receiver h hk (receiver_move hn)

theorem Inv.kept {e : Exchange} (h : Inv e) : Kept e := by
  intro m hm
  rw [← List.count_append, h.perm.count_eq m]
  exact List.count_eq_one_of_mem h.nodup (h.acked m hm)

/-- No message reported as sent gets lost, and none is received twice, as long as the name is
taken away from empty queues only and nothing is sent to a queue without a name. -/
theorem acked_kept (stdin : ℕ → List Byte) {e : Exchange}
    (h : (exchange stdin).ReachableWhile Keeps e) : Kept e := by
  apply Inv.kept
  apply System.ReachableWhile.induct _ _ h
  · rintro _ rfl
    exact inv_start stdin
  · intro e a f _ he hk hn
    exact inv_next he hk hn

def sendLine (i : ℕ) : List Action :=
  [.sender i (.mqOpen ⟨optionMaxmsg, optionMsgsize⟩), .sender i .run, .sender i .run,
    .sender i (.fgets (List.replicate optionMsgsize 7)), .sender i .run, .sender i .run]

def goOnline : List Action := List.replicate 6 (.receiver .run)

theorem acked_kept_online : ∃ e : Exchange, e.acked = [⟨1, 0, [104, 105]⟩] ∧
    e.received = [⟨1, 0, [104, 105]⟩] ∧ Kept e := by
  let M := exchange (fun _ => [104, 105, 10])
  have hrun : (M.runWhile (fun e a => decide (Keeps e a)) (Exchange.start fun _ => [104, 105, 10])
      (goOnline ++ sendLine 1 ++ [.receiver .run])).map (fun e => (e.acked, e.received)) =
      some ([⟨1, 0, [104, 105]⟩], [⟨1, 0, [104, 105]⟩]) := by decide +kernel
  obtain ⟨e, he, hp⟩ := Option.map_eq_some_iff.mp hrun
  obtain ⟨ha, hrec⟩ := Prod.mk.inj hp
  have hr : M.ReachableWhile Keeps e := .run (fun _ _ => of_decide_eq_true) _ (.init rfl) he
  exact ⟨e, ha, hrec, acked_kept _ hr⟩

/-- The receiver is stopped while it waits for a message; a sender opens the queue and reports its
message before the receiver closes and unlinks it. -/
theorem acked_lost : ∃ e : Exchange, (exchange (fun _ => [104, 105, 10])).Reachable e ∧ ¬ Kept e := by
  let M := exchange (fun _ => [104, 105, 10])
  have hrun : (M.run (Exchange.start fun _ => [104, 105, 10])
      (goOnline ++ [.receiver .signal, .receiver .interrupted] ++ sendLine 0 ++
        List.replicate 2 (.receiver .run))).map (fun e => (e.acked, e.received, e.waiting)) =
      some ([⟨0, 0, [104, 105]⟩], [], []) := by decide +kernel
  obtain ⟨e, he, hp⟩ := Option.map_eq_some_iff.mp hrun
  simp only [Prod.mk.injEq] at hp
  obtain ⟨ha, hrec, hw⟩ := hp
  refine ⟨e, .run _ (.init rfl) he, ?_⟩
  intro hk
  have hone := hk ⟨0, 0, [104, 105]⟩ (by simp [ha])
  simp [hrec, hw] at hone

end LinuxSystemProgramming.MessageQueue
