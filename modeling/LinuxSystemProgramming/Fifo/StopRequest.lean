import LinuxSystemProgramming.Fifo.Channel
import LinuxSystemProgramming.Fifo.Feed

namespace LinuxSystemProgramming.Fifo

open CMemory Transition

inductive Outcome
  | returned
  | error (errno : Errno)
  deriving DecidableEq

def Errno.temporary : Errno → Bool
  | .eintr | .eagain => true
  | _ => false

/-- A process of a system that transfers its messages with one call. `outcome` is `none` for every
action that is not this call of this process. -/
structure Caller (σ α π : Type*) where
  system : System σ α
  pc : σ → π
  stopFlag : σ → Bool
  died : σ → Prop
  outcome : α → Option Outcome

namespace Caller

variable {σ α π : Type*} (p : Caller σ α π) {C : σ → α → Prop}

structure Fails (C : σ → α → Prop) (s : σ) (a : α) (e : Errno) (t : σ) : Prop where
  allowed : C s a
  outcome : p.outcome a = some (.error e)
  temporary : e.temporary = true
  next : p.system.next s a = some t

def Retried (C : σ → α → Prop) (s t : σ) : Prop :=
  ∃ u, p.system.PathWhile (fun x a => C x a ∧ p.outcome a = none) t u ∧ p.pc u = p.pc s ∧
    ∃ a e v, p.Fails C u a e v

def Retries (C : σ → α → Prop) : Prop :=
  ∃ s a e t, p.system.ReachableWhile C s ∧ p.stopFlag s = true ∧ p.Fails C s a e t ∧ p.Retried C s t

def Unstalled (s : σ) (a : α) : Prop :=
  p.stopFlag s = true → p.outcome a ≠ some (.error .eagain)

instance (s : σ) (a : α) : Decidable (p.Unstalled s a) :=
  inferInstanceAs (Decidable (p.stopFlag s = true → p.outcome a ≠ some (.error .eagain)))

/-- Unless `EAGAIN` meets a stop request, the process dies where a call fails after the request, and
calls no more. A call that has failed after a request can be retried exactly where it was `EAGAIN`. -/
structure Abandons : Prop where
  dies : ∀ s a e t, p.system.ReachableWhile p.Unstalled s → p.stopFlag s = true →
    p.Fails p.Unstalled s a e t → p.died t
  stops : ¬ p.Retries p.Unstalled
  exact : ∀ s a e t, p.system.Reachable s → p.stopFlag s = true → p.Fails (fun _ _ => True) s a e t →
    (p.Retried (fun _ _ => True) s t ↔ e = .eagain)

structure Loop (gone : σ → Prop) : Prop where
  eintr : ∀ s a t, p.stopFlag s = true → p.outcome a = some (.error .eintr) →
    p.system.next s a = some t → p.died t
  eagain : ∀ s a t, p.system.Reachable s → p.outcome a = some (.error .eagain) →
    p.system.next s a = some t → ∃ b, p.outcome b = none ∧ p.system.next t b = some s
  died : ∀ s, p.died s → gone s
  gone : ∀ s a t, gone s → p.system.next s a = some t → p.outcome a = none ∧ gone t

variable {p} {gone : σ → Prop} {s t : σ} {a : α} {e : Errno}

theorem Fails.cases (h : p.Fails C s a e t) : e = .eintr ∨ e = .eagain := by
  cases e with
  | eintr => exact .inl rfl
  | eagain => exact .inr rfl
  | epipe | other => cases h.temporary

theorem Loop.gone_path (h : p.Loop gone) (hs : gone s)
    (hp : p.system.PathWhile (fun x a => C x a ∧ p.outcome a = none) s t) : gone t := by
  induction hp with
  | refl => exact hs
  | tail _ hstep ih =>
    obtain ⟨b, -, hn⟩ := hstep
    exact (h.gone _ b _ ih hn).2

theorem Loop.not_retried (h : p.Loop gone) {u : σ} (hs : p.died t) : ¬ p.Retried C u t := by
  rintro ⟨v, hp, -, b, e, w, hf⟩
  have hv := h.gone_path (h.died t hs) hp
  have hnone := (h.gone v b w hv hf.next).1
  cases hnone.symm.trans hf.outcome

theorem Loop.retried (h : p.Loop gone) (hr : p.system.Reachable s)
    (hf : p.Fails (fun _ _ => True) s a .eagain t) : p.Retried (fun _ _ => True) s t := by
  obtain ⟨b, hb, hback⟩ := h.eagain s a t hr hf.outcome hf.next
  refine ⟨s, ?_, rfl, a, .eagain, t, hf⟩
  apply Relation.ReflTransGen.single
  exact ⟨b, ⟨trivial, hb⟩, hback⟩

theorem Loop.dies (h : p.Loop gone) (hstop : p.stopFlag s = true)
    (hf : p.Fails p.Unstalled s a e t) : p.died t := by
  rcases hf.cases with rfl | rfl
  · exact h.eintr s a t hstop hf.outcome hf.next
  · exact absurd hf.outcome (hf.allowed hstop)

theorem Loop.abandons (h : p.Loop gone) : p.Abandons := by
  refine ⟨fun _ _ _ _ _ hstop hf => h.dies hstop hf, ?_, ?_⟩
  · rintro ⟨s, a, e, t, -, hstop, hf, hretried⟩
    exact h.not_retried (h.dies hstop hf) hretried
  · intro s a e t hr hstop hf
    constructor
    · intro hretried
      rcases hf.cases with rfl | rfl
      · exact absurd hretried (h.not_retried (h.eintr s a t hstop hf.outcome hf.next))
      · rfl
    · rintro rfl
      exact h.retried hr hf

end Caller

def FeedAction.outcome : FeedAction → Option Outcome
  | .reader (.read (.error e)) => some (.error e)
  | .reader (.read _) => some .returned
  | _ => none

def pollReader (o : ByteOrder) (bytes : List Byte) : Caller Feed FeedAction ReaderPc where
  system := feed .nonblock o bytes
  pc f := f.reader.pc
  stopFlag f := f.reader.stopFlag
  died f := ∃ msg, f.reader.pc = .exited .failure (.perror msg)
  outcome := FeedAction.outcome

@[simp] theorem pollReader_next (o : ByteOrder) (bytes : List Byte) (f : Feed) (a : FeedAction) :
    (pollReader o bytes).system.next f a = f.next .nonblock o a := rfl

def ChannelAction.outcome {n : ℕ} (i : Fin n) : ChannelAction n → Option Outcome
  | .writer j (.write (.error e)) => if j = i then some (.error e) else none
  | .writer j (.write (.wrote _)) => if j = i then some .returned else none
  | _ => none

def pollWriter {n : ℕ} (S : Setup n) (i : Fin n) : Caller (Channel n) (ChannelAction n) WriterPc where
  system := channel S
  pc c := (c.writers i).pc
  stopFlag c := (c.writers i).stopFlag
  died c := ∃ msg, (c.writers i).pc = .exited (.perror msg)
  outcome := ChannelAction.outcome i

@[simp] theorem pollWriter_next {n : ℕ} (S : Setup n) (i : Fin n) (c : Channel n)
    (a : ChannelAction n) : (pollWriter S i).system.next c a = Channel.next S c a := rfl

theorem FeedAction.outcome_error {a : FeedAction} {e : Errno} (h : a.outcome = some (.error e)) :
    a = .reader (.read (.error e)) := by
  unfold FeedAction.outcome at h
  split at h <;> cases h
  rfl

theorem ChannelAction.outcome_error {n : ℕ} {i : Fin n} {a : ChannelAction n} {e : Errno}
    (h : a.outcome i = some (.error e)) : a = .writer i (.write (.error e)) := by
  unfold ChannelAction.outcome at h
  split at h <;> (try split_ifs at h with hi) <;> cases h
  rw [hi]

namespace PollReader

variable {o : ByteOrder} {s t : Reader}

theorem eintr_dies (hs : s.stopFlag = true) (h : main o s (.read (.error .eintr)) = some t) :
    ∃ msg, t.pc = .exited .failure (.perror msg) := by
  cases hpc : s.pc <;> simp only [main, hpc, hs, if_true, reduceCtorEq] at h <;> cases h <;>
    exact ⟨_, rfl⟩

theorem eagain_pc (h : main o s (.read (.error .eagain)) = some t) :
    s.pc = .headerRead ∧ t = s.goto .headerTest ∨
      s.pc = .payloadRead ∧ t = s.goto .payloadTest := by
  cases hpc : s.pc <;> simp only [main, hpc, reduceCtorEq] at h <;> cases h
  case headerRead => exact .inl ⟨rfl, rfl⟩
  case payloadRead => exact .inr ⟨rfl, rfl⟩

theorem eagain_back (hc : s.Correct o) (h : main o s (.read (.error .eagain)) = some t) :
    main o t .run = some s := by
  rcases eagain_pc h with ⟨hpc, rfl⟩ | ⟨hpc, rfl⟩
  · have hlt : s.totalRead < sizeofLen := by
      obtain ⟨_, _, ht⟩ := hc
      simp only [Reader.Tracks, hpc] at ht
      exact ht.2.1
    change (if s.totalRead < sizeofLen then some (s.goto .headerRead) else _) = some s
    rw [if_pos hlt, Reader.goto, ← hpc]
  · have hlt := Reader.payloadRead_lt hc hpc
    change (if s.totalRead < s.len o then some (s.goto .payloadRead) else _) = some s
    rw [if_pos hlt, Reader.goto, ← hpc]

theorem exited_step {status : ExitStatus} {report : Report} {a : ReaderAction}
    (hpc : s.pc = .exited status report) (h : main o s a = some t) :
    a = .signal ∧ t.pc = s.pc := by
  cases a <;> simp only [main, hpc, reduceCtorEq] at h
  cases h
  exact ⟨rfl, rfl⟩

end PollReader

theorem Feed.eagain_back {o : ByteOrder} {bytes : List Byte} {f g : Feed}
    (hr : (feed .nonblock o bytes).Reachable f)
    (hn : f.next .nonblock o (.reader (.read (.error .eagain))) = some g) :
    g.next .nonblock o (.reader .run) = some f := by
  obtain ⟨-, t, ht, rfl⟩ := Feed.reader_cases hn
  have hback : readerMain .nonblock o t .run = some f.reader :=
    PollReader.eagain_back (Feed.inv_reachable hr).correct ht
  exact Feed.next_reader rfl hback

theorem pollReader_loop (o : ByteOrder) (bytes : List Byte) :
    (pollReader o bytes).Loop
      (fun f => ∃ status report, f.reader.pc = .exited status report) := by
  constructor
  · intro f a g hstop ha hn
    obtain rfl := FeedAction.outcome_error ha
    rw [pollReader_next] at hn
    obtain ⟨-, t, ht, rfl⟩ := Feed.reader_cases hn
    exact PollReader.eintr_dies hstop ht
  · intro f a g hr ha hn
    obtain rfl := FeedAction.outcome_error ha
    exact ⟨.reader .run, rfl, Feed.eagain_back hr hn⟩
  · rintro f ⟨msg, hpc⟩
    exact ⟨_, _, hpc⟩
  · rintro f a g ⟨status, report, hpc⟩ hn
    rw [pollReader_next] at hn
    cases a with
    | reader b =>
      obtain ⟨-, t, ht, rfl⟩ := Feed.reader_cases hn
      obtain ⟨rfl, hsame⟩ := PollReader.exited_step hpc ht
      exact ⟨rfl, status, report, hsame.trans hpc⟩
    | connect | arrive | close =>
      refine ⟨rfl, status, report, ?_⟩
      rw [Feed.outside_reader hn (by rintro _ ⟨⟩), hpc]

namespace PollWriter

variable {o : ByteOrder} {w t : Writer}

theorem eintr_dies (hs : w.stopFlag = true) (h : main o w (.write (.error .eintr)) = some t) :
    ∃ msg, t.pc = .exited (.perror msg) := by
  cases hpc : w.pc <;> simp only [main, hpc, hs, if_true, reduceCtorEq] at h <;> cases h <;>
    exact ⟨_, rfl⟩

theorem eagain_pc (h : main o w (.write (.error .eagain)) = some t) :
    w.pc = .headerWrite ∧ t = w.goto .headerTest ∨
      w.pc = .payloadWrite ∧ t = w.goto .payloadTest := by
  cases hpc : w.pc <;> simp only [main, hpc, reduceCtorEq] at h <;> cases h
  case headerWrite => exact .inl ⟨rfl, rfl⟩
  case payloadWrite => exact .inr ⟨rfl, rfl⟩

theorem eagain_back (hp : w.Placed o) (h : main o w (.write (.error .eagain)) = some t) :
    main o t .run = some w := by
  rcases eagain_pc h with ⟨hpc, rfl⟩ | ⟨hpc, rfl⟩
  · simp only [Writer.Placed, hpc] at hp
    change (if w.totalWritten < sizeofLen then some (w.goto .headerWrite) else _) = some w
    rw [if_pos hp.1, Writer.goto, ← hpc]
  · simp only [Writer.Placed, hpc] at hp
    change (if w.totalWritten < w.len then some (w.goto .payloadWrite) else _) = some w
    rw [if_pos hp.1, Writer.goto, ← hpc]

-- A process that has ended can still be killed, in the model.
theorem ended_step {a : WriterAction} (hpc : (∃ report, w.pc = .exited report) ∨ w.pc = .killed)
    (h : main o w a = some t) :
    (a = .signal ∨ a = .kill) ∧ ((∃ report, t.pc = .exited report) ∨ t.pc = .killed) := by
  rcases hpc with ⟨report, hpc⟩ | hpc <;> cases a <;> simp only [main, hpc, reduceCtorEq] at h <;>
    cases h
  · exact ⟨.inl rfl, .inl ⟨report, hpc⟩⟩
  · exact ⟨.inr rfl, .inr rfl⟩
  · exact ⟨.inl rfl, .inr hpc⟩
  · exact ⟨.inr rfl, .inr rfl⟩

end PollWriter

theorem Channel.next_writer {n : ℕ} {S : Setup n} {c d : Channel n} {i : Fin n} {a : WriterAction}
    (hv : S.writer i = .nonblock) (hn : Channel.next S c (.writer i a) = some d) :
    PollWriter.main S.order (c.writers i) a = some (d.writers i) := by
  obtain ⟨-, w, hw, rfl⟩ := Channel.writer_cases hn
  rw [hv] at hw
  simp only [Function.update_self]
  exact hw

theorem Channel.eagain_back {n : ℕ} {S : Setup n} {c d : Channel n} {i : Fin n}
    (hv : S.writer i = .nonblock) (hr : (channel S).Reachable c)
    (hn : Channel.next S c (.writer i (.write (.error .eagain))) = some d) :
    Channel.next S d (.writer i .run) = some c := by
  have hw := Channel.next_writer hv hn
  have hback := PollWriter.eagain_back ((Channel.processes_reachable hr).writers i).placed hw
  have hmain : writerMain (S.writer i) S.order (d.writers i) .run = some (c.writers i) := by
    rw [hv]
    exact hback
  obtain ⟨-, w, -, rfl⟩ := Channel.writer_cases hn
  simp only [Channel.next, Channel.writerAllowed, hmain, if_true, Option.map_some]
  simp [Writer.transmits]

theorem Channel.next_others {n : ℕ} {S : Setup n} {c d : Channel n} {i : Fin n}
    {a : ChannelAction n} (ha : ¬ ∃ b, a = .writer i b) (hn : Channel.next S c a = some d) :
    a.outcome i = none ∧ d.writers i = c.writers i := by
  rcases Channel.next_cases hn with ⟨j, b, w, rfl, -, -, hw, -⟩ | ⟨b, r, rfl, -, -, -, hw, -⟩
  · have hj : j ≠ i := by
      rintro rfl
      exact ha ⟨b, rfl⟩
    refine ⟨?_, ?_⟩
    · cases b with
      | write result => cases result <;> exact if_neg hj
      | _ => rfl
    · rw [hw, Function.update_of_ne hj.symm]
  · exact ⟨rfl, by rw [hw]⟩

theorem pollWriter_loop {n : ℕ} (S : Setup n) (i : Fin n) (hv : S.writer i = .nonblock) :
    (pollWriter S i).Loop
      (fun c => (∃ report, (c.writers i).pc = .exited report) ∨ (c.writers i).pc = .killed) := by
  constructor
  · intro c a d hstop ha hn
    obtain rfl := ChannelAction.outcome_error ha
    exact PollWriter.eintr_dies hstop (Channel.next_writer hv hn)
  · intro c a d hr ha hn
    obtain rfl := ChannelAction.outcome_error ha
    exact ⟨.writer i .run, rfl, Channel.eagain_back hv hr hn⟩
  · rintro c ⟨msg, hpc⟩
    exact .inl ⟨_, hpc⟩
  · intro c a d hgone hn
    rw [pollWriter_next] at hn
    by_cases ha : ∃ b, a = .writer i b
    · obtain ⟨b, rfl⟩ := ha
      obtain ⟨hb, hw⟩ := PollWriter.ended_step hgone (Channel.next_writer hv hn)
      refine ⟨?_, hw⟩
      rcases hb with rfl | rfl <;> rfl
    · obtain ⟨hnone, hsame⟩ := Channel.next_others ha hn
      refine ⟨hnone, ?_⟩
      rwa [hsame]

/-- Whatever arrives on the FIFO and whenever the signal comes, the reader and each writer of 11_5
give a transfer up after a stop request unless it is `EAGAIN` that stalls it. -/
theorem stop_request (o : ByteOrder) (bytes : List Byte) {n : ℕ} (S : Setup n) (i : Fin n)
    (hv : S.writer i = .nonblock) :
    (pollReader o bytes).Abandons ∧ (pollWriter S i).Abandons :=
  ⟨(pollReader_loop o bytes).abandons, (pollWriter_loop S i hv).abandons⟩

def cutByStop : List FeedAction :=
  [.reader (.mkfifo (some true)), .reader (.openFifo true), .connect, .arrive 4, .reader .run,
    .reader (.poll (.ready true false)), .reader .run, .reader (.read (.data [3, 0, 0, 0])),
    .reader .run, .reader (.malloc (some [7, 7, 7, 7])), .reader .run, .reader .signal]

theorem stop_request_interrupted : ∃ f g : Feed,
    (pollReader .little [3, 0, 0, 0]).Fails (pollReader .little [3, 0, 0, 0]).Unstalled f
      (.reader (.read (.error .eintr))) .eintr g ∧
    f.reader.stopFlag = true ∧ ∃ msg, g.reader.pc = .exited .failure (.perror msg) := by
  let p := pollReader .little [3, 0, 0, 0]
  have hrun : ((p.system.runWhile (fun f a => decide (p.Unstalled f a))
      (Feed.start [3, 0, 0, 0]) cutByStop).bind (fun f =>
        if f.reader.stopFlag then f.next .nonblock .little (.reader (.read (.error .eintr)))
        else none)).isSome = true := by decide +kernel
  obtain ⟨g, hg⟩ := Option.isSome_iff_exists.mp hrun
  obtain ⟨f, hf, hn⟩ := Option.bind_eq_some_iff.mp hg
  obtain ⟨hstop, hn⟩ := Option.ite_none_right_eq_some.mp hn
  have hr : p.system.ReachableWhile p.Unstalled f :=
    .run (fun _ _ => of_decide_eq_true) cutByStop (.init rfl) hf
  have hfails : p.Fails p.Unstalled f (.reader (.read (.error .eintr))) .eintr g :=
    ⟨fun _ => nofun, rfl, rfl, hn⟩
  have hall := stop_request .little [3, 0, 0, 0] (oneWriter .little .nonblock .nonblock []) 0 rfl
  exact ⟨f, g, hfails, hstop, hall.1.dies f _ _ g hr hstop hfails⟩

theorem stop_request_stalled :
    (pollReader .little [3, 0, 0, 0]).Retries (fun _ _ => True) := by
  let p := pollReader .little [3, 0, 0, 0]
  have hrun : ((p.system.run (Feed.start [3, 0, 0, 0]) cutByStop).bind (fun f =>
      if f.reader.stopFlag then f.next .nonblock .little (.reader (.read (.error .eagain)))
      else none)).isSome = true := by decide +kernel
  obtain ⟨g, hg⟩ := Option.isSome_iff_exists.mp hrun
  obtain ⟨f, hf, hn⟩ := Option.bind_eq_some_iff.mp hg
  obtain ⟨hstop, hn⟩ := Option.ite_none_right_eq_some.mp hn
  have hr : p.system.Reachable f := .run cutByStop (.init rfl) hf
  have hfails : p.Fails (fun _ _ => True) f (.reader (.read (.error .eagain))) .eagain g :=
    ⟨trivial, rfl, rfl, hn⟩
  exact ⟨f, _, _, g, hr, hstop, hfails, (pollReader_loop _ _).retried hr hfails⟩

end LinuxSystemProgramming.Fifo
