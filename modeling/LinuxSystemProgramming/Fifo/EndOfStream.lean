import LinuxSystemProgramming.Fifo.Parser

namespace LinuxSystemProgramming.Fifo

open CMemory Framing Transition

def ReaderAction.retries : ReaderAction → Bool
  | .read (.error .eintr) | .read (.error .eagain) | .poll (.error .eintr) | .poll .timeout => true
  | _ => false

def Completes (v : Variant) (_ : Feed) : FeedAction → Prop
  | .reader a => a ≠ .signal ∧ a.fails v = false ∧ a.retries = false
  | _ => False

namespace Feed

structure AtEnd (f : Feed) : Prop where
  peer : f.peer = .closed
  queue : f.queue = []
  pending : f.pending = []

def EndedWell (ps : List (List Byte)) (f : Feed) : Prop :=
  f.reader.pc = .exited .success .closed ∧ f.reader.fd = false ∧ f.reader.fifoPath = false ∧
    f.reader.printed = ps.map cString

theorem success_cut {o : ByteOrder} {bytes : List Byte} {f : Feed} {report : Report}
    (h : (feed .nonblock o bytes).Reachable f) (hpc : f.reader.pc = .exited .success report) :
    ∃ got, got ≠ [] ∧ ((fifoFormat o).decode bytes).phase = .header got := by
  revert report
  suffices hs : f.Inv .nonblock o bytes ∧ ∀ report, f.reader.pc = .exited .success report →
      ∃ got, got ≠ [] ∧ ((fifoFormat o).decode bytes).phase = .header got from fun {r} => hs.2 r
  apply System.Reachable.induct _ _ h
  · rintro _ rfl
    exact ⟨inv_start _ o bytes, by rintro _ ⟨⟩⟩
  · rintro f a g - ⟨hf, ih⟩ hn
    refine ⟨inv_next hf hn, ?_⟩
    intro report hpc
    cases a with
    | reader b =>
      obtain ⟨hk, t, ht, rfl⟩ := reader_cases hn
      have hm := readerMain_move ht
      rcases ended_move hm (.inl ⟨report, hpc⟩) with ⟨rfl, hs⟩ | ⟨rfl, hs⟩
      · exact ih report (hs ▸ hpc)
      · obtain ⟨hq, hc⟩ := eof_closed hf hk hs
        have hw : f.reader.Waits := .inr hs
        rcases (waits_decode hf hq (hf.closed hc) hw).2 with
          ⟨hp, -⟩ | ⟨-, hd, hne⟩ | ⟨hp, -⟩
        · simp [hp] at hs
        · exact ⟨_, hne rfl, hd⟩
        · cases hm with
          | headerEof hp' => simp [hp] at hp'
          | payloadEof hp' => cases hpc
          | die a msg hd ha hf => cases hpc
    | connect | arrive | close =>
      rw [feed_next] at hn
      have hsame := outside_reader hn (by rintro _ ⟨⟩)
      rw [hsame] at hpc
      exact ih report hpc

theorem reach_end (v : Variant) (o : ByteOrder) (bytes : List Byte) :
    ∃ f, (feed v o bytes).ReachableWhile (Undisturbed v) f ∧
      ((∃ status report, f.reader.pc = .exited status report) ∨ f.AtEnd ∧ f.reader.Waits) := by
  have hstart : (feed v o bytes).ReachableWhile (Undisturbed v) (start bytes) := .init rfl
  obtain ⟨f, hp, hfin⟩ := System.ReachableWhile.progress distance
    (fun g hg hd => feed_progress (parses_undisturbed hg) hd) hstart
  have hf := hstart.path hp
  rcases hfin with he | ⟨hq, hpend, hw⟩
  · exact ⟨f, hf, .inl he⟩
  · cases hpeer : f.peer with
    | closed => exact ⟨f, hf, .inr ⟨⟨hpeer, hq, hpend⟩, hw⟩⟩
    | connected =>
      have hc := System.ReachableWhile.step FeedAction.close hf trivial (if_pos ⟨hpeer, hpend⟩)
      exact ⟨_, hc, .inr ⟨⟨rfl, hq, hpend⟩, hw⟩⟩
    | absent =>
      have hc := System.ReachableWhile.step FeedAction.connect hf trivial (if_pos hpeer)
      have hd := System.ReachableWhile.step FeedAction.close hc trivial (if_pos ⟨rfl, hpend⟩)
      exact ⟨_, hd, .inr ⟨⟨rfl, hq, hpend⟩, hw⟩⟩

theorem exit_phase {v : Variant} {o : ByteOrder} {bytes : List Byte} {f : Feed}
    {status : ExitStatus} {report : Report} (h : f.Parses v o bytes)
    (hpc : f.reader.pc = .exited status report) :
    (status = .success ∧ ∃ got, ((fifoFormat o).decode bytes).phase = .header got) ∨
      (∃ hdr, ((fifoFormat o).decode bytes).phase = .failed hdr) ∨
      ∃ need got, ((fifoFormat o).decode bytes).phase = .payload need got := by
  rw [(finished_decode h.inv h.quiet (.inl ⟨_, _, hpc⟩)).1]
  obtain ⟨ps, -, ht⟩ := h.inv.correct
  rcases h.quiet.report _ _ hpc with rfl | ⟨rfl, ⟨n, rfl⟩ | rfl⟩
  · simp only [Reader.Tracks, hpc] at ht
    obtain ⟨got, ht⟩ := ht
    exact .inl ⟨rfl, got, by rw [ht]⟩
  · simp only [Reader.Tracks, hpc] at ht
    obtain ⟨hdr, ht, -⟩ := ht
    exact .inr (.inl ⟨hdr, by rw [ht]⟩)
  · simp only [Reader.Tracks, hpc] at ht
    obtain ⟨need, got, ht⟩ := ht
    exact .inr (.inr ⟨need, got, by rw [ht]⟩)

theorem reach_poll (o : ByteOrder) {ps : List (List Byte)}
    (hv : ∀ p ∈ ps, (fifoFormat o).valid p.length = true) :
    ∃ f, (feed .nonblock o ((fifoFormat o).encodeAll ps)).ReachableWhile (Undisturbed .nonblock) f ∧
      f.AtEnd ∧ f.reader.pc = .poll := by
  have hphase : ((fifoFormat o).decode ((fifoFormat o).encodeAll ps)).phase = .header [] := by
    rw [Format.decode_encodeAll _ ps hv]
  obtain ⟨f, hf, ⟨status, report, hpc⟩ | ⟨hend, hw⟩⟩ := reach_end .nonblock o _
  · exfalso
    rcases exit_phase (parses_undisturbed hf) hpc with ⟨rfl, -⟩ | ⟨hdr, hd⟩ | ⟨need, got, hd⟩
    · obtain ⟨got, hne, hd⟩ := success_cut hf.reachable hpc
      rw [hphase] at hd
      exact hne (Phase.header.inj hd).symm
    · simp [hphase] at hd
    · simp [hphase] at hd
  · refine ⟨f, hf, hend, ?_⟩
    rcases (waits_decode (inv_reachable hf.reachable) hend.queue hend.pending hw).2 with
      ⟨hp, -⟩ | ⟨-, hd, hne⟩ | ⟨-, need, got, hd⟩
    · exact hp
    · rw [hphase] at hd
      exact absurd (Phase.header.inj hd).symm (hne rfl)
    · simp [hphase] at hd

end Feed

def WithinPass (v : Variant) (f : Feed) (a : FeedAction) : Prop :=
  Completes v f a ∧ f.reader.pc ≠ .top

def EndsOnNextCall (v : Variant) (o : ByteOrder) (ps : List (List Byte)) : Prop :=
  ∀ f : Feed, (feed v o ((fifoFormat o).encodeAll ps)).Reachable f → f.AtEnd →
    f.reader.stopFlag = false → f.reader.Waits →
    (feed v o ((fifoFormat o).encodeAll ps)).Inevitable (WithinPass v) (Feed.EndedWell ps) f

theorem blocking_read_ends {o : ByteOrder} {bytes : List Byte} {ps : List (List Byte)} {f : Feed}
    (hend : f.AtEnd) (hpc : f.reader.pc = .headerRead) (hstop : f.reader.stopFlag = false)
    (hp : f.reader.printed = ps.map cString) :
    (feed .basics o bytes).Inevitable (WithinPass .basics) (Feed.EndedWell ps) f := by
  apply System.Inevitable.later
  · have hk : f.readerAllowed .basics o (.read .eof) = true := by
      simp [Feed.readerAllowed, readAllowed, hend.queue, hend.peer]
    have hn := Feed.next_reader hk ((ReaderMove.headerEof hpc).main hstop rfl)
    exact ⟨_, .reader (.read .eof), ⟨⟨by simp, rfl, rfl⟩, by simp [hpc]⟩, hn⟩
  · rintro g ⟨a, ⟨hc, -⟩, hn⟩
    apply System.Inevitable.now
    obtain ⟨b, rfl⟩ : ∃ b, a = .reader b := by
      cases a with
      | reader b => exact ⟨b, rfl⟩
      | connect | arrive | close => exact hc.elim
    obtain ⟨ha, hfail, hretry⟩ := hc
    obtain ⟨hk, t, ht, rfl⟩ := Feed.reader_cases hn
    have hm := readerMain_move ht
    cases hm with
    | signal => exact absurd rfl ha
    | headerData bytes _ =>
      obtain ⟨h, h', -⟩ : bytes ≠ [] ∧ bytes = [] ∧ _ := by
        simpa [Feed.readerAllowed, readAllowed, hend.queue] using hk
      exact absurd h' h
    | headerRetry e _ =>
      cases e <;> simp [ReaderAction.fails, ReaderAction.retries] at hfail hretry
    | headerEof _ => exact ⟨rfl, rfl, rfl, hp⟩
    | die a msg hd _ hf => simp [hstop, hfail] at hf
    | _ => simp_all

theorem poll_misses_hangup {o : ByteOrder} {bytes : List Byte} {ps : List (List Byte)} {f : Feed}
    (hend : f.AtEnd) (hpc : f.reader.pc = .poll) (hstop : f.reader.stopFlag = false) :
    ¬ (feed .nonblock o bytes).Inevitable (WithinPass .nonblock) (Feed.EndedWell ps) f := by
  have hk : f.readerAllowed .nonblock o (.poll (.ready false true)) = true := by
    simp [Feed.readerAllowed, pollAllowed, hend.queue, hend.peer]
  have hm : ReaderMove .nonblock o f.reader (.poll (.ready false true)) (f.reader.goto .top) :=
    .nothing _ hpc rfl (by simp)
  have hn := Feed.next_reader hk (hm.main hstop rfl)
  have hc : WithinPass .nonblock f (.reader (.poll (.ready false true))) :=
    ⟨⟨by simp, rfl, rfl⟩, by simp [hpc]⟩
  rintro (h | ⟨-, h⟩)
  · simp [Feed.EndedWell, hpc] at h
  · have ht := h _ ⟨_, hc, hn⟩
    rcases ht with h | ⟨⟨u, a, hc, -⟩, -⟩
    · simp [Feed.EndedWell, Reader.goto] at h
    · exact hc.2 rfl

/-- 11_5 never notices the end of a stream of whole frames: `poll` reports `POLLHUP` without
`POLLIN`, and the loop goes round. The blocking reader of 11_4 ends on the same stream. -/
theorem pollReader_misses_end (o : ByteOrder) (ps : List (List Byte))
    (hv : ∀ p ∈ ps, (fifoFormat o).valid p.length = true) :
    ¬ EndsOnNextCall .nonblock o ps ∧ EndsOnNextCall .basics o ps ∧
      ∀ f report, (feed .nonblock o ((fifoFormat o).encodeAll ps)).Reachable f →
        f.reader.pc ≠ .exited .success report := by
  have hd := (fifoFormat o).decode_encodeAll ps hv
  refine ⟨?_, ?_, ?_⟩
  · intro h
    obtain ⟨f, hf, hend, hpc⟩ := Feed.reach_poll o hv
    have hstop := (Feed.parses_undisturbed hf).quiet.stopFlag
    exact poll_misses_hangup hend hpc hstop
      (h f hf.reachable hend hstop (.inl hpc))
  · intro f hf hend hstop hw
    have hinv := Feed.inv_reachable hf
    obtain ⟨hp, hcase⟩ := Feed.waits_decode hinv hend.queue hend.pending hw
    rw [hd] at hp hcase
    rcases hcase with ⟨hpc, -⟩ | ⟨hpc, -⟩ | ⟨-, need, got, hph⟩
    · have hg := hinv.gated
      simp [Feed.Gated, hpc] at hg
    · exact blocking_read_ends hend hpc hstop hp
    · cases hph
  · intro f report hf hpc
    obtain ⟨got, hne, hph⟩ := Feed.success_cut hf hpc
    rw [hd] at hph
    exact hne (Phase.header.inj hph).symm

theorem pollReader_misses_end_oneFrame :
    (∀ p ∈ [[104, 105, 0]], (fifoFormat .little).valid p.length = true) ∧
      ¬ EndsOnNextCall .nonblock .little [[104, 105, 0]] :=
  ⟨by decide, (pollReader_misses_end .little [[104, 105, 0]] (by decide)).1⟩

def hangupRun : List FeedAction :=
  [.reader (.mkfifo (some true)), .reader (.openFifo true), .connect, .arrive 7, .reader .run,
    .reader (.poll (.ready true false)), .close, .reader .run,
    .reader (.read (.data [3, 0, 0, 0])), .reader .run, .reader (.malloc (some [9, 9, 9, 9])),
    .reader .run, .reader (.read (.data [104, 105, 0])), .reader .run, .reader .run]

theorem pollReader_spins : ¬ EndsOnNextCall .nonblock .little [[104, 105, 0]] := by
  let M := feed .nonblock .little ((fifoFormat .little).encodeAll [[104, 105, 0]])
  have hrun : (M.run (Feed.start [3, 0, 0, 0, 104, 105, 0]) hangupRun).map
      (fun f => (f.reader.pc, f.reader.stopFlag, f.peer, f.queue, f.pending)) =
        some (.poll, false, .closed, [], []) := by decide +kernel
  obtain ⟨f, hf, he⟩ := Option.map_eq_some_iff.mp hrun
  simp only [Prod.mk.injEq] at he
  obtain ⟨hpc, hstop, hpeer, hq, hp⟩ := he
  have hr : M.Reachable f := .run hangupRun (.init rfl) hf
  intro h
  exact poll_misses_hangup ⟨hpeer, hq, hp⟩ hpc hstop (h f hr ⟨hpeer, hq, hp⟩ hstop (.inl hpc))

end LinuxSystemProgramming.Fifo
