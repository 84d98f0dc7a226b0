import LinuxSystemProgramming.Fifo.EndOfStream

namespace LinuxSystemProgramming.Fifo

open CMemory Framing Transition

def EndsInsideFrame (o : ByteOrder) (bytes : List Byte) : Prop :=
  (∃ got, got ≠ [] ∧ ((fifoFormat o).parse bytes).phase = .header got) ∨
    ∃ need got, ((fifoFormat o).parse bytes).phase = .payload need got

/-- Success means that whole frames and nothing else have been consumed, all of them printed; and
a reader at the end of a stream that stops inside a frame comes to a failure. -/
def SuccessIsComplete (v : Variant) (o : ByteOrder) (bytes : List Byte) : Prop :=
  ∀ f : Feed, (feed v o bytes).Reachable f →
    (∀ report, f.reader.pc = .exited .success report →
      ∃ ps, (∀ p ∈ ps, (fifoFormat o).valid p.length = true) ∧
        f.reader.consumed = (fifoFormat o).encodeAll ps ∧ f.reader.printed = ps.map cString) ∧
    (EndsInsideFrame o bytes →
      (∀ status report, f.reader.pc = .exited status report → status = .failure) ∧
      (f.AtEnd → (feed v o bytes).Inevitable (Completes v)
        (fun g => ∃ report, g.reader.pc = .exited .failure report) f))

namespace Feed

theorem Inv.success_consumed {v : Variant} {o : ByteOrder} {bytes : List Byte} {f : Feed}
    {report : Report} (h : f.Inv v o bytes) (hpc : f.reader.pc = .exited .success report) :
    f.reader.consumed = bytes := by
  obtain ⟨hq, hc⟩ := h.ended (.inl ⟨report, hpc⟩)
  exact h.consumed_all hq (h.closed hc)

theorem cut_header_succeeds {v : Variant} {o : ByteOrder} {bytes got : List Byte} (hne : got ≠ [])
    (hph : ((fifoFormat o).decode bytes).phase = .header got) :
    ∃ f report, (feed v o bytes).Reachable f ∧ f.reader.pc = .exited .success report := by
  obtain ⟨f, hf, ⟨status, report, hpc⟩ | ⟨hend, hw⟩⟩ := reach_end v o bytes
  · rcases exit_phase (parses_undisturbed hf) hpc with ⟨rfl, -⟩ | ⟨hdr, hd⟩ | ⟨need, got, hd⟩
    · exact ⟨f, report, hf.reachable, hpc⟩
    · simp [hph] at hd
    · simp [hph] at hd
  · rcases (waits_decode (inv_reachable hf.reachable) hend.queue hend.pending hw).2 with
      ⟨-, hd⟩ | ⟨hpc, -⟩ | ⟨-, need, got, hd⟩
    · rw [hph] at hd
      exact absurd (Phase.header.inj hd) hne
    · have hk : f.readerAllowed v o (.read .eof) = true := by
        simp [readerAllowed, readAllowed, hend.queue, hend.peer]
      have hstop := (parses_undisturbed hf).quiet.stopFlag
      have hn := next_reader hk ((ReaderMove.headerEof hpc).main hstop rfl)
      exact ⟨_, .closed, hf.reachable.step (.reader (.read .eof)) hn, rfl⟩
    · simp [hph] at hd

theorem payload_pc {v : Variant} {o : ByteOrder} {bytes got : List Byte} {need : ℕ} {f : Feed}
    (h : f.Inv v o bytes) (hend : f.AtEnd)
    (hph : ((fifoFormat o).decode bytes).phase = .payload need got) :
    f.reader.pc = .headerTest ∧ ¬ f.reader.totalRead < sizeofLen ∨ f.reader.pc = .malloc ∨
      f.reader.pc = .payloadTest ∨ f.reader.pc = .payloadRead ∨
      ∃ report, f.reader.pc = .exited .failure report := by
  rw [← h.consumed_all hend.queue hend.pending] at hph
  obtain ⟨ps, -, ht⟩ := h.correct
  cases hpc : f.reader.pc <;> simp only [Reader.Tracks, hpc] at ht
  case headerTest =>
    refine .inl ⟨rfl, ?_⟩
    intro hl
    rw [ht.2.2, Format.inHeader_of_lt] at hph
    · cases hph
    · simp only [List.length_take, fifoFormat_headerSize]
      omega
  case headerRead =>
    obtain ⟨ps, -, hd⟩ := Reader.headerRead_phase h.correct hpc
    simp [hd] at hph
  case exited status report =>
    cases status with
    | failure => simp
    | success =>
      obtain ⟨g, ht⟩ := ht
      simp [ht] at hph
  case malloc | payloadTest | payloadRead => simp
  all_goals simp [ht] at hph

theorem completes_enabled {v : Variant} {o : ByteOrder} {bytes got : List Byte} {need : ℕ} {f : Feed}
    (h : f.Inv v o bytes) (hend : f.AtEnd)
    (hph : ((fifoFormat o).decode bytes).phase = .payload need got)
    (hd : ¬ ∃ report, f.reader.pc = .exited .failure report) :
    ∃ g, (feed v o bytes).StepWhile (Completes v) f g := by
  suffices hs : ∃ a t, f.readerAllowed v o a = true ∧ readerMain v o f.reader a = some t ∧
      Completes v f (.reader a) by
    obtain ⟨a, t, hk, ht, hc⟩ := hs
    exact ⟨_, .reader a, hc, next_reader hk ht⟩
  rcases payload_pc h hend hph with ⟨hpc, hl⟩ | hpc | hpc | hpc | he
  · refine ⟨.run, f.reader.checkLength o, rfl, ?_, by simp, rfl, rfl⟩
    cases v <;> simp [readerMain, ReaderEnd.main, PollReader.main, hpc, hl]
  · let block : List Byte := List.replicate (f.reader.len o + 1) 0
    refine ⟨.malloc (some block), f.reader.allocated block, rfl, ?_, by simp, rfl, rfl⟩
    cases v <;> simp [readerMain, ReaderEnd.main, PollReader.main, hpc, block]
  · have hrun : ∃ t, readerMain v o f.reader .run = some t := by
      cases v <;> simp only [readerMain, ReaderEnd.main, PollReader.main, hpc] <;> split_ifs <;>
        exact ⟨_, rfl⟩
    obtain ⟨t, ht⟩ := hrun
    exact ⟨.run, t, rfl, ht, by simp, rfl, rfl⟩
  · refine ⟨.read .eof, f.reader.die .closedMidMessage, ?_, ?_, by simp, rfl, rfl⟩
    · simp [readerAllowed, readAllowed, hend.queue, hend.peer]
    · cases v <;> simp [readerMain, ReaderEnd.main, PollReader.main, hpc]
  · exact absurd he hd

theorem completes_rank {v : Variant} {o : ByteOrder} {bytes got : List Byte} {need : ℕ} {f : Feed}
    {a : ReaderAction} {t : Reader} (h : f.Inv v o bytes) (hend : f.AtEnd)
    (hph : ((fifoFormat o).decode bytes).phase = .payload need got)
    (hd : ¬ ∃ report, f.reader.pc = .exited .failure report)
    (hk : f.readerAllowed v o a = true) (hc : Completes v f (.reader a))
    (hm : ReaderMove v o f.reader a t) : t.rank < f.reader.rank := by
  obtain ⟨ha, hfail, hretry⟩ := hc
  have hpcs := payload_pc h hend hph
  have hnodata : ∀ block, a ≠ .read (.data block) := by
    rintro block rfl
    obtain ⟨hb, hnil, -⟩ : block ≠ [] ∧ block = [] ∧ _ := by
      simpa [readerAllowed, readAllowed, hend.queue] using hk
    exact hb hnil
  cases hm with
  | signal => exact absurd rfl ha
  | headerData block hpc | payloadData block hpc => exact absurd rfl (hnodata block)
  | checkLength hpc hl =>
    unfold Reader.checkLength
    split_ifs <;> simp [Reader.rank, Reader.goto, Reader.die, Reader.exit, hpc, hl]
  | allocated block hpc hl => simp [Reader.rank, Reader.allocated, hpc]
  | payloadTest hpc hl => simp [Reader.rank, Reader.goto, hpc]
  | printMessage hpc hl =>
    unfold Reader.printMessage
    split <;> simp [Reader.rank, Reader.goto, hpc]
  | payloadEof hpc => simp [Reader.rank, Reader.die, Reader.exit, hpc]
  | payloadRetry e hpc =>
    cases e <;> simp [ReaderAction.fails, ReaderAction.retries] at hfail hretry
  | die a msg hdie _ _ =>
    have hpos : 0 < f.reader.rank := by
      rcases hpcs with ⟨hpc, hl⟩ | hpc | hpc | hpc | he
      · simp [Reader.rank, hpc, hl]
      · simp [Reader.rank, hpc]
      · simp [Reader.rank, hpc]
      · simp [Reader.rank, hpc]
      · exact absurd he hd
    exact hpos
  | _ => simp_all

theorem cut_payload_fails {v : Variant} {o : ByteOrder} {bytes got : List Byte} {need : ℕ} {f : Feed}
    (h : f.Inv v o bytes) (hend : f.AtEnd)
    (hph : ((fifoFormat o).decode bytes).phase = .payload need got) :
    (feed v o bytes).Inevitable (Completes v) (fun g => ∃ report, g.reader.pc = .exited .failure report)
      f := by
  apply System.Inevitable.of_measure (I := fun g => g.Inv v o bytes ∧ g.AtEnd)
    (fun g => g.reader.rank) _ _ ⟨h, hend⟩
  · rintro g ⟨hg, hend⟩ hd
    exact completes_enabled hg hend hph hd
  · rintro g g' ⟨hg, hend⟩ hd ⟨a, hc, hn⟩
    have hg' := inv_next hg hn
    cases a with
    | reader b =>
      obtain ⟨hk, t, ht, rfl⟩ := reader_cases hn
      have hq : g.queue.drop b.received.length = [] := by rw [hend.queue, List.drop_nil]
      exact ⟨⟨hg', hend.peer, hq, hend.pending⟩,
        completes_rank hg hend hph hd hk hc (readerMain_move ht)⟩
    | connect | arrive | close => exact hc.elim

end Feed

/-- The readers keep the promise unless the stream stops inside a header: the header loop takes
an end of stream for a clean one wherever it comes. -/
theorem success_complete_iff (v : Variant) (o : ByteOrder) (bytes : List Byte) :
    SuccessIsComplete v o bytes ↔
      ¬ ∃ got, got ≠ [] ∧ ((fifoFormat o).parse bytes).phase = .header got := by
  rw [← Format.decode_eq_parse]
  constructor
  · rintro h ⟨got, hne, hph⟩
    obtain ⟨f, report, hf, hpc⟩ := Feed.cut_header_succeeds hne hph
    obtain ⟨ps, hv, hc, -⟩ := (h f hf).1 report hpc
    have hb := (Feed.inv_reachable hf).success_consumed hpc
    rw [← hb, hc, Format.decode_encodeAll _ ps hv] at hph
    exact hne (Phase.header.inj hph).symm
  · intro hcut f hf
    have hinv := Feed.inv_reachable hf
    constructor
    · intro report hpc
      obtain ⟨ps, hps, ht⟩ := hinv.correct
      simp only [Reader.Tracks, hpc] at ht
      obtain ⟨got, ht⟩ := ht
      have hw := (fifoFormat o).decode_wellFormed f.reader.consumed
      have hgot : got = [] := by
        by_contra hne
        exact hcut ⟨got, hne, by rw [← hinv.success_consumed hpc, ht]⟩
      rw [ht, hgot] at hw
      refine ⟨ps, hw.1.payloads, ?_, hps.symm⟩
      rw [hw.2 (by simp), Format.pending, List.append_nil]
    · intro hin
      unfold EndsInsideFrame at hin
      rw [← Format.decode_eq_parse] at hin
      obtain ⟨need, got, hph⟩ := hin.resolve_left hcut
      refine ⟨?_, fun hend => Feed.cut_payload_fails hinv hend hph⟩
      rintro (_ | _) report hpc
      · exfalso
        obtain ⟨ps, -, ht⟩ := hinv.correct
        simp only [Reader.Tracks, hpc] at ht
        obtain ⟨got', ht⟩ := ht
        rw [← hinv.success_consumed hpc, ht] at hph
        cases hph
      · rfl

def oneByteRun : List FeedAction :=
  [.reader (.mkfifo (some true)), .connect, .reader (.openFifo true), .arrive 1, .close,
    .reader .run, .reader .run, .reader (.read (.data [1])), .reader .run, .reader (.read .eof)]

theorem success_with_half_header : ¬ SuccessIsComplete .basics .little [1] := by
  let M := feed .basics .little [1]
  have hrun : (M.run (Feed.start [1]) oneByteRun).map (fun f => (f.reader.pc, f.reader.consumed)) =
      some (.exited .success .closed, [1]) := by decide +kernel
  obtain ⟨f, hf, he⟩ := Option.map_eq_some_iff.mp hrun
  simp only [Prod.mk.injEq] at he
  obtain ⟨hpc, hc⟩ := he
  intro h
  obtain ⟨ps, hv, he, -⟩ := (h f (.run oneByteRun (.init rfl) hf)).1 _ hpc
  have hd := (fifoFormat .little).decode_encodeAll ps hv
  rw [← he, hc] at hd
  have hone : ((fifoFormat .little).decode [1]).phase = .header [1] := by decide +kernel
  rw [hd] at hone
  cases hone

end LinuxSystemProgramming.Fifo
