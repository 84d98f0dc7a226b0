import LinuxSystemProgramming.Fifo.Channel

namespace LinuxSystemProgramming.Fifo

open CMemory Framing Transition

variable {n : ℕ}

def Writer.MidFrame (o : ByteOrder) (w : Writer) : Prop :=
  ((fifoFormat o).decode w.sent).phase ≠ .header []

/-- No writer puts bytes into the FIFO while the last frame of another one, running or ended, is
only partly in it. -/
def WholeFrames (S : Setup n) (c : Channel n) : ChannelAction n → Prop
  | .writer i a => (c.writers i).transmits S.order a ≠ [] →
      ∀ j, j ≠ i → ¬ (c.writers j).MidFrame S.order
  | .reader _ => True

def byWriter {α : Type*} (i : Fin n) (log : List (Fin n × α)) : List α :=
  (log.filter (fun e => decide (e.1 = i))).map Prod.snd

def Interleaved (c : Channel n) : Prop :=
  ∃ log : List (Fin n × List Byte), log.map Prod.snd = c.reader.printed ∧
    ∀ i, byWriter i log <+: (c.writers i).taken

@[simp] theorem byWriter_nil {α : Type*} (i : Fin n) : byWriter i ([] : List (Fin n × α)) = [] := rfl

theorem byWriter_append {α : Type*} (i : Fin n) (log more : List (Fin n × α)) :
    byWriter i (log ++ more) = byWriter i log ++ byWriter i more := by
  simp [byWriter]

theorem byWriter_own {α : Type*} (i j : Fin n) (xs : List α) :
    byWriter j (xs.map (fun x => (i, x))) = if i = j then xs else [] := by
  induction xs with
  | nil => simp
  | cons x xs ih =>
    simp only [byWriter, List.map_cons, List.filter_cons] at *
    split_ifs at * <;> simp_all

theorem byWriter_map {α β : Type*} (f : α → β) (i : Fin n) (log : List (Fin n × α)) :
    byWriter i (log.map (fun e => (e.1, f e.2))) = (byWriter i log).map f := by
  simp only [byWriter, List.filter_map, List.map_map]
  rfl

theorem byWriter_mono {α : Type*} (i : Fin n) {log log' : List (Fin n × α)} (h : log <+: log') :
    byWriter i log <+: byWriter i log' := (h.filter _).map _

theorem Writer.Correct.not_failed {o : ByteOrder} {stdin : List Byte} {w : Writer}
    (h : w.Correct o stdin) (hdr : List Byte) :
    ((fifoFormat o).decode w.sent).phase ≠ .failed hdr :=
  (decode_frames h.texts h.placed.sent_prefix).2 hdr

abbrev Writer.decoded (o : ByteOrder) (w : Writer) : Decoded Byte := (fifoFormat o).decode w.sent

structure Framed (S : Setup n) (c : Channel n) (log : List (Fin n × List Byte))
    (part : List Byte) : Prop where
  history : c.reader.consumed ++ c.queue = (fifoFormat S.order).encodeAll (log.map Prod.snd) ++ part
  complete : ∀ j, byWriter j log = ((c.writers j).decoded S.order).payloads
  part_of : ∀ i, (∀ j, j ≠ i → ¬ (c.writers j).MidFrame S.order) →
    part = (fifoFormat S.order).pending ((c.writers i).decoded S.order).phase
  boundary : (∀ j, ¬ (c.writers j).MidFrame S.order) → part = []
  alone : ∀ i j, (c.writers i).MidFrame S.order → (c.writers j).MidFrame S.order → i = j

theorem Framed.writer_step {S : Setup n} {c d : Channel n} {log : List (Fin n × List Byte)}
    {part : List Byte} (h : Framed S c log part) (hp : c.Processes S) (hp' : d.Processes S)
    {i : Fin n} {bytes : List Byte}
    (hi : ∀ j, j ≠ i → ¬ (c.writers j).MidFrame S.order)
    (hsent : (d.writers i).sent = (c.writers i).sent ++ bytes)
    (hother : ∀ j, j ≠ i → d.writers j = c.writers j) (hr : d.reader = c.reader)
    (hq : d.queue = c.queue ++ bytes) :
    ∃ log' part', Framed S d log' part' := by
  let F := fifoFormat S.order
  obtain ⟨-, hold⟩ := F.decode_wellFormed (c.writers i).sent
  obtain ⟨-, hnew⟩ := F.decode_wellFormed (d.writers i).sent
  replace hold := hold (hp.writers i).not_failed
  replace hnew := hnew (hp'.writers i).not_failed
  obtain ⟨more, hmore⟩ : ((c.writers i).decoded S.order).payloads <+:
      ((d.writers i).decoded S.order).payloads :=
    F.payloads_mono (hsent ▸ List.prefix_append _ _)
  have hpart := h.part_of i hi
  have hbytes : part ++ bytes =
      F.encodeAll more ++ F.pending ((d.writers i).decoded S.order).phase := by
    apply (List.append_right_inj (F.encodeAll ((c.writers i).decoded S.order).payloads)).mp
    calc F.encodeAll ((c.writers i).decoded S.order).payloads ++ (part ++ bytes)
        = (c.writers i).sent ++ bytes := by rw [hpart, ← List.append_assoc, ← hold]
      _ = (d.writers i).sent := hsent.symm
      _ = F.encodeAll ((d.writers i).decoded S.order).payloads ++
            F.pending ((d.writers i).decoded S.order).phase := hnew
      _ = _ := by rw [← hmore, F.encodeAll_append, List.append_assoc]
  have hmid : ∀ j, (d.writers j).MidFrame S.order → j = i := by
    intro j hj
    by_contra hne
    exact hi j hne (hother j hne ▸ hj)
  refine ⟨log ++ more.map (fun p => (i, p)), F.pending ((d.writers i).decoded S.order).phase,
    ?_, ?_, ?_, ?_, ?_⟩
  · rw [hr, hq, ← List.append_assoc, h.history, List.append_assoc, hbytes, List.map_append,
      F.encodeAll_append, List.map_map, List.append_assoc]
    congr 3
    exact (List.map_id more).symm
  · intro j
    rw [byWriter_append, byWriter_own, h.complete j]
    by_cases hj : j = i
    · rw [hj, if_pos rfl, hmore]
    · rw [if_neg (Ne.symm hj), List.append_nil, hother j hj]
  · intro k hk
    by_cases hki : k = i
    · rw [hki]
    · have hin : ¬ (d.writers i).MidFrame S.order := hk i (Ne.symm hki)
      have hkn : ¬ (d.writers k).MidFrame S.order := fun hm => hki (hmid k hm)
      simp only [Writer.MidFrame, ne_eq, not_not] at hin hkn
      simp only [Writer.decoded, hin, hkn, F]
  · intro hb
    have hin := hb i
    simp only [Writer.MidFrame, ne_eq, not_not] at hin
    simp only [Writer.decoded, hin]
    rfl
  · intro j k hj hk
    rw [hmid j hj, hmid k hk]

theorem Framed.congr {S : Setup n} {c d : Channel n} {log : List (Fin n × List Byte)}
    {part : List Byte} (h : Framed S c log part)
    (hs : ∀ j, (d.writers j).sent = (c.writers j).sent)
    (hb : d.reader.consumed ++ d.queue = c.reader.consumed ++ c.queue) : Framed S d log part := by
  obtain ⟨h1, h2, h3, h4, h5⟩ := h
  refine ⟨hb.trans h1, ?_, ?_, ?_, ?_⟩ <;>
    simp only [Writer.MidFrame, Writer.decoded, hs] at * <;> assumption

theorem framed_next {S : Setup n} {c d : Channel n} {a : ChannelAction n} (hp : c.Processes S)
    (hf : ∃ log part, Framed S c log part) (hc : WholeFrames S c a)
    (hn : Channel.next S c a = some d) : ∃ log part, Framed S d log part := by
  obtain ⟨log, part, hf⟩ := hf
  have hp' := Channel.processes_next hp hn
  rcases Channel.next_cases hn with
    ⟨i, b, w, rfl, hm, -, hw, hr, hq⟩ | ⟨b, r, -, hm, -, hq, hw, hr⟩
  · have hi : (d.writers i).sent = (c.writers i).sent ++ (c.writers i).transmits S.order b := by
      rw [hw, Function.update_self, Writer.move_sent hm]
    have hother : ∀ j, j ≠ i → d.writers j = c.writers j := by
      intro j hj
      rw [hw, Function.update_of_ne hj]
    by_cases hb : (c.writers i).transmits S.order b = []
    · refine ⟨log, part, hf.congr ?_ ?_⟩
      · intro j
        by_cases hj : j = i
        · rw [hj, hi, hb, List.append_nil]
        · rw [hother j hj]
      · rw [hr, hq, hb, List.append_nil]
    · exact hf.writer_step hp hp' (hc hb) hi hother hr hq
  · refine ⟨log, part, hf.congr (fun j => by rw [hw]) ?_⟩
    rw [hr, Reader.move_consumed hm, hq, List.append_assoc]

theorem framed_reachable {S : Setup n} {c : Channel n}
    (h : (channel S).ReachableWhile (WholeFrames S) c) : ∃ log part, Framed S c log part := by
  apply System.ReachableWhile.induct _ _ h
  · rintro _ rfl
    refine ⟨[], [], rfl, fun j => rfl, fun i _ => rfl, fun _ => rfl, ?_⟩
    intro i j hi
    exact absurd rfl hi
  · intro s a t hr hf hc hn
    exact framed_next (Channel.processes_reachable hr.reachable) hf hc hn

theorem Framed.decode_history {S : Setup n} {c : Channel n} {log : List (Fin n × List Byte)}
    {part : List Byte} (h : Framed S c log part) (hp : c.Processes S) :
    ((fifoFormat S.order).decode (c.reader.consumed ++ c.queue)).payloads = log.map Prod.snd ∧
      ∀ hdr, ((fifoFormat S.order).decode (c.reader.consumed ++ c.queue)).phase ≠ .failed hdr := by
  let F := fifoFormat S.order
  have hv : ∀ p ∈ log.map Prod.snd, F.valid p.length = true := by
    intro p hp
    obtain ⟨⟨j, q⟩, hm, rfl⟩ := List.mem_map.mp hp
    apply (F.decode_wellFormed (c.writers j).sent).1.payloads
    change q ∈ ((c.writers j).decoded S.order).payloads
    rw [← h.complete j]
    exact List.mem_map.mpr ⟨(j, q), by simp [hm], rfl⟩
  by_cases hb : ∀ j, ¬ (c.writers j).MidFrame S.order
  · have he : F.decode (c.reader.consumed ++ c.queue) = ⟨log.map Prod.snd, .header []⟩ := by
      rw [h.history, h.boundary hb, List.append_nil]
      exact F.decode_encodeAll _ hv
    change (F.decode _).payloads = _ ∧ ∀ hdr, (F.decode _).phase ≠ _
    rw [he]
    exact ⟨rfl, by simp⟩
  · obtain ⟨i, hi⟩ := not_forall.mp hb
    have hother : ∀ j, j ≠ i → ¬ (c.writers j).MidFrame S.order :=
      fun j hj hm => hj (h.alone j i hm (not_not.mp hi))
    have he : F.decode (c.reader.consumed ++ c.queue) =
        ⟨log.map Prod.snd, ((c.writers i).decoded S.order).phase⟩ := by
      rw [h.history, h.part_of i hother]
      exact F.decode_encodeAll_pending hv (F.decode_wellFormed _).1 (hp.writers i).not_failed
    change (F.decode _).payloads = _ ∧ ∀ hdr, (F.decode _).phase ≠ _
    rw [he]
    exact ⟨rfl, (hp.writers i).not_failed⟩

theorem Framed.interleaved {S : Setup n} {c : Channel n} {log : List (Fin n × List Byte)}
    {part : List Byte} (h : Framed S c log part) (hp : c.Processes S) : Interleaved c := by
  obtain ⟨hl, -⟩ := h.decode_history hp
  have hprinted : c.reader.printed <+: (log.map Prod.snd).map cString := by
    refine hp.reader.printed_prefix.trans (List.IsPrefix.map cString ?_)
    rw [← hl]
    exact Format.payloads_mono _ (List.prefix_append _ _)
  have htake := List.prefix_iff_eq_take.mp hprinted
  refine ⟨(log.take c.reader.printed.length).map (fun e => (e.1, cString e.2)), ?_, ?_⟩
  · conv_rhs => rw [htake]
    rw [List.map_map, List.map_map, ← List.map_take]
    rfl
  · intro i
    rw [byWriter_map]
    refine ((byWriter_mono i (List.take_prefix _ _)).map cString).trans ?_
    rw [h.complete i]
    exact (decode_frames (hp.writers i).texts (hp.writers i).placed.sent_prefix).1

theorem Interleaved.mem {c : Channel n} (h : Interleaved c) {t : List Byte}
    (ht : t ∈ c.reader.printed) : ∃ i, t ∈ (c.writers i).taken := by
  obtain ⟨tagged, hprinted, htaken⟩ := h
  rw [← hprinted] at ht
  obtain ⟨⟨i, u⟩, hm, rfl⟩ := List.mem_map.mp ht
  exact ⟨i, (htaken i).subset (List.mem_map.mpr ⟨(i, u), by simp [hm], rfl⟩)⟩

/-- Where frames are sent whole, the reader prints the strings of the writers, each writer's in the
order sent, and never meets a length it refuses. -/
theorem fifo_many_writers {S : Setup n} {c : Channel n}
    (h : (channel S).ReachableWhile (WholeFrames S) c) :
    Interleaved c ∧ (∀ t ∈ c.reader.printed, ∃ i, t ∈ (c.writers i).taken) ∧
      ∀ len, c.reader.pc ≠ .exited .failure (.invalidLength len) := by
  have hp := Channel.processes_reachable h.reachable
  obtain ⟨log, part, hf⟩ := framed_reachable h
  have hi := hf.interleaved hp
  refine ⟨hi, fun t ht => hi.mem ht, ?_⟩
  apply hp.reader.accepts
  intro hdr hfail
  have hmono := Format.failed_mono (fifoFormat S.order)
    (List.prefix_append c.reader.consumed c.queue) hfail
  exact (hf.decode_history hp).2 hdr (hmono ▸ hfail)

def twoWriters : Setup 2 :=
  ⟨.little, fun _ => .basics, .basics, fun i => if i = 0 then [65, 10] else [66, 10]⟩

def opened : List (ChannelAction 2) :=
  [.reader (.mkfifo (some true)), .reader (.openFifo true), .writer 0 (.openFifo true),
    .writer 1 (.openFifo true), .writer 0 .run, .writer 0 (.fgets true), .writer 1 .run,
    .writer 1 (.fgets true)]

def frameOf (i : Fin 2) : List (ChannelAction 2) :=
  [.writer i (.write (.wrote 4)), .writer i .run, .writer i (.write (.wrote 2)), .writer i .run]

def readFrame (payload : List Byte) : List (ChannelAction 2) :=
  [.reader .run, .reader .run, .reader (.read (.data [2, 0, 0, 0])), .reader .run,
    .reader (.malloc (some [0, 0, 0])), .reader .run, .reader (.read (.data payload)),
    .reader .run]

instance (S : Setup n) (c : Channel n) (a : ChannelAction n) : Decidable (WholeFrames S c a) :=
  match a with
  | .writer i b => inferInstanceAs (Decidable ((c.writers i).transmits S.order b ≠ [] →
      ∀ j, j ≠ i → ¬ ((fifoFormat S.order).decode (c.writers j).sent).phase ≠ .header []))
  | .reader _ => .isTrue trivial

theorem fifo_many_writers_in_turn : ∃ c : Channel 2, c.reader.printed = [[66], [65]] ∧
    Interleaved c ∧ (∀ t ∈ c.reader.printed, ∃ i, t ∈ (c.writers i).taken) ∧
      ∀ len, c.reader.pc ≠ .exited .failure (.invalidLength len) := by
  have hrun : ((channel twoWriters).runWhile (fun c a => decide (WholeFrames twoWriters c a))
      (Channel.start twoWriters)
      (opened ++ frameOf 1 ++ readFrame [66, 0] ++ frameOf 0 ++ readFrame [65, 0])).map
        (fun c => c.reader.printed) = some [[66], [65]] := by decide +kernel
  obtain ⟨c, hc, hp⟩ := Option.map_eq_some_iff.mp hrun
  have hr : (channel twoWriters).ReachableWhile (WholeFrames twoWriters) c :=
    .run (fun _ _ h => of_decide_eq_true h) _ (.init rfl) hc
  exact ⟨c, hp, fifo_many_writers hr⟩

def wholeWrites (S : Setup n) (c : Channel n) : ChannelAction n → Bool
  | .writer i (.write (.wrote k)) => k = ((c.writers i).offered S.order).length
  | _ => true

/-- The length of the second writer arrives between the length and the payload of the first: the
reader prints `"\x02"`, which neither has sent. -/
theorem fifo_writers_collide : ∃ c : Channel 2,
    (channel twoWriters).ReachableWhile (fun c a => wholeWrites twoWriters c a = true) c ∧
      ¬ Interleaved c := by
  have hrun : ((channel twoWriters).runWhile (wholeWrites twoWriters) (Channel.start twoWriters)
      (opened ++ [.writer 0 (.write (.wrote 4)), .writer 1 (.write (.wrote 4))] ++
        readFrame [2, 0])).map
        (fun c => (c.reader.printed, (c.writers 0).taken, (c.writers 1).taken)) =
      some ([[2]], [[65]], [[66]]) := by decide +kernel
  obtain ⟨c, hc, hp⟩ := Option.map_eq_some_iff.mp hrun
  obtain ⟨hprinted, htaken⟩ := Prod.mk.inj hp
  obtain ⟨h0, h1⟩ := Prod.mk.inj htaken
  refine ⟨c, .run (fun _ _ h => h) _ (.init rfl) hc, ?_⟩
  intro hi
  have hm : ∃ i, [2] ∈ (c.writers i).taken :=
    hi.mem (by rw [hprinted]; exact List.mem_singleton_self _)
  rcases Fin.exists_fin_two.mp hm with hm | hm
  · simp [h0] at hm
  · simp [h1] at hm

end LinuxSystemProgramming.Fifo
