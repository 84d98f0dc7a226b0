import LinuxSystemProgramming.SharedMemory.Points

namespace LinuxSystemProgramming.SharedMemory

open CMemory NamedObjects Semaphores Transition

variable {N : ℕ} {text : List Byte} {h h' : Handshake N}

theorem past_update {readers : Fin N → ReaderPc} {i : Fin N} {pc : ReaderPc} {p : Fin N → Prop}
    (hpc : p i → pc.past = false) (hr : ∀ j, j ≠ i → p j → (readers j).past = false) :
    ∀ j, p j → (Function.update readers i pc j).past = false := by
  intro j hj
  by_cases hji : j = i
  · subst hji
    rw [Function.update_self]
    exact hpc hj
  · rw [Function.update_of_ne hji]
    exact hr j hji hj

theorem past_update_all {readers : Fin N → ReaderPc} {i : Fin N} {pc : ReaderPc}
    (hpc : pc.past = false) (hr : ∀ j, j ≠ i → (readers j).past = false) (j : Fin N) :
    (Function.update readers i pc j).past = false :=
  past_update (p := fun _ => True) (fun _ => hpc) (fun k hk _ => hr k hk) j trivial

section Phases

variable {readers : Fin N → ReaderPc} {passed acked : List (Fin N)}
variable {printed : List (Fin N × List Byte)}

theorem Phase.idle (hp : Phase text readers passed printed acked) {i : Fin N} {pc : ReaderPc}
    (hpc : pc.past = false) (hr : ∀ shm read, readers i ≠ .printf shm read) :
    Phase text (Function.update readers i pc) passed printed acked := by
  have hprintf : ∀ shm read, pc ≠ .printf shm read := by
    rintro shm read rfl
    cases hpc
  cases hp with
  | waiting hp ht ha hall =>
    exact .waiting hp ht ha (past_update_all hpc (fun j _ => hall j))
  | reading k read rest hk htext hp ht ha hothers =>
    have hne : k ≠ i := fun he => hr _ _ (he ▸ hk)
    refine .reading k read rest ?_ htext hp ht ha (past_update (fun _ => hpc) (fun j _ => hothers j))
    rw [Function.update_of_ne hne, hk]
  | printed k hk hp ht ha hothers =>
    refine .printed k ?_ hp ht ha (past_update (fun _ => hpc) (fun j _ => hothers j))
    intro shm read
    by_cases hki : k = i
    · rw [hki, Function.update_self]
      exact hprintf shm read
    · rw [Function.update_of_ne hki]
      exact hk shm read
  | acked k hp ht ha hall =>
    exact .acked k hp ht ha (past_update_all hpc (fun j _ => hall j))

theorem Phase.at_printf (hp : Phase text readers passed printed acked) {i : Fin N} {shm : ℕ}
    {read : List Byte} (hpc : readers i = .printf shm read) :
    (∃ rest, read ++ rest = text) ∧ passed = [i] ∧ printed = [] ∧ acked = [] ∧
      ∀ j, j ≠ i → (readers j).past = false := by
  have hpast : (readers i).past = true := by rw [hpc]; rfl
  cases hp with
  | waiting _ _ _ hall | acked _ _ _ _ hall => exact absurd (hall i) (by simp [hpast])
  | reading k read' rest hk htext hp ht ha hothers =>
    have hik : i = k := by
      by_contra hne
      exact absurd (hothers i hne) (by simp [hpast])
    subst hik
    cases hk.symm.trans hpc
    exact ⟨⟨rest, htext⟩, hp, ht, ha, hothers⟩
  | printed k hk hp ht ha hothers =>
    have hik : i ≠ k := fun he => hk _ _ (he ▸ hpc)
    exact absurd (hothers i hik) (by simp [hpast])

theorem Phase.at_post (hp : Phase text readers passed printed acked) {i : Fin N} {shm : ℕ}
    (hpc : readers i = .post shm) : passed = [i] ∧ printed = [(i, text)] ∧ acked = [] ∧
      ∀ j, j ≠ i → (readers j).past = false := by
  have hpast : (readers i).past = true := by rw [hpc]; rfl
  cases hp with
  | waiting _ _ _ hall | acked _ _ _ _ hall => exact absurd (hall i) (by simp [hpast])
  | reading k read' rest hk htext hp ht ha hothers =>
    have hik : i ≠ k := by
      rintro rfl
      cases hk.symm.trans hpc
    exact absurd (hothers i hik) (by simp [hpast])
  | printed k hk hp ht ha hothers =>
    have hik : i = k := by
      by_contra hne
      exact absurd (hothers i hne) (by simp [hpast])
    subst hik
    exact ⟨hp, ht, ha, hothers⟩

theorem Phase.unpassed (hp : Phase text readers passed printed acked) (h : passed = []) :
    printed = [] ∧ acked = [] ∧ ∀ j, (readers j).past = false := by
  cases hp with
  | waiting _ ht ha hall => exact ⟨ht, ha, hall⟩
  | reading _ _ _ _ _ hp | printed _ _ hp | acked _ hp => cases hp.symm.trans h

end Phases

theorem handles_update (hi : Inv text h) (i : Fin N) {pc : ReaderPc}
    (hpc : ∀ q, pc.object? = some q → q = 0) :
    ∀ j q, (Function.update h.readers i pc j).object? = some q → q = 0 := by
  intro j q hq
  by_cases hji : j = i
  · subst hji
    rw [Function.update_self] at hq
    exact hpc q hq
  · rw [Function.update_of_ne hji] at hq
    exact hi.handles j q hq

theorem Inv.setReader (hi : Inv text h) {i : Fin N} {pc : ReaderPc}
    (hpc : ∀ q, pc.object? = some q → q = 0)
    (hp : Phase text (Function.update h.readers i pc) h.passed h.printed h.acked) :
    Inv text (h.setReader i pc) :=
  ⟨hi.writer, hi.named, handles_update hi i hpc, hi.dataReady, hi.readerDone, hp⟩

theorem Inv.object_zero (hi : Inv text h) {i : Fin N} {pc : ReaderPc} {q : ℕ}
    (hpc : h.readers i = pc) (hq : pc.object? = some q) : q = 0 := hi.handles i q (hpc ▸ hq)

theorem inv_passes (hi : Inv text h) {i : Fin N} {sem : Semaphore}
    (hw : (h.kernel.object 0).semDataReady.wait = some sem) :
    Inv text ({ h.modify 0 (fun r => { r with semDataReady := sem }) with
      passed := h.passed ++ [i] }.setReader i (.printf 0 [])) := by
  have hlt : h.passed.length < 1 := Nat.lt_of_lt_of_le (hi.dataReady.waits_lt hw) hi.writer.sent.1
  have hnil : h.passed = [] := List.eq_nil_of_length_eq_zero (Nat.lt_one_iff.mp hlt)
  obtain ⟨ht, ha, hall⟩ := hi.phase.unpassed hnil
  refine ⟨?_, hi.named, handles_update hi i ?_, ?_, ?_, ?_⟩
  · exact hi.writer.frame rfl rfl (by simp [Handshake.setReader, Handshake.modify]) id
  · rintro q ⟨⟩
    rfl
  · simpa [Handshake.setReader, Handshake.modify] using hi.dataReady.wait hw
  · simpa [Handshake.setReader, Handshake.modify] using hi.readerDone
  · refine .reading i [] text (Function.update_self _ _ _) rfl ?_ ht ha
      (past_update (fun hne => absurd rfl hne) (fun j _ _ => hall j))
    exact congrArg (· ++ [i]) hnil

theorem inv_acks (hi : Inv text h) {i : Fin N} (hpc : h.readers i = .post 0) :
    Inv text ({ h.modify 0 (fun r => { r with semReaderDone := r.semReaderDone.post }) with
      acked := h.acked ++ [i] }.setReader i (.munmap 0)) := by
  obtain ⟨hp, ht, ha, hothers⟩ := hi.phase.at_post hpc
  refine ⟨?_, hi.named, handles_update hi i ?_, ?_, ?_, ?_⟩
  · refine hi.writer.frame rfl rfl (by simp [Handshake.setReader, Handshake.modify]) ?_
    exact fun _ => List.append_ne_nil_of_right_ne_nil _ (List.cons_ne_nil _ _)
  · rintro q ⟨⟩
    rfl
  · simpa [Handshake.setReader, Handshake.modify] using hi.dataReady
  · simpa [Handshake.setReader, Handshake.modify, Semaphore.post] using hi.readerDone
  · exact .acked i hp ht (congrArg (· ++ [i]) ha) (past_update_all rfl hothers)

theorem next_byte {read rest message : List Byte} (hm : read ++ rest ++ [0] <+: message) :
    message[read.length]? = some (rest.headD 0) := by
  obtain ⟨tail, rfl⟩ := hm
  rw [List.append_assoc, List.append_assoc, List.getElem?_append_right (Nat.le_refl _), Nat.sub_self]
  cases rest <;> rfl

theorem Inv.written (hi : Inv text h) {i : Fin N} (hp : h.passed = [i]) : Written text h.kernel := by
  have hle := hi.dataReady.waits_le
  rw [hp] at hle
  exact hi.writer.sent.2 hle

theorem Inv.byte (hi : Inv text h) {i : Fin N} {read : List Byte}
    (hpc : h.readers i = .printf 0 read) : ∃ rest, read ++ rest = text ∧
      (h.kernel.object 0).message[read.length]? = some (rest.headD 0) := by
  obtain ⟨⟨rest, htext⟩, hp, -⟩ := hi.phase.at_printf hpc
  refine ⟨rest, htext, next_byte ?_⟩
  rw [htext]
  exact hi.written hp

theorem inv_reads (hi : Inv text h) {i : Fin N} {read : List Byte} {b : Byte}
    (hpc : h.readers i = .printf 0 read) (hne : b ≠ 0)
    (hb : (h.kernel.object 0).message[read.length]? = some b) :
    Inv text (h.setReader i (.printf 0 (read ++ [b]))) := by
  obtain ⟨-, hp, ht, ha, hothers⟩ := hi.phase.at_printf hpc
  obtain ⟨rest, htext, hbyte⟩ := hi.byte hpc
  have hhead := Option.some.inj (hb.symm.trans hbyte)
  apply hi.setReader
  · rintro q ⟨⟩
    rfl
  · cases rest with
    | nil => exact absurd hhead hne
    | cons c rest =>
      refine .reading i _ rest (Function.update_self _ _ _) ?_ hp ht ha
        (past_update (fun he => absurd rfl he) (fun j hj _ => hothers j hj))
      rw [List.append_assoc, show b = c from hhead]
      exact htext

theorem inv_prints (hnul : ∀ b ∈ text, b ≠ 0) (hi : Inv text h) {i : Fin N} {read : List Byte}
    (hpc : h.readers i = .printf 0 read)
    (hb : (h.kernel.object 0).message[read.length]? = some 0) :
    Inv text ({ h with printed := h.printed ++ [(i, read)] }.setReader i (.post 0)) := by
  obtain ⟨-, hp, ht, ha, hothers⟩ := hi.phase.at_printf hpc
  obtain ⟨rest, htext, hbyte⟩ := hi.byte hpc
  have hhead := Option.some.inj (hb.symm.trans hbyte)
  have hread : read = text := by
    cases rest with
    | nil => rw [← htext, List.append_nil]
    | cons c rest =>
      have hc : c ∈ text := htext ▸ List.mem_append_right _ List.mem_cons_self
      exact absurd hhead.symm (hnul c hc)
  refine ⟨hi.writer, hi.named, handles_update hi i ?_, hi.dataReady, hi.readerDone, ?_⟩
  · rintro q ⟨⟩
    rfl
  · refine .printed i ?_ hp ?_ ha
      (past_update (fun he => absurd rfl he) (fun j hj _ => hothers j hj))
    · simp [Handshake.setReader]
    · rw [← hread]
      exact congrArg (· ++ [(i, read)]) ht

theorem inv_reader (hnul : ∀ b ∈ text, b ≠ 0) (hi : Inv text h) {i : Fin N} {a : Attempt}
    (hm : ReaderMove h i a h') : Inv text h' := by
  cases hm with
  | opens fd hpc hn =>
    apply hi.setReader
    · rintro q ⟨⟩
      exact hi.named fd hn
    · exact hi.phase.idle rfl (by simp [hpc])
  | maps fd hpc | closes fd hpc =>
    apply hi.setReader
    · rintro q ⟨⟩
      exact hi.object_zero hpc rfl
    · exact hi.phase.idle rfl (by simp [hpc])
  | passes shm sem hpc hw =>
    obtain rfl := hi.object_zero hpc rfl
    exact inv_passes hi hw
  | reads shm read b hpc hb hne =>
    obtain rfl := hi.object_zero hpc rfl
    exact inv_reads hi hpc hne hb
  | prints shm read hpc hb =>
    obtain rfl := hi.object_zero hpc rfl
    exact inv_prints hnul hi hpc hb
  | overruns shm read hpc hb =>
    obtain rfl := hi.object_zero hpc rfl
    obtain ⟨rest, -, hbyte⟩ := hi.byte hpc
    cases hb.symm.trans hbyte
  | acks shm hpc =>
    obtain rfl := hi.object_zero hpc rfl
    exact inv_acks hi hpc
  | leaves a pc hpc hr =>
    apply hi.setReader
    · intro q hq
      cases hpc.symm.trans hq
    · refine hi.phase.idle ?_ hr
      cases pc <;> first | rfl | cases hpc

theorem inv_next {msgToSend : List Byte} {a : Action N} (hlen : strlen msgToSend < messageMaxLen)
    (hi : Inv (cString msgToSend) h) (hn : h.next msgToSend a = some h') :
    Inv (cString msgToSend) h' := by
  cases a with
  | writer a => exact inv_writer hlen hi hn
  | reader i a => exact inv_reader (fun _ => cString_ne_zero) hi (reader_move hn)

theorem inv_reachable {msgToSend : List Byte} (hlen : strlen msgToSend < messageMaxLen)
    (hr : (handshake msgToSend N).Reachable h) : Inv (cString msgToSend) h := by
  apply System.Reachable.induct _ _ hr
  · rintro _ rfl
    exact inv_start _
  · exact fun _ _ _ _ hi hn => inv_next hlen hi hn

def WriterPc.tearsDown : WriterPc → Bool
  | .destroyReaderDone _ | .destroyDataReady _ | .munmap _ | .shmUnlink | .exited true => true
  | _ => false

theorem Inv.acknowledged (hi : Inv text h) (ht : h.writer.tearsDown = true) :
    ∃ i, h.passed = [i] ∧ h.printed = [(i, text)] ∧ h.acked = [i] := by
  have ha : h.acked ≠ [] := by
    have hw := hi.writer
    cases hpc : h.writer <;> rw [hpc] at hw ht <;> try cases ht
    case destroyReaderDone | destroyDataReady | munmap => exact hw.2.2
    case shmUnlink => exact hw.2
    case exited success =>
      cases success with
      | true => exact hw.2
      | false => cases ht
  cases hi.phase with
  | waiting _ _ hnil | reading _ _ _ _ _ _ _ hnil | printed _ _ _ _ hnil => exact absurd hnil ha
  | acked i hp ht ha => exact ⟨i, hp, ht, ha⟩

theorem Inv.length_passed (hi : Inv text h) : h.passed.length ≤ 1 :=
  Nat.le_trans hi.dataReady.waits_le hi.writer.sent.1

theorem Inv.printed_text (hi : Inv text h) {i : Fin N} {t : List Byte} (hm : (i, t) ∈ h.printed) :
    i ∈ h.passed ∧ t = text := by
  cases hi.phase with
  | waiting _ ht | reading _ _ _ _ _ _ ht =>
    rw [ht] at hm
    cases hm
  | printed k _ hp ht | acked k hp ht =>
    rw [ht] at hm
    cases List.mem_singleton.mp hm
    exact ⟨hp ▸ List.mem_singleton_self _, rfl⟩

def unread (text : List Byte) (i : Fin N) (h : Handshake N) : ℕ :=
  match h.readers i with
  | .printf _ read => text.length + 1 - read.length
  | _ => 0

theorem Inv.reading (hi : Inv text h) {i : Fin N} (hp : i ∈ h.passed)
    (hnd : (i, text) ∉ h.printed) : ∃ read, h.readers i = .printf 0 read := by
  cases hi.phase with
  | waiting hnil => simp [hnil] at hp
  | reading k read rest hpc _ hk =>
    rw [hk, List.mem_singleton] at hp
    exact ⟨read, hp ▸ hpc⟩
  | printed k _ hk ht | acked k hk ht =>
    rw [hk, List.mem_singleton] at hp
    simp [ht, hp] at hnd

theorem unread_printf (hi : Inv text h) {i : Fin N} {read : List Byte}
    (hpc : h.readers i = .printf 0 read) (hp : i ∈ h.passed) :
    i ∈ (h.printf i 0 read).passed ∧ unread text i (h.printf i 0 read) < unread text i h := by
  obtain ⟨rest, htext, hbyte⟩ := hi.byte hpc
  have hlen : read.length + rest.length = text.length := by rw [← htext, List.length_append]
  simp only [Handshake.printf, hbyte]
  split_ifs with hb
  · refine ⟨hp, ?_⟩
    simp only [unread, Handshake.setReader, Function.update_self, hpc]
    omega
  · refine ⟨hp, ?_⟩
    simp only [unread, Handshake.setReader, Function.update_self, hpc, List.length_append,
      List.length_singleton]
    cases rest with
    | nil => exact absurd rfl hb
    | cons c rest =>
      simp only [List.length_cons] at hlen
      omega

theorem printed_inevitable {msgToSend : List Byte} (hlen : strlen msgToSend < messageMaxLen)
    (hi : Inv (cString msgToSend) h) {i : Fin N} (hp : i ∈ h.passed) :
    (handshake msgToSend N).Inevitable (fun _ a => a = .reader i .run)
      (fun t => (i, cString msgToSend) ∈ t.printed) h := by
  have hnext {s : Handshake N} {read : List Byte} (hpc : s.readers i = .printf 0 read) :
      (handshake msgToSend N).next s (.reader i .run) = some (s.printf i 0 read) := by
    simp only [handshake, Handshake.next, Handshake.readerMain, hpc]
  apply System.Inevitable.of_measure (unread (cString msgToSend) i)
    (I := fun s => Inv (cString msgToSend) s ∧ i ∈ s.passed) _ _ ⟨hi, hp⟩
  · rintro s ⟨hi, hp⟩ hnd
    obtain ⟨read, hpc⟩ := hi.reading hp hnd
    exact ⟨_, _, rfl, hnext hpc⟩
  · rintro s t ⟨hi, hp⟩ hnd ⟨a, rfl, hn⟩
    obtain ⟨read, hpc⟩ := hi.reading hp hnd
    have ht := Option.some.inj (hn.symm.trans (hnext hpc))
    obtain ⟨hpt, hlt⟩ := unread_printf hi hpc hp
    exact ⟨⟨inv_next (a := .reader i .run) hlen hi hn, ht ▸ hpt⟩, ht ▸ hlt⟩

/-- At most one reader gets past its wait; it prints the message, by its own steps alone, and
nothing else; and the writer's teardown comes after its acknowledgement. -/
theorem message_delivered (msgToSend : List Byte) (hlen : strlen msgToSend < messageMaxLen)
    {N : ℕ} {h : Handshake N} (hr : (handshake msgToSend N).Reachable h) :
    h.passed.length ≤ 1 ∧
      (∀ i text, (i, text) ∈ h.printed → i ∈ h.passed ∧ text = cString msgToSend) ∧
      (∀ i ∈ h.passed, (handshake msgToSend N).Inevitable (fun _ a => a = .reader i .run)
        (fun t => (i, cString msgToSend) ∈ t.printed) h) ∧
      (h.writer.tearsDown = true → ∃ i, h.passed = [i] ∧
        h.printed = [(i, cString msgToSend)] ∧ h.acked = [i]) := by
  have hi := inv_reachable hlen hr
  exact ⟨hi.length_passed, fun _ _ => hi.printed_text, fun _ => printed_inevitable hlen hi,
    hi.acknowledged⟩

def runs (n : ℕ) (a : Attempt → Action N) : List (Action N) := List.replicate n (a .run)

theorem message_delivered_earlyReader : ∃ h : Handshake 2, h.writer = .munmap 0 ∧
    h.readers 1 = .wait 0 ∧ h.passed = [0] ∧ h.printed = [(0, message)] ∧ h.acked = [0] := by
  have hrun : ((handshake message 2).run (Handshake.start 2)
      (runs 2 .writer ++ runs 3 (.reader 1) ++ runs 19 .writer ++ runs 17 (.reader 0) ++
        runs 3 .writer)).map (fun h => (h.writer, h.readers 1, h.passed)) =
      some (.munmap 0, .wait 0, [0]) := by decide +kernel
  obtain ⟨h, hh, he⟩ := Option.map_eq_some_iff.mp hrun
  simp only [Prod.mk.injEq] at he
  obtain ⟨hw, hr, hp⟩ := he
  have hreach : (handshake message 2).Reachable h := .run _ (.init rfl) hh
  obtain ⟨-, -, -, ht⟩ := message_delivered message (by decide) hreach
  obtain ⟨i, hpi, htext, hack⟩ := ht (by rw [hw]; rfl)
  obtain rfl : (0 : Fin 2) = i := List.singleton_inj.mp (hp.symm.trans hpi)
  exact ⟨h, hw, hr, hp, htext, hack⟩

end LinuxSystemProgramming.SharedMemory
