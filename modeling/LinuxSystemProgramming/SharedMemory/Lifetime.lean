import LinuxSystemProgramming.SharedMemory.Delivery

namespace LinuxSystemProgramming.SharedMemory

open CMemory NamedObjects Semaphores Transition

variable {N : ℕ}

def SharedRegion.Ready (r : SharedRegion) : Prop :=
  r.sized = true ∧ r.semDataReady.Live ∧ r.semReaderDone.Live

instance (r : SharedRegion) : Decidable r.Ready := inferInstanceAs (Decidable (_ ∧ _))

def Alive (h : Handshake N) : Prop :=
  ∀ i shm, h.readers i = .wait shm ∨ h.readers i = .post shm → (h.kernel.object shm).Ready

def ReaderPc.arriving : ReaderPc → Bool
  | .mmap _ | .close _ | .wait _ => true
  | _ => false

def ReaderPc.arrived : ReaderPc → Bool
  | .wait _ | .printf _ _ | .post _ => true
  | _ => false

def WriterPc.initialised : WriterPc → Bool
  | .snprintf _ _ | .postDataReady _ | .waitReaderDone _ | .fault => true
  | .destroyReaderDone _ | .destroyDataReady _ | .munmap _ | .shmUnlink | .exited true => true
  | _ => false

def WriterPc.closing : WriterPc → Bool
  | .destroyDataReady _ | .munmap _ | .shmUnlink | .exited true => true
  | _ => false

theorem ReaderPc.idle_of_object {pc : ReaderPc} (h : pc.object? = none) :
    pc.arrived = false ∧ pc.arriving = false := by
  cases pc <;> first | exact ⟨rfl, rfl⟩ | exact nomatch h

def NoFailure (_ : Handshake N) : Action N → Prop
  | .writer .run | .reader _ .run => True
  | .writer .fails | .reader _ .fails => False

/-- No call fails by itself, no reader's `close`, the last call before its `sem_wait`, comes before
the second `sem_init`, and the first `sem_destroy` finds no reader between its `shm_open` and the
return of its `sem_wait`, and none opens the object behind it. -/
def Orderly (h : Handshake N) : Action N → Prop
  | .writer .run =>
    match h.writer with
    | .destroyReaderDone _ => ∀ i, (h.readers i).arriving = false
    | _ => True
  | .reader i .run =>
    match h.readers i with
    | .close _ => h.writer.initialised = true
    | .shmOpen => h.kernel.named = none ∨ h.writer.closing = false
    | _ => True
  | .writer .fails | .reader _ .fails => False

instance (h : Handshake N) (a : Action N) : Decidable (NoFailure h a) := by
  unfold NoFailure
  split <;> infer_instance

instance (h : Handshake N) (a : Action N) : Decidable (Orderly h a) := by
  unfold Orderly
  repeat' split
  all_goals infer_instance

def Serves (r : SharedRegion) : WriterPc → Prop
  | .mmap _ | .close _ | .initDataReady _ => r.sized = true
  | .initReaderDone _ => r.sized = true ∧ r.semDataReady.Live
  | .snprintf _ _ | .postDataReady _ | .waitReaderDone _ | .destroyReaderDone _ | .fault => r.Ready
  | _ => True

structure Guarded (h : Handshake N) : Prop where
  writer : Serves (h.kernel.object 0) h.writer
  arrived : ∀ i, (h.readers i).arrived = true → h.writer.initialised = true
  closing : h.writer.closing = true → ∀ i, (h.readers i).arriving = false

variable {text : List Byte} {h h' : Handshake N}

theorem guarded_start : Guarded (Handshake.start N) :=
  ⟨trivial, by rintro _ ⟨⟩, by rintro ⟨⟩⟩

theorem Guarded.advance (hg : Guarded h) (hr : h'.readers = h.readers)
    (hs : Serves (h'.kernel.object 0) h'.writer)
    (hinit : h.writer.initialised = true → h'.writer.initialised = true)
    (hclose : h'.writer.closing = true →
      h.writer.closing = true ∨ ∀ i, (h.readers i).arriving = false) : Guarded h' := by
  refine ⟨hs, ?_, ?_⟩
  · intro i hi
    rw [hr] at hi
    exact hinit (hg.arrived i hi)
  · intro hc
    rw [hr]
    exact (hclose hc).elim hg.closing id

theorem guarded_snprintf {msgToSend : List Byte} {n : ℕ} (hg : Guarded h)
    (hpc : h.writer = .snprintf 0 n) : Guarded (h.snprintf msgToSend 0 n) := by
  have hs : (h.kernel.object 0).Ready := by
    have hw := hg.writer
    rwa [hpc] at hw
  unfold Handshake.snprintf
  split
  · exact hg.advance rfl hs (fun _ => rfl) (by rintro ⟨⟩)
  · split
    · exact hg.advance rfl hs (fun _ => rfl) (by rintro ⟨⟩)
    · refine hg.advance rfl ?_ (fun _ => rfl) (by rintro ⟨⟩)
      simpa [Handshake.goto, Handshake.modify, Serves, SharedRegion.Ready] using hs

theorem Guarded.prepares (hg : Guarded h) {pc : WriterPc} (hpc : h.writer = pc)
    (hb : pc.initialised = false) (hr : h'.readers = h.readers)
    (hs : Serves (h'.kernel.object 0) h'.writer) (hc : h'.writer.closing = false) : Guarded h' := by
  apply hg.advance hr hs
  · intro hinit
    rw [hpc, hb] at hinit
    cases hinit
  · intro hclose
    rw [hc] at hclose
    cases hclose

theorem guarded_writer {msgToSend : List Byte} (hi : Inv text h) (hg : Guarded h)
    (hc : Orderly h (.writer .run)) (hm : h.writerMain msgToSend .run = some h') : Guarded h' := by
  have hw := hi.writer
  have hs := hg.writer
  cases hpc : h.writer <;> rw [hpc] at hw hs <;>
    simp only [Handshake.writerMain, hpc, reduceCtorEq] at hm
  case strlen =>
    cases hm
    split_ifs <;> exact hg.prepares hpc rfl rfl trivial rfl
  case shmOpen =>
    rw [hw.1] at hm
    cases hm
    exact hg.prepares hpc rfl rfl trivial rfl
  case ftruncate fd =>
    obtain ⟨rfl, -⟩ := hw
    cases hm
    refine hg.prepares hpc rfl rfl ?_ rfl
    simp [Handshake.goto, Handshake.modify, Serves]
  case mmap | close =>
    cases hm
    exact hg.prepares hpc rfl rfl hs rfl
  case initDataReady shm =>
    obtain ⟨rfl, -⟩ := hw
    cases hm
    refine hg.prepares hpc rfl rfl ?_ rfl
    simpa [Handshake.goto, Handshake.modify, Serves, Semaphore.live_init] using hs
  case initReaderDone shm =>
    obtain ⟨rfl, -⟩ := hw
    cases hm
    refine hg.advance rfl ?_ (fun _ => rfl) (by rintro ⟨⟩)
    simpa [Handshake.goto, Handshake.modify, Serves, SharedRegion.Ready, Semaphore.live_init] using hs
  case snprintf shm n =>
    obtain ⟨rfl, -⟩ := hw
    cases hm
    exact guarded_snprintf hg hpc
  case postDataReady shm =>
    obtain ⟨rfl, -⟩ := hw
    cases hm
    refine hg.advance rfl ?_ (fun _ => rfl) (by rintro ⟨⟩)
    simp only [Handshake.goto, Handshake.modify, Serves, Store.modify_object_self]
    exact ⟨hs.1, hs.2.1.post, hs.2.2⟩
  case waitReaderDone shm =>
    obtain ⟨rfl, -⟩ := hw
    obtain ⟨sem, hsem, rfl⟩ := Option.map_eq_some_iff.mp hm
    refine hg.advance rfl ?_ (fun _ => rfl) (by rintro ⟨⟩)
    simp only [Handshake.goto, Handshake.modify, Serves, Store.modify_object_self]
    exact ⟨hs.1, hs.2.1, hs.2.2.wait hsem⟩
  case destroyReaderDone shm =>
    cases hm
    exact hg.advance rfl trivial (fun _ => rfl) (fun _ => .inr (by simpa only [Orderly, hpc] using hc))
  case destroyDataReady | munmap | shmUnlink =>
    cases hm
    exact hg.advance rfl trivial (fun _ => rfl) (fun _ => .inl (by rw [hpc, WriterPc.closing]))
  case release shm rest =>
    cases rest with
    | nil =>
      cases hm
      exact hg.prepares hpc rfl rfl trivial rfl
    | cons r rest =>
      cases hm
      refine hg.prepares hpc rfl ?_ trivial rfl
      cases r <;> rfl

theorem Serves.frame {r r' : SharedRegion} {pc : WriterPc} (hs : Serves r pc)
    (hsized : r'.sized = r.sized) (hd : r.semDataReady.Live → r'.semDataReady.Live)
    (hr : r.semReaderDone.Live → r'.semReaderDone.Live) : Serves r' pc := by
  have hready : r.Ready → r'.Ready := fun ⟨h₁, h₂, h₃⟩ => ⟨hsized.trans h₁, hd h₂, hr h₃⟩
  cases pc with
  | mmap | close | initDataReady => exact hsized.trans hs
  | initReaderDone => exact ⟨hsized.trans hs.1, hd hs.2⟩
  | snprintf | postDataReady | waitReaderDone | destroyReaderDone | fault => exact hready hs
  | _ => trivial

theorem Guarded.setReader (hg : Guarded h) {i : Fin N} {pc : ReaderPc}
    (ha : pc.arrived = true → h.writer.initialised = true)
    (hc : pc.arriving = true → h.writer.closing = false) : Guarded (h.setReader i pc) := by
  refine ⟨hg.writer, ?_, ?_⟩
  · intro j hj
    by_cases hji : j = i
    · subst hji
      simp only [Handshake.setReader, Function.update_self] at hj
      exact ha hj
    · simp only [Handshake.setReader, Function.update_of_ne hji] at hj
      exact hg.arrived j hj
  · intro hclose j
    by_cases hji : j = i
    · subst hji
      simp only [Handshake.setReader, Function.update_self]
      by_contra harr
      have hopen := hc (Bool.of_not_eq_false harr)
      cases hopen.symm.trans hclose
    · simp only [Handshake.setReader, Function.update_of_ne hji]
      exact hg.closing hclose j

theorem Guarded.initialised_of_arrived (hg : Guarded h) {i : Fin N} {pc : ReaderPc}
    (hpc : h.readers i = pc) (ha : pc.arrived = true) : h.writer.initialised = true := by
  apply hg.arrived i
  rw [hpc, ha]

theorem Guarded.open_of_arriving (hg : Guarded h) {i : Fin N} {pc : ReaderPc}
    (hpc : h.readers i = pc) (ha : pc.arriving = true) : h.writer.closing = false := by
  by_contra hc
  have hnot := hg.closing (Bool.of_not_eq_false hc) i
  rw [hpc, ha] at hnot
  cases hnot

theorem guarded_reader (hi : Inv text h) (hg : Guarded h) {i : Fin N}
    (hc : Orderly h (.reader i .run)) (hm : ReaderMove h i .run h') : Guarded h' := by
  cases hm with
  | opens fd hpc hn =>
    apply hg.setReader
    · rintro ⟨⟩
    · simpa only [Orderly, hpc, hn, reduceCtorEq, false_or] using fun _ => hc
  | maps fd hpc =>
    apply hg.setReader
    · rintro ⟨⟩
    · exact fun _ => hg.open_of_arriving hpc rfl
  | closes shm hpc =>
    apply hg.setReader
    · simpa only [Orderly, hpc] using fun _ => hc
    · exact fun _ => hg.open_of_arriving hpc rfl
  | passes shm sem hpc hw =>
    obtain rfl := hi.object_zero hpc rfl
    have hs : Guarded { h.modify 0 (fun r => { r with semDataReady := sem }) with
        passed := h.passed ++ [i] } := by
      refine ⟨hg.writer.frame ?_ ?_ ?_, hg.arrived, hg.closing⟩
      all_goals simp only [Handshake.modify, Store.modify_object_self]
      · exact fun hl => hl.wait hw
      · exact id
    apply hs.setReader
    · exact fun _ => hg.initialised_of_arrived hpc rfl
    · rintro ⟨⟩
  | reads shm read b hpc hb hne =>
    apply hg.setReader
    · exact fun _ => hg.initialised_of_arrived hpc rfl
    · rintro ⟨⟩
  | prints shm read hpc hb =>
    have hs : Guarded { h with printed := h.printed ++ [(i, read)] } :=
      ⟨hg.writer, hg.arrived, hg.closing⟩
    apply hs.setReader
    · exact fun _ => hg.initialised_of_arrived hpc rfl
    · rintro ⟨⟩
  | overruns shm read hpc hb =>
    apply hg.setReader
    · rintro ⟨⟩
    · rintro ⟨⟩
  | acks shm hpc =>
    obtain rfl := hi.object_zero hpc rfl
    have hs : Guarded { h.modify 0 (fun r => { r with semReaderDone := r.semReaderDone.post }) with
        acked := h.acked ++ [i] } := by
      refine ⟨hg.writer.frame ?_ ?_ ?_, hg.arrived, hg.closing⟩
      all_goals simp only [Handshake.modify, Store.modify_object_self]
      · exact id
      · exact fun hl => hl.post
    apply hs.setReader
    · rintro ⟨⟩
    · rintro ⟨⟩
  | leaves _ pc hpc hr =>
    obtain ⟨ha, hr⟩ := ReaderPc.idle_of_object hpc
    apply hg.setReader
    · simp [ha]
    · simp [hr]

theorem Serves.ready {r : SharedRegion} {pc : WriterPc} (hs : Serves r pc)
    (hinit : pc.initialised = true) (hopen : pc.closing = false) : r.Ready := by
  cases pc with
  | snprintf | postDataReady | waitReaderDone | destroyReaderDone | fault => exact hs
  | destroyDataReady | munmap | shmUnlink => cases hopen
  | exited success =>
    cases success with
    | true => cases hopen
    | false => cases hinit
  | _ => cases hinit

theorem WriterPc.tearsDown_of_closing {pc : WriterPc} (h : pc.closing = true) :
    pc.tearsDown = true := by
  cases pc with
  | destroyDataReady | munmap | shmUnlink => rfl
  | exited success =>
    cases success with
    | true => rfl
    | false => cases h
  | _ => cases h

theorem Guarded.alive (hi : Inv text h) (hg : Guarded h) : Alive h := by
  rintro i shm (hpc | hpc)
  · obtain rfl := hi.object_zero hpc rfl
    apply hg.writer.ready
    · exact hg.initialised_of_arrived hpc rfl
    · exact hg.open_of_arriving hpc rfl
  · obtain rfl := hi.object_zero hpc rfl
    apply hg.writer.ready
    · exact hg.initialised_of_arrived hpc rfl
    · obtain ⟨-, -, hack, -⟩ := hi.phase.at_post hpc
      by_contra hclose
      have ht := WriterPc.tearsDown_of_closing (Bool.of_not_eq_false hclose)
      obtain ⟨k, -, -, hk⟩ := hi.acknowledged ht
      cases hk.symm.trans hack

structure Refused (h : Handshake N) : Prop where
  writer : h.writer = .strlen ∨ h.writer = .exited false
  named : h.kernel.named = none
  readers : ∀ i, (h.readers i).object? = none

theorem refused_writer {msgToSend : List Byte} {a : Attempt}
    (hlen : messageMaxLen ≤ strlen msgToSend) (hr : Refused h)
    (hm : h.writerMain msgToSend a = some h') : Refused h' := by
  rcases hr.writer with hw | hw <;> cases a <;>
    simp only [Handshake.writerMain, hw, reduceCtorEq] at hm
  rw [if_pos hlen] at hm
  cases hm
  exact ⟨.inr rfl, hr.named, hr.readers⟩

theorem refused_reader {i : Fin N} {a : Attempt} (hr : Refused h) (hm : ReaderMove h i a h') :
    Refused h' := by
  have hset {pc : ReaderPc} (hpc : pc.object? = none) : Refused (h.setReader i pc) := by
    refine ⟨hr.writer, hr.named, fun j => ?_⟩
    by_cases hji : j = i
    · simp only [Handshake.setReader, hji, Function.update_self, hpc]
    · simp only [Handshake.setReader, Function.update_of_ne hji, hr.readers j]
  have hobj := hr.readers i
  cases hm with
  | opens fd hpc hn => cases hr.named.symm.trans hn
  | overruns => exact hset rfl
  | leaves _ pc hpc => exact hset hpc
  | maps _ hpc | closes _ hpc | passes _ _ hpc | reads _ _ _ hpc | prints _ _ hpc | acks _ hpc =>
    rw [hpc] at hobj
    cases hobj

theorem Refused.alive (hr : Refused h) : Alive h := by
  rintro i shm (hpc | hpc)
  all_goals
    have hobj := hr.readers i
    rw [hpc] at hobj
    cases hobj

theorem guarded_reachable {msgToSend : List Byte} (hlen : strlen msgToSend < messageMaxLen)
    (hr : (handshake msgToSend N).ReachableWhile Orderly h) : Guarded h := by
  apply System.ReachableWhile.induct _ _ hr
  · rintro _ rfl
    exact guarded_start
  · intro s a t hr hg hc hn
    have hi := inv_reachable hlen hr.reachable
    cases a with
    | writer a =>
      cases a with
      | run => exact guarded_writer hi hg hc hn
      | fails => exact hc.elim
    | reader i a =>
      cases a with
      | run => exact guarded_reader hi hg hc (reader_move hn)
      | fails => exact hc.elim

theorem refused_reachable {msgToSend : List Byte} (hlen : messageMaxLen ≤ strlen msgToSend)
    (hr : (handshake msgToSend N).Reachable h) : Refused h := by
  apply System.Reachable.induct _ _ hr
  · rintro _ rfl
    exact ⟨.inl rfl, rfl, fun _ => rfl⟩
  · intro s a t _ hs hn
    cases a with
    | writer a => exact refused_writer hlen hs hn
    | reader i a => exact refused_reader hs (reader_move hn)

/-- In an orderly run no reader uses a semaphore that is not there. -/
theorem handshake_alive (msgToSend : List Byte) {N : ℕ} {h : Handshake N}
    (hr : (handshake msgToSend N).ReachableWhile Orderly h) : Alive h := by
  rcases Nat.lt_or_ge (strlen msgToSend) messageMaxLen with hlen | hlen
  · exact (guarded_reachable hlen hr).alive (inv_reachable hlen hr.reachable)
  · exact (refused_reachable hlen hr.reachable).alive

theorem handshake_alive_oneReader : ∃ h : Handshake 1, h.writer = .waitReaderDone 0 ∧
    h.readers 0 = .post 0 ∧ (h.kernel.object 0).Ready := by
  have hrun : ((handshake message 1).runWhile (fun h a => decide (Orderly h a)) (Handshake.start 1)
      (runs 2 .writer ++ runs 2 (.reader 0) ++ runs 19 .writer ++ runs 14 (.reader 0))).map
        (fun h => (h.writer, h.readers 0)) = some (.waitReaderDone 0, .post 0) := by decide +kernel
  obtain ⟨h, hh, he⟩ := Option.map_eq_some_iff.mp hrun
  obtain ⟨hw, hp⟩ := Prod.mk.inj he
  have hr : (handshake message 1).ReachableWhile Orderly h :=
    .run (fun _ _ => of_decide_eq_true) _ (.init rfl) hh
  exact ⟨h, hw, hp, handshake_alive message hr 0 0 (.inr hp)⟩

/-- A reader that opens the object before the writer has sized it comes to its `sem_wait` too
early, and one that waits when the first reader has posted `sem_reader_done` is still in its
`sem_wait` when the writer destroys the semaphores. -/
theorem handshake_not_alive :
    (∃ h : Handshake 1, (handshake message 1).ReachableWhile NoFailure h ∧
      h.readers 0 = .wait 0 ∧ (h.kernel.object 0).sized = false ∧ ¬ Alive h) ∧
    ∃ h : Handshake 2, (handshake message 2).ReachableWhile NoFailure h ∧
      h.writer = .munmap 0 ∧ h.readers 1 = .wait 0 ∧ ¬ Alive h := by
  constructor
  · have hrun : ((handshake message 1).runWhile (fun h a => decide (NoFailure h a))
        (Handshake.start 1) (runs 2 .writer ++ runs 3 (.reader 0))).map
          (fun h => (h.readers 0, (h.kernel.object 0).sized)) = some (.wait 0, false) := by
      decide +kernel
    obtain ⟨h, hh, he⟩ := Option.map_eq_some_iff.mp hrun
    obtain ⟨hw, hs⟩ := Prod.mk.inj he
    refine ⟨h, .run (fun _ _ => of_decide_eq_true) _ (.init rfl) hh, hw, hs, ?_⟩
    intro ha
    cases hs.symm.trans (ha 0 0 (.inl hw)).1
  · have hrun : ((handshake message 2).runWhile (fun h a => decide (NoFailure h a))
        (Handshake.start 2) (runs 21 .writer ++ runs 3 (.reader 1) ++ runs 17 (.reader 0) ++
          runs 3 .writer)).map
          (fun h => (h.writer, h.readers 1, (h.kernel.object 0).semDataReady.destroyed)) =
        some (.munmap 0, .wait 0, true) := by decide +kernel
    obtain ⟨h, hh, he⟩ := Option.map_eq_some_iff.mp hrun
    simp only [Prod.mk.injEq] at he
    obtain ⟨hw, hr, hd⟩ := he
    refine ⟨h, .run (fun _ _ => of_decide_eq_true) _ (.init rfl) hh, hw, hr, ?_⟩
    intro ha
    cases hd.symm.trans (ha 1 0 (.inl hr)).2.1.2

end LinuxSystemProgramming.SharedMemory
