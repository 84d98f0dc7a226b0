import LinuxSystemProgramming.SharedMemory.Moves

namespace LinuxSystemProgramming.SharedMemory

open CMemory NamedObjects Semaphores

variable {N : ℕ}

def Written (text : List Byte) (kernel : Store SharedRegion) : Prop :=
  text ++ [0] <+: (kernel.object 0).message

def Sent (text : List Byte) (kernel : Store SharedRegion) (posts : ℕ) : Prop :=
  posts ≤ 1 ∧ (0 < posts → Written text kernel)

def Asserted (text : List Byte) (kernel : Store SharedRegion) (posts : ℕ) (acked : List (Fin N)) :
    WriterPc → Prop
  | .strlen | .shmOpen => kernel.named = none ∧ kernel.fresh = 0 ∧ posts = 0
  | .ftruncate q | .mmap q | .close q | .initDataReady q | .initReaderDone q => q = 0 ∧ posts = 0
  | .snprintf q n => q = 0 ∧ posts = 0 ∧ (text ++ [0]).take n <+: (kernel.object 0).message
  | .postDataReady q => q = 0 ∧ posts = 0 ∧ Written text kernel
  | .waitReaderDone q => q = 0 ∧ posts = 1 ∧ Written text kernel
  | .destroyReaderDone q | .destroyDataReady q | .munmap q =>
    q = 0 ∧ Sent text kernel posts ∧ acked ≠ []
  | .shmUnlink | .exited true => Sent text kernel posts ∧ acked ≠ []
  | .release q _ => q = 0 ∧ Sent text kernel posts
  | .exited false | .fault => Sent text kernel posts

theorem Sent.of_none {text : List Byte} {kernel : Store SharedRegion} {posts : ℕ}
    (h : posts = 0) : Sent text kernel posts := by
  subst h
  exact ⟨Nat.zero_le 1, fun hlt => absurd hlt (Nat.lt_irrefl 0)⟩

theorem Sent.of_written {text : List Byte} {kernel : Store SharedRegion} {posts : ℕ}
    (h : posts = 1) (hw : Written text kernel) : Sent text kernel posts := ⟨h.le, fun _ => hw⟩

theorem Asserted.sent {text : List Byte} {kernel : Store SharedRegion} {posts : ℕ}
    {acked : List (Fin N)} {pc : WriterPc} (h : Asserted text kernel posts acked pc) :
    Sent text kernel posts := by
  cases pc with
  | strlen | shmOpen => exact .of_none h.2.2
  | ftruncate | mmap | close | initDataReady | initReaderDone => exact .of_none h.2
  | snprintf | postDataReady => exact .of_none h.2.1
  | waitReaderDone => exact .of_written h.2.1 h.2.2
  | destroyReaderDone | destroyDataReady | munmap => exact h.2.1
  | shmUnlink => exact h.1
  | release => exact h.2
  | exited success =>
    cases success with
    | true => exact h.1
    | false => exact h
  | fault => exact h

theorem Asserted.frame {text : List Byte} {kernel kernel' : Store SharedRegion} {posts : ℕ}
    {acked acked' : List (Fin N)} {pc : WriterPc} (h : Asserted text kernel posts acked pc)
    (hn : kernel'.named = kernel.named) (hf : kernel'.fresh = kernel.fresh)
    (hm : (kernel'.object 0).message = (kernel.object 0).message)
    (ha : acked ≠ [] → acked' ≠ []) : Asserted text kernel' posts acked' pc := by
  cases pc with
  | exited success => cases success <;> simp_all [Asserted, Sent, Written]
  | _ => simp_all [Asserted, Sent, Written]

inductive Phase (text : List Byte) (readers : Fin N → ReaderPc) (passed : List (Fin N))
    (printed : List (Fin N × List Byte)) (acked : List (Fin N)) : Prop
  | waiting (hp : passed = []) (ht : printed = []) (ha : acked = [])
      (hr : ∀ j, (readers j).past = false)
  | reading (i : Fin N) (read rest : List Byte) (hpc : readers i = .printf 0 read)
      (htext : read ++ rest = text) (hp : passed = [i]) (ht : printed = []) (ha : acked = [])
      (hr : ∀ j, j ≠ i → (readers j).past = false)
  | printed (i : Fin N) (hpc : ∀ shm read, readers i ≠ .printf shm read) (hp : passed = [i])
      (ht : printed = [(i, text)]) (ha : acked = []) (hr : ∀ j, j ≠ i → (readers j).past = false)
  | acked (i : Fin N) (hp : passed = [i]) (ht : printed = [(i, text)]) (ha : acked = [i])
      (hr : ∀ j, (readers j).past = false)

structure Inv (text : List Byte) (h : Handshake N) : Prop where
  writer : Asserted text h.kernel h.posts h.acked h.writer
  named : ∀ q, h.kernel.named = some q → q = 0
  handles : ∀ i q, (h.readers i).object? = some q → q = 0
  dataReady : (h.kernel.object 0).semDataReady.Balance h.posts h.passed.length
  readerDone : (h.kernel.object 0).semReaderDone.value ≤ h.acked.length
  phase : Phase text h.readers h.passed h.printed h.acked

theorem inv_start (text : List Byte) : Inv text (Handshake.start N) :=
  ⟨⟨rfl, rfl, rfl⟩, by rintro _ ⟨⟩, by rintro _ _ ⟨⟩, rfl, Nat.le_refl 0,
    .waiting rfl rfl rfl (fun _ => rfl)⟩

variable {text : List Byte} {h h' : Handshake N}

theorem Inv.goto (hi : Inv text h) {pc : WriterPc}
    (hw : Asserted text h.kernel h.posts h.acked pc) : Inv text (h.goto pc) :=
  ⟨hw, hi.named, hi.handles, hi.dataReady, hi.readerDone, hi.phase⟩

theorem Inv.modify (hi : Inv text h) {f : SharedRegion → SharedRegion} {pc : WriterPc}
    (hw : Asserted text (h.kernel.modify 0 f) h.posts h.acked pc)
    (hd : (f (h.kernel.object 0)).semDataReady.Balance h.posts h.passed.length)
    (hr : (f (h.kernel.object 0)).semReaderDone.value ≤ h.acked.length) :
    Inv text ((h.modify 0 f).goto pc) := by
  refine ⟨hw, hi.named, hi.handles, ?_, ?_, hi.phase⟩
  · simpa only [Handshake.goto, Handshake.modify, Store.modify_object_self] using hd
  · simpa only [Handshake.goto, Handshake.modify, Store.modify_object_self] using hr

theorem inv_post (hi : Inv text h) (hp : h.posts = 0) (hw : Written text h.kernel) :
    Inv text ({ h.modify 0 (fun r => { r with semDataReady := r.semDataReady.post }) with
      posts := h.posts + 1 }.goto (.waitReaderDone 0)) := by
  refine ⟨⟨rfl, congrArg (· + 1) hp, ?_⟩, hi.named, hi.handles, ?_, hi.readerDone, hi.phase⟩
  · simpa [Written, Handshake.modify, Handshake.goto] using hw
  · simpa only [Handshake.goto, Handshake.modify, Store.modify_object_self] using hi.dataReady.post

theorem inv_create (hi : Inv text h) (hw : Asserted text h.kernel h.posts h.acked .shmOpen) :
    Inv text ({ h with kernel := h.kernel.create .new }.goto (.ftruncate h.kernel.fresh)) := by
  obtain ⟨-, hf, hp⟩ := hw
  have hnew : (h.kernel.create .new).object 0 = .new := hf ▸ h.kernel.create_object_fresh .new
  refine ⟨⟨hf, hp⟩, ?_, hi.handles, ?_, ?_, hi.phase⟩
  · intro q hq
    exact (Option.some.inj hq).symm.trans hf
  · have hw := hi.dataReady.waits_le
    rw [Handshake.goto, hnew]
    change h.passed.length + 0 = h.posts
    omega
  · rw [Handshake.goto, hnew]
    exact Nat.zero_le _

theorem inv_release (hi : Inv text h) (r : Release) {pc : WriterPc}
    (hw : Asserted text (h.release 0 r).kernel h.posts h.acked pc) :
    Inv text ((h.release 0 r).goto pc) := by
  cases r with
  | close | munmap => exact hi.goto hw
  | destroyDataReady | destroyReaderDone => exact hi.modify hw hi.dataReady hi.readerDone
  | shmUnlink => exact ⟨hw, by rintro _ ⟨⟩, hi.handles, hi.dataReady, hi.readerDone, hi.phase⟩

theorem Sent.release (hs : Sent text h.kernel h.posts) (r : Release) :
    Sent text (h.release 0 r).kernel h.posts := by
  refine hs.imp_right (fun hw hp => ?_)
  have hm := hw hp
  cases r <;> simpa [Written, Handshake.release, Handshake.modify] using hm

theorem snprintfBytes_eq {msgToSend : List Byte} (hlen : strlen msgToSend < messageMaxLen) :
    Handshake.snprintfBytes msgToSend = cString msgToSend ++ [0] := by
  rw [Handshake.snprintfBytes, List.take_of_length_le]
  exact Nat.le_sub_one_of_lt hlen

theorem inv_snprintf {msgToSend : List Byte} {n : ℕ} (hlen : strlen msgToSend < messageMaxLen)
    (hi : Inv (cString msgToSend) h) (hp : h.posts = 0)
    (hw : (cString msgToSend ++ [0]).take n <+: (h.kernel.object 0).message) :
    Inv (cString msgToSend) (h.snprintf msgToSend 0 n) := by
  rw [Handshake.snprintf, snprintfBytes_eq hlen]
  split
  · have hn := List.getElem?_eq_none_iff.mp ‹_›
    rw [List.take_of_length_le hn] at hw
    exact hi.goto ⟨rfl, hp, hw⟩
  · split
    · exact hi.goto (.of_none hp)
    · refine hi.modify ⟨rfl, hp, ?_⟩ hi.dataReady hi.readerDone
      rw [Store.modify_object_self]
      exact store_next hw ‹_› ‹_›

theorem inv_writer {msgToSend : List Byte} {a : Attempt} (hlen : strlen msgToSend < messageMaxLen)
    (hi : Inv (cString msgToSend) h) (hm : h.writerMain msgToSend a = some h') :
    Inv (cString msgToSend) h' := by
  have hw := hi.writer
  have hnone : h.posts = 0 → h.passed.length + 0 = h.posts := by
    intro hp
    have hle := hi.dataReady.waits_le
    omega
  cases hpc : h.writer <;> rw [hpc] at hw <;> cases a <;>
    simp only [Handshake.writerMain, hpc, reduceCtorEq] at hm
  case strlen.run =>
    rw [if_neg (Nat.not_le_of_lt hlen)] at hm
    exact Option.some.inj hm ▸ hi.goto hw
  case shmOpen.run =>
    rw [hw.1] at hm
    exact Option.some.inj hm ▸ inv_create hi hw
  case ftruncate.run fd =>
    obtain ⟨rfl, hp⟩ := hw
    cases hm
    exact hi.modify ⟨rfl, hp⟩ hi.dataReady hi.readerDone
  case mmap.run fd => exact Option.some.inj hm ▸ hi.goto hw
  case close.run shm => exact Option.some.inj hm ▸ hi.goto hw
  case initDataReady.run shm =>
    obtain ⟨rfl, hp⟩ := hw
    cases hm
    exact hi.modify ⟨rfl, hp⟩ (hnone hp) hi.readerDone
  case initReaderDone.run shm =>
    obtain ⟨rfl, hp⟩ := hw
    cases hm
    refine hi.modify ⟨rfl, hp, ?_⟩ hi.dataReady (Nat.zero_le _)
    exact List.nil_prefix
  case snprintf.run shm n =>
    obtain ⟨rfl, hp, hpre⟩ := hw
    exact Option.some.inj hm ▸ inv_snprintf hlen hi hp hpre
  case postDataReady.run shm =>
    obtain ⟨rfl, hp, hwr⟩ := hw
    exact Option.some.inj hm ▸ inv_post hi hp hwr
  case waitReaderDone.run shm =>
    obtain ⟨rfl, hp, hwr⟩ := hw
    obtain ⟨sem, hs, rfl⟩ := Option.map_eq_some_iff.mp hm
    obtain ⟨hv, rfl⟩ := Semaphore.wait_eq_some.mp hs
    have hle := hi.readerDone
    refine hi.modify ⟨rfl, .of_written hp ?_, ?_⟩ hi.dataReady (Nat.le_trans (Nat.sub_le _ _) hle)
    · simpa [Written] using hwr
    · exact List.ne_nil_of_length_pos (Nat.lt_of_lt_of_le hv hle)
  case destroyReaderDone.run shm =>
    obtain ⟨rfl, hs, ha⟩ := hw
    exact Option.some.inj hm ▸ inv_release hi .destroyReaderDone ⟨rfl, hs.release _, ha⟩
  case destroyReaderDone.fails shm => exact Option.some.inj hm ▸ hi.goto hw
  case destroyDataReady.run shm =>
    obtain ⟨rfl, hs, ha⟩ := hw
    exact Option.some.inj hm ▸ inv_release hi .destroyDataReady ⟨rfl, hs.release _, ha⟩
  case destroyDataReady.fails shm => exact Option.some.inj hm ▸ hi.goto hw
  case munmap.run shm => exact Option.some.inj hm ▸ hi.goto hw.2
  case shmUnlink.run =>
    exact Option.some.inj hm ▸ inv_release hi .shmUnlink ⟨hw.1.release _, hw.2⟩
  case release.run shm rest =>
    obtain ⟨rfl, hs⟩ := hw
    cases rest with
    | nil => exact Option.some.inj hm ▸ hi.goto hs
    | cons r rest => exact Option.some.inj hm ▸ inv_release hi r ⟨rfl, hs.release r⟩
  case release.fails shm rest =>
    cases rest with
    | nil => cases hm
    | cons r rest => exact Option.some.inj hm ▸ hi.goto hw
  case shmOpen.fails => exact Option.some.inj hm ▸ hi.goto (.of_none hw.2.2)
  case munmap.fails shm => exact Option.some.inj hm ▸ hi.goto ⟨hw.1, hw.2.1⟩
  case shmUnlink.fails => exact Option.some.inj hm ▸ hi.goto hw.1
  all_goals exact Option.some.inj hm ▸ hi.goto ⟨hw.1, hi.writer.sent⟩

end LinuxSystemProgramming.SharedMemory
