import LinuxSystemProgramming.SharedMemory.Programs

namespace LinuxSystemProgramming.SharedMemory

open CMemory NamedObjects Semaphores

variable {N : ℕ}

def ReaderPc.object? : ReaderPc → Option ℕ
  | .mmap q | .close q | .wait q | .printf q _ | .post q | .munmap q => some q
  | _ => none

def ReaderPc.past : ReaderPc → Bool
  | .printf _ _ | .post _ => true
  | _ => false

inductive ReaderMove (h : Handshake N) (i : Fin N) : Attempt → Handshake N → Prop
  | opens (fd : ℕ) (hpc : h.readers i = .shmOpen) (hn : h.kernel.named = some fd) :
      ReaderMove h i .run (h.setReader i (.mmap fd))
  | maps (fd : ℕ) (hpc : h.readers i = .mmap fd) : ReaderMove h i .run (h.setReader i (.close fd))
  | closes (shm : ℕ) (hpc : h.readers i = .close shm) :
      ReaderMove h i .run (h.setReader i (.wait shm))
  | passes (shm : ℕ) (sem : Semaphore) (hpc : h.readers i = .wait shm)
      (hw : (h.kernel.object shm).semDataReady.wait = some sem) :
      ReaderMove h i .run ({ h.modify shm (fun r => { r with semDataReady := sem }) with
        passed := h.passed ++ [i] }.setReader i (.printf shm []))
  | reads (shm : ℕ) (read : List Byte) (b : Byte) (hpc : h.readers i = .printf shm read)
      (hb : (h.kernel.object shm).message[read.length]? = some b) (hne : b ≠ 0) :
      ReaderMove h i .run (h.setReader i (.printf shm (read ++ [b])))
  | prints (shm : ℕ) (read : List Byte) (hpc : h.readers i = .printf shm read)
      (hb : (h.kernel.object shm).message[read.length]? = some 0) :
      ReaderMove h i .run ({ h with printed := h.printed ++ [(i, read)] }.setReader i (.post shm))
  | overruns (shm : ℕ) (read : List Byte) (hpc : h.readers i = .printf shm read)
      (hb : (h.kernel.object shm).message[read.length]? = none) :
      ReaderMove h i .run (h.setReader i .fault)
  | acks (shm : ℕ) (hpc : h.readers i = .post shm) :
      ReaderMove h i .run ({ h.modify shm (fun r =>
        { r with semReaderDone := r.semReaderDone.post }) with
        acked := h.acked ++ [i] }.setReader i (.munmap shm))
  | leaves (a : Attempt) (pc : ReaderPc) (hpc : pc.object? = none)
      (hr : ∀ shm read, h.readers i ≠ .printf shm read) : ReaderMove h i a (h.setReader i pc)

theorem printf_move {h : Handshake N} {i : Fin N} {shm : ℕ} {read : List Byte}
    (hpc : h.readers i = .printf shm read) : ReaderMove h i .run (h.printf i shm read) := by
  unfold Handshake.printf
  split
  · exact .overruns shm read hpc ‹_›
  · split_ifs with hb
    · subst hb
      exact .prints shm read hpc ‹_›
    · exact .reads shm read _ hpc ‹_› hb

theorem reader_move {h h' : Handshake N} {i : Fin N} {a : Attempt}
    (hm : h.readerMain i a = some h') : ReaderMove h i a h' := by
  cases hpc : h.readers i <;> cases a <;>
    simp only [Handshake.readerMain, hpc, reduceCtorEq] at hm
  case shmOpen.run =>
    split at hm
    · exact Option.some.inj hm ▸ .opens _ hpc ‹_›
    · exact Option.some.inj hm ▸ .leaves _ _ rfl (by simp [hpc])
  case mmap.run fd => exact Option.some.inj hm ▸ .maps fd hpc
  case close.run shm => exact Option.some.inj hm ▸ .closes shm hpc
  case wait.run shm =>
    split_ifs at hm
    · obtain ⟨sem, hw, rfl⟩ := Option.map_eq_some_iff.mp hm
      exact .passes shm sem hpc hw
    · exact Option.some.inj hm ▸ .leaves _ _ rfl (by simp [hpc])
  case printf.run shm read => exact Option.some.inj hm ▸ printf_move hpc
  case post.run shm => exact Option.some.inj hm ▸ .acks shm hpc
  all_goals exact Option.some.inj hm ▸ .leaves _ _ rfl (by simp [hpc])

end LinuxSystemProgramming.SharedMemory
