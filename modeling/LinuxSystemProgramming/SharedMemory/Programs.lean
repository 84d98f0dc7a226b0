import LinuxSystemProgramming.Lib.CMemory
import LinuxSystemProgramming.Lib.NamedObjects
import LinuxSystemProgramming.Lib.Semaphore
import LinuxSystemProgramming.Lib.Transition

/-!
The programs of 12_2_2: one run of the writer and `N` readers on the shared memory object `/shm1`,
which does not exist at the start. Every process may be started, and may stop, at any time. `fails`
is a call that gives an error; calls whose failure is a matter of the order of the steps
(`shm_open` of a name that exists, or does not) fail by themselves.
-/

namespace LinuxSystemProgramming.SharedMemory

open CMemory NamedObjects Semaphores Transition

def message : List Byte := [72, 101, 108, 108, 111, 32, 87, 111, 114, 108, 100]

def messageMaxLen : ℕ := 256

def svalInitialDataReady : ℕ := 0

def svalInitialReaderDone : ℕ := 0

structure SharedRegion where
  sized : Bool
  semDataReady : Semaphore
  semReaderDone : Semaphore
  message : List Byte
  deriving DecidableEq

-- A new object has no bytes; those that `ftruncate` gives it are zeros.
def SharedRegion.new : SharedRegion := ⟨false, .zero, .zero, List.replicate messageMaxLen 0⟩

inductive Release
  | close
  | destroyDataReady
  | destroyReaderDone
  | munmap
  | shmUnlink
  deriving DecidableEq

/-- `snprintf` is at its byte `n`; `release` is an error path with the calls it has left. -/
inductive WriterPc
  | strlen
  | shmOpen
  | ftruncate (fd : ℕ)
  | mmap (fd : ℕ)
  | close (shm : ℕ)
  | initDataReady (shm : ℕ)
  | initReaderDone (shm : ℕ)
  | snprintf (shm n : ℕ)
  | postDataReady (shm : ℕ)
  | waitReaderDone (shm : ℕ)
  | destroyReaderDone (shm : ℕ)
  | destroyDataReady (shm : ℕ)
  | munmap (shm : ℕ)
  | shmUnlink
  | release (shm : ℕ) (rest : List Release)
  | exited (success : Bool)
  | fault
  deriving DecidableEq

/-- `printf` has read the bytes `read`; `cleanup` is the `close` or `munmap` of an error path. -/
inductive ReaderPc
  | shmOpen
  | mmap (fd : ℕ)
  | close (shm : ℕ)
  | wait (shm : ℕ)
  | printf (shm : ℕ) (read : List Byte)
  | post (shm : ℕ)
  | munmap (shm : ℕ)
  | cleanup
  | exited (success : Bool)
  | fault
  deriving DecidableEq

inductive Attempt
  | run
  | fails
  deriving DecidableEq

inductive Action (N : ℕ)
  | writer (a : Attempt)
  | reader (i : Fin N) (a : Attempt)
  deriving DecidableEq

/-- `posts` counts the completed posts of `sem_data_ready`; `passed`, `printed` and `acked` record
the readers that have come past their wait, printed a text and posted `sem_reader_done`. -/
structure Handshake (N : ℕ) where
  kernel : Store SharedRegion
  writer : WriterPc
  readers : Fin N → ReaderPc
  posts : ℕ
  passed : List (Fin N)
  printed : List (Fin N × List Byte)
  acked : List (Fin N)

namespace Handshake

variable {N : ℕ}

def start (N : ℕ) : Handshake N where
  kernel := Store.empty SharedRegion.new
  writer := .strlen
  readers _ := .shmOpen
  posts := 0
  passed := []
  printed := []
  acked := []

def goto (h : Handshake N) (pc : WriterPc) : Handshake N := { h with writer := pc }

def setReader (h : Handshake N) (i : Fin N) (pc : ReaderPc) : Handshake N :=
  { h with readers := Function.update h.readers i pc }

def modify (h : Handshake N) (shm : ℕ) (f : SharedRegion → SharedRegion) : Handshake N :=
  { h with kernel := h.kernel.modify shm f }

def release (h : Handshake N) (shm : ℕ) : Release → Handshake N
  | .close => h
  | .destroyDataReady => h.modify shm (fun r => { r with semDataReady := r.semDataReady.destroy })
  | .destroyReaderDone => h.modify shm (fun r => { r with semReaderDone := r.semReaderDone.destroy })
  | .munmap => h
  | .shmUnlink => { h with kernel := h.kernel.unlink }

def snprintfBytes (msgToSend : List Byte) : List Byte :=
  (cString msgToSend).take (messageMaxLen - 1) ++ [0]

def snprintf (msgToSend : List Byte) (h : Handshake N) (shm n : ℕ) : Handshake N :=
  match (snprintfBytes msgToSend)[n]? with
  | none => h.goto (.postDataReady shm)
  | some b =>
    match store (h.kernel.object shm).message n [b] with
    | none => h.goto .fault
    | some message =>
      (h.modify shm (fun r => { r with message := message })).goto (.snprintf shm (n + 1))

def writerMain (msgToSend : List Byte) (h : Handshake N) (a : Attempt) : Option (Handshake N) :=
  match h.writer, a with
  | .strlen, .run =>
    some (h.goto (if strlen msgToSend ≥ messageMaxLen then .exited false else .shmOpen))
  | .shmOpen, .run =>
    match h.kernel.named with
    | some _ => some (h.goto (.exited false))
    | none => some ({ h with kernel := h.kernel.create .new }.goto (.ftruncate h.kernel.fresh))
  | .shmOpen, .fails => some (h.goto (.exited false))
  | .ftruncate fd, .run => some ((h.modify fd (fun r => { r with sized := true })).goto (.mmap fd))
  | .ftruncate fd, .fails => some (h.goto (.release fd [.close, .shmUnlink]))
  | .mmap fd, .run => some (h.goto (.close fd))
  | .mmap fd, .fails => some (h.goto (.release fd [.close, .shmUnlink]))
  | .close shm, .run => some (h.goto (.initDataReady shm))
  | .close shm, .fails => some (h.goto (.release shm [.munmap, .shmUnlink]))
  | .initDataReady shm, .run =>
    some ((h.modify shm (fun r => { r with semDataReady := .init svalInitialDataReady })).goto
      (.initReaderDone shm))
  | .initDataReady shm, .fails => some (h.goto (.release shm [.munmap, .shmUnlink]))
  | .initReaderDone shm, .run =>
    some ((h.modify shm (fun r => { r with semReaderDone := .init svalInitialReaderDone })).goto
      (.snprintf shm 0))
  | .initReaderDone shm, .fails =>
    some (h.goto (.release shm [.destroyDataReady, .munmap, .shmUnlink]))
  | .snprintf shm n, .run => some (h.snprintf msgToSend shm n)
  | .postDataReady shm, .run =>
    some ({ h.modify shm (fun r => { r with semDataReady := r.semDataReady.post }) with
      posts := h.posts + 1 }.goto (.waitReaderDone shm))
  | .postDataReady shm, .fails =>
    some (h.goto (.release shm [.destroyReaderDone, .destroyDataReady, .munmap, .shmUnlink]))
  | .waitReaderDone shm, .run =>
    (h.kernel.object shm).semReaderDone.wait.map (fun sem =>
      (h.modify shm (fun r => { r with semReaderDone := sem })).goto (.destroyReaderDone shm))
  | .waitReaderDone shm, .fails =>
    some (h.goto (.release shm [.destroyReaderDone, .destroyDataReady, .munmap, .shmUnlink]))
  | .destroyReaderDone shm, .run =>
    some ((h.release shm .destroyReaderDone).goto (.destroyDataReady shm))
  | .destroyReaderDone shm, .fails => some (h.goto (.destroyDataReady shm))
  | .destroyDataReady shm, .run => some ((h.release shm .destroyDataReady).goto (.munmap shm))
  | .destroyDataReady shm, .fails => some (h.goto (.munmap shm))
  | .munmap _, .run => some (h.goto .shmUnlink)
  | .munmap shm, .fails => some (h.goto (.release shm [.shmUnlink]))
  | .shmUnlink, .run => some ({ h with kernel := h.kernel.unlink }.goto (.exited true))
  | .shmUnlink, .fails => some (h.goto (.exited false))
  | .release _ [], .run => some (h.goto (.exited false))
  | .release shm (r :: rest), .run => some ((h.release shm r).goto (.release shm rest))
  | .release shm (_ :: rest), .fails => some (h.goto (.release shm rest))
  | _, _ => none

def semWait (h : Handshake N) (i : Fin N) (shm : ℕ) : Option (Handshake N) :=
  (h.kernel.object shm).semDataReady.wait.map (fun sem =>
    { h.modify shm (fun r => { r with semDataReady := sem }) with
      passed := h.passed ++ [i] }.setReader i (.printf shm []))

def printf (h : Handshake N) (i : Fin N) (shm : ℕ) (read : List Byte) : Handshake N :=
  match (h.kernel.object shm).message[read.length]? with
  | none => h.setReader i .fault
  | some b =>
    if b = 0 then { h with printed := h.printed ++ [(i, read)] }.setReader i (.post shm)
    else h.setReader i (.printf shm (read ++ [b]))

-- A mapping of an object without bytes is possible; the first access to it is a bus error.
def readerMain (h : Handshake N) (i : Fin N) (a : Attempt) : Option (Handshake N) :=
  match h.readers i, a with
  | .shmOpen, .run =>
    match h.kernel.named with
    | some fd => some (h.setReader i (.mmap fd))
    | none => some (h.setReader i (.exited false))
  | .shmOpen, .fails => some (h.setReader i (.exited false))
  | .mmap fd, .run => some (h.setReader i (.close fd))
  | .mmap _, .fails => some (h.setReader i .cleanup)
  | .close shm, .run => some (h.setReader i (.wait shm))
  | .close _, .fails => some (h.setReader i .cleanup)
  | .wait shm, .run =>
    if (h.kernel.object shm).sized then h.semWait i shm else some (h.setReader i .fault)
  | .wait _, .fails => some (h.setReader i .cleanup)
  | .printf shm read, .run => some (h.printf i shm read)
  | .post shm, .run =>
    some ({ h.modify shm (fun r => { r with semReaderDone := r.semReaderDone.post }) with
      acked := h.acked ++ [i] }.setReader i (.munmap shm))
  | .post _, .fails => some (h.setReader i .cleanup)
  | .munmap _, .run => some (h.setReader i (.exited true))
  | .munmap _, .fails => some (h.setReader i (.exited false))
  | .cleanup, .run => some (h.setReader i (.exited false))
  | _, _ => none

def next (msgToSend : List Byte) (h : Handshake N) : Action N → Option (Handshake N)
  | .writer a => h.writerMain msgToSend a
  | .reader i a => h.readerMain i a

end Handshake

def handshake (msgToSend : List Byte) (N : ℕ) : System (Handshake N) (Action N) where
  init h := h = Handshake.start N
  next := Handshake.next msgToSend

end LinuxSystemProgramming.SharedMemory
