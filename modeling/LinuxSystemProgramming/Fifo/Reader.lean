import LinuxSystemProgramming.Fifo.Calls

/-!
The readers `11_4_2_Reader_End` and `11_5_2_Reader`. A step of `main` is one system call with the
code up to the next one, or (`run`) one test of a loop condition or of `stop_flag`. `mkfifo` gives
`some true`, `some false` for `EEXIST`, or `none`. A byte stored outside its object is a `fault`.
The two tests of `total_read` that follow the loops of 11_5 repeat the loop conditions and have no
step of their own.
-/

namespace LinuxSystemProgramming.Fifo

open CMemory Framing

inductive ReaderPc
  | mkfifo
  | open
  | top
  | poll
  | headerTest
  | headerRead
  | malloc
  | payloadTest
  | payloadRead
  | exited (status : ExitStatus) (report : Report)
  | fault
  deriving DecidableEq

inductive ReaderAction
  | signal
  | run
  | mkfifo (result : Option Bool)
  | openFifo (ok : Bool)
  | poll (result : PollResult)
  | read (result : ReadResult)
  | malloc (block : Option (List Byte))
  deriving DecidableEq

def ReaderAction.received : ReaderAction → List Byte
  | .read (.data bytes) => bytes
  | _ => []

def ReaderAction.fails (v : Variant) : ReaderAction → Bool
  | .mkfifo none | .openFifo false | .malloc none => true
  | .poll (.error e) => e ≠ .eintr
  | .read (.error e) => e ≠ .eintr ∧ ¬ (e = .eagain ∧ v = .nonblock)
  | _ => false

/-- `fifoPath` is whether `FIFO_PATH` exists. `consumed` records every byte that `read` has
returned; the program does not keep it. -/
structure Reader where
  pc : ReaderPc
  fifoPath : Bool
  fd : Bool
  stopFlag : Bool
  msgLen : List Byte
  totalRead : ℕ
  bufRead : List Byte
  printed : List (List Byte)
  consumed : List Byte
  deriving DecidableEq

namespace Reader

def initial : Reader := ⟨.mkfifo, false, false, false, [], 0, [], [], []⟩

def signalHandler (s : Reader) : Reader := { s with stopFlag := true }

def cleanup (s : Reader) : Reader := { s with fd := false, fifoPath := false }

def exit (s : Reader) (status : ExitStatus) (report : Report) : Reader :=
  { s with pc := .exited status report }

def die (s : Reader) (report : Report) : Reader := (s.cleanup).exit .failure report

def goto (s : Reader) (pc : ReaderPc) : Reader := { s with pc := pc }

def len (o : ByteOrder) (s : Reader) : ℕ := uint32Value o s.msgLen

def startMessage (o : ByteOrder) (s : Reader) : Reader :=
  { s with msgLen := uint32Bytes o 0, totalRead := 0, pc := .headerTest }

def storeLength (s : Reader) (bytes : List Byte) : Reader :=
  match store s.msgLen s.totalRead bytes with
  | some obj => { s with
      msgLen := obj, totalRead := s.totalRead + bytes.length,
      consumed := s.consumed ++ bytes, pc := .headerTest }
  | none => { s with consumed := s.consumed ++ bytes, pc := .fault }

def checkLength (o : ByteOrder) (s : Reader) : Reader :=
  if s.len o = 0 ∨ s.len o > bufSize then s.die (.invalidLength (s.len o)) else s.goto .malloc

def allocated (s : Reader) (block : List Byte) : Reader :=
  { s with bufRead := block, totalRead := 0, pc := .payloadTest }

def storePayload (s : Reader) (bytes : List Byte) : Reader :=
  match store s.bufRead s.totalRead bytes with
  | some buf => { s with
      bufRead := buf, totalRead := s.totalRead + bytes.length,
      consumed := s.consumed ++ bytes, pc := .payloadTest }
  | none => { s with consumed := s.consumed ++ bytes, pc := .fault }

def printMessage (o : ByteOrder) (s : Reader) : Reader :=
  match store s.bufRead (s.len o) [0] with
  | some buf => { s with bufRead := [], printed := s.printed ++ [cString buf], pc := .top }
  | none => s.goto .fault

def requested (o : ByteOrder) (s : Reader) : ℕ :=
  match s.pc with
  | .headerRead => sizeofLen - s.totalRead
  | .payloadRead => s.len o - s.totalRead
  | _ => 0

end Reader

def ReaderEnd.main (o : ByteOrder) (s : Reader) (a : ReaderAction) : Option Reader :=
  match s.pc, a with
  | _, .signal => some s.signalHandler
  | .mkfifo, .mkfifo (some _) => some { s with fifoPath := true, pc := .open }
  | .mkfifo, .mkfifo none => some (s.die (.perror "R : Creating fifo failed"))
  | .open, .openFifo true => some { s with fd := true, pc := .top }
  | .open, .openFifo false => some (s.die (.perror "R : Opening FIFO failed"))
  | .top, .run =>
    if s.stopFlag then some (s.die (.perror "R : Signal caught")) else some (s.startMessage o)
  | .headerTest, .run =>
    if s.totalRead < sizeofLen then some (s.goto .headerRead) else some (s.checkLength o)
  | .headerRead, .read (.data bytes) => some (s.storeLength bytes)
  | .headerRead, .read .eof => some ((s.cleanup).exit .success .closed)
  | .headerRead, .read (.error .eintr) =>
    if s.stopFlag then some (s.die (.perror "R : Signal caught mid-read."))
    else some (s.goto .headerTest)
  | .headerRead, .read (.error _) => some (s.die (.perror "R : Failed to read length"))
  | .malloc, .malloc none => some (s.die (.perror "Malloc failed"))
  | .malloc, .malloc (some block) =>
    if block.length = s.len o + 1 then some (s.allocated block) else none
  | .payloadTest, .run =>
    if s.totalRead < s.len o then
      if s.stopFlag then some (s.die (.perror "R : Signal caught mid-read"))
      else some (s.goto .payloadRead)
    else some (s.printMessage o)
  | .payloadRead, .read (.data bytes) => some (s.storePayload bytes)
  | .payloadRead, .read .eof => some (s.die .closedMidMessage)
  | .payloadRead, .read (.error .eintr) =>
    if s.stopFlag then some (s.die (.perror "R : Signal caught mid-read"))
    else some (s.goto .payloadTest)
  | .payloadRead, .read (.error _) => some (s.die (.perror "R : Error reading payload"))
  | _, _ => none

def PollReader.main (o : ByteOrder) (s : Reader) (a : ReaderAction) : Option Reader :=
  match s.pc, a with
  | _, .signal => some s.signalHandler
  | .mkfifo, .mkfifo (some _) => some { s with fifoPath := true, pc := .open }
  | .mkfifo, .mkfifo none => some (s.die (.perror "R : Creating fifo failed"))
  | .open, .openFifo true => some { s with fd := true, pc := .top }
  | .open, .openFifo false => some (s.die (.perror "R : Opening FIFO failed"))
  | .top, .run =>
    if s.stopFlag then some (s.die (.perror "R : Signal caught")) else some (s.goto .poll)
  | .poll, .poll (.error .eintr) => some (s.goto .top)
  | .poll, .poll (.error _) => some (s.die (.perror "R : poll failed"))
  | .poll, .poll .timeout => some (s.goto .top)
  | .poll, .poll (.ready pollin _) =>
    if pollin then some (s.startMessage o) else some (s.goto .top)
  | .headerTest, .run =>
    if s.totalRead < sizeofLen then some (s.goto .headerRead) else some (s.checkLength o)
  | .headerRead, .read (.data bytes) => some (s.storeLength bytes)
  | .headerRead, .read .eof => some ((s.cleanup).exit .success .closed)
  | .headerRead, .read (.error .eintr) =>
    if s.stopFlag then some (s.die (.perror "R : Signal caught mid-read."))
    else some (s.goto .headerTest)
  | .headerRead, .read (.error .eagain) => some (s.goto .headerTest)
  | .headerRead, .read (.error _) => some (s.die (.perror "R : Failed to read length"))
  | .malloc, .malloc none => some (s.die (.perror "Malloc failed"))
  | .malloc, .malloc (some block) =>
    if block.length = s.len o + 1 then some (s.allocated block) else none
  | .payloadTest, .run =>
    if s.totalRead < s.len o then some (s.goto .payloadRead) else some (s.printMessage o)
  | .payloadRead, .read (.data bytes) => some (s.storePayload bytes)
  | .payloadRead, .read .eof => some (s.die .closedMidMessage)
  | .payloadRead, .read (.error .eintr) =>
    if s.stopFlag then some (s.die (.perror "R : Signal caught mid-read"))
    else some (s.goto .payloadTest)
  | .payloadRead, .read (.error .eagain) => some (s.goto .payloadTest)
  | .payloadRead, .read (.error _) => some (s.die (.perror "R : Error reading payload"))
  | _, _ => none

def readerMain : Variant → ByteOrder → Reader → ReaderAction → Option Reader
  | .basics => ReaderEnd.main
  | .nonblock => PollReader.main

end LinuxSystemProgramming.Fifo
