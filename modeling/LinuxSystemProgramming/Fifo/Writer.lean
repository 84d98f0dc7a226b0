import LinuxSystemProgramming.Fifo.Calls

/-!
The writers `11_4_1_Writer_End` and `11_5_1_Writer`, in the steps of the readers. `fgets` takes its
line from the bytes left on `stdin`, or fails. Every end of a writer is through `die`; `killed` is a
process ended from outside. In 11_4 the length goes out in one `write`, at offset 0.
-/

namespace LinuxSystemProgramming.Fifo

open CMemory Framing

inductive WriterPc
  | open
  | top
  | poll
  | fgets
  | headerTest
  | headerWrite
  | payloadTest
  | payloadWrite
  | exited (report : Report)
  | killed
  | fault
  deriving DecidableEq

inductive WriterAction
  | signal
  | kill
  | run
  | openFifo (ok : Bool)
  | poll (result : PollResult)
  | fgets (ok : Bool)
  | write (result : WriteResult)
  deriving DecidableEq

/-- `taken` records the strings sent or being sent and `sent` every byte that `write` has
accepted; the program keeps neither. -/
structure Writer where
  pc : WriterPc
  fd : Bool
  stopFlag : Bool
  stdin : List Byte
  bufWrite : List Byte
  len : ℕ
  totalWritten : ℕ
  taken : List (List Byte)
  sent : List Byte
  deriving DecidableEq

namespace Writer

def initial (stdin : List Byte) : Writer :=
  ⟨.open, false, false, stdin, List.replicate bufSize 0, 0, 0, [], []⟩

def signalHandler (w : Writer) : Writer := { w with stopFlag := true }

def cleanup (w : Writer) : Writer := { w with fd := false }

def die (w : Writer) (report : Report) : Writer := { w.cleanup with pc := .exited report }

def goto (w : Writer) (pc : WriterPc) : Writer := { w with pc := pc }

def kill (w : Writer) : Writer := { w with pc := .killed, fd := false }

def takeLine (w : Writer) (next : WriterPc) : Writer :=
  match CMemory.fgets w.bufWrite bufSize w.stdin with
  | none => w.die (.perror "W : fgets failed")
  | some (buf, rest) =>
    match store buf (strcspn buf newline) [0] with
    | none => w.goto .fault
    | some buf => { w with
        bufWrite := buf, stdin := rest, len := strlen buf + 1, totalWritten := 0,
        taken := w.taken ++ [cString buf], pc := next }

def offered (o : ByteOrder) (w : Writer) : List Byte :=
  match w.pc with
  | .headerWrite => ((uint32Bytes o w.len).drop w.totalWritten).take (sizeofLen - w.totalWritten)
  | .payloadWrite => (w.bufWrite.drop w.totalWritten).take (w.len - w.totalWritten)
  | _ => []

def transmits (o : ByteOrder) (w : Writer) : WriterAction → List Byte
  | .write (.wrote n) => (w.offered o).take n
  | _ => []

def wrote (o : ByteOrder) (w : Writer) (n : ℕ) (next : WriterPc) : Writer :=
  { w with
    totalWritten := w.totalWritten + n, sent := w.sent ++ (w.offered o).take n, pc := next }

def startPayload (w : Writer) : Writer := { w with totalWritten := 0, pc := .payloadTest }

end Writer

def WriterEnd.main (o : ByteOrder) (w : Writer) (a : WriterAction) : Option Writer :=
  match w.pc, a with
  | _, .signal => some w.signalHandler
  | _, .kill => some w.kill
  | .open, .openFifo true => some { w with fd := true, pc := .top }
  | .open, .openFifo false => some (w.die (.perror "W : Opening fifo failed"))
  | .top, .run =>
    if w.stopFlag then some (w.die (.perror "W : Signal caught mid-write"))
    else some (w.goto .fgets)
  | .fgets, .fgets true => some (w.takeLine .headerWrite)
  | .fgets, .fgets false => some (w.die (.perror "W : fgets failed"))
  | .headerWrite, .write (.wrote n) =>
    if n = sizeofLen then some ((w.wrote o n .headerWrite).startPayload)
    else some ((w.wrote o n .headerWrite).die (.perror "W : Failed to write length"))
  | .headerWrite, .write (.error _) => some (w.die (.perror "W : Failed to write length"))
  | .payloadTest, .run =>
    if w.totalWritten < w.len then
      if w.stopFlag then some (w.die (.perror "W : Signal caught mid-write"))
      else some (w.goto .payloadWrite)
    else some (w.goto .top)
  | .payloadWrite, .write (.wrote n) => some (w.wrote o n .payloadTest)
  | .payloadWrite, .write (.error .epipe) => some (w.die .brokenPipe)
  | .payloadWrite, .write (.error .eintr) =>
    if w.stopFlag then some (w.die (.perror "W : Signal caught mid-write"))
    else some (w.goto .payloadTest)
  | .payloadWrite, .write (.error _) =>
    some (w.die (.perror "W : Error sending the buffer to fifo"))
  | _, _ => none

def PollWriter.main (o : ByteOrder) (w : Writer) (a : WriterAction) : Option Writer :=
  match w.pc, a with
  | _, .signal => some w.signalHandler
  | _, .kill => some w.kill
  | .open, .openFifo true => some { w with fd := true, pc := .top }
  | .open, .openFifo false => some (w.die (.perror "W : Opening fifo failed"))
  | .top, .run =>
    if w.stopFlag then some (w.die (.perror "W : Signal caught")) else some (w.goto .poll)
  | .poll, .poll (.ready _ _) => some (w.goto .fgets)
  | .poll, .poll _ => some (w.goto .top)
  | .fgets, .fgets true => some (w.takeLine .headerTest)
  | .fgets, .fgets false => some (w.die (.perror "W : fgets failed"))
  | .headerTest, .run =>
    if w.totalWritten < sizeofLen then some (w.goto .headerWrite) else some w.startPayload
  | .headerWrite, .write (.wrote n) => some (w.wrote o n .headerTest)
  | .headerWrite, .write (.error .eintr) =>
    if w.stopFlag then some (w.die (.perror "W : Signal caught mid-write"))
    else some (w.goto .headerTest)
  | .headerWrite, .write (.error .eagain) => some (w.goto .headerTest)
  | .headerWrite, .write (.error _) => some (w.die (.perror "W : Failed to write length"))
  | .payloadTest, .run =>
    if w.totalWritten < w.len then some (w.goto .payloadWrite) else some (w.goto .top)
  | .payloadWrite, .write (.wrote n) => some (w.wrote o n .payloadTest)
  | .payloadWrite, .write (.error .epipe) => some (w.die .brokenPipe)
  | .payloadWrite, .write (.error .eintr) =>
    if w.stopFlag then some (w.die (.perror "W : Signal caught mid-write"))
    else some (w.goto .payloadTest)
  | .payloadWrite, .write (.error .eagain) => some (w.goto .payloadTest)
  | .payloadWrite, .write (.error _) =>
    some (w.die (.perror "W : Error sending the buffer to fifo"))
  | _, _ => none

def writerMain : Variant → ByteOrder → Writer → WriterAction → Option Writer
  | .basics => WriterEnd.main
  | .nonblock => PollWriter.main

end LinuxSystemProgramming.Fifo
