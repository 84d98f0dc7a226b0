import LinuxSystemProgramming.Lib.CMemory
import LinuxSystemProgramming.Lib.Framing

/-!
The FIFO programs come in two forms: those of 11_4 (`basics`) block in `read` and `write`, those of
11_5 (`nonblock`) open the FIFO with `O_NONBLOCK` and call `poll`. `perror` carries the message given
to `die`; the other reports are printed by the programs themselves. A call may take or give any
part of what is asked for, and may fail with `EINTR`, with `EAGAIN` where the FIFO is open with
`O_NONBLOCK`, and with `EPIPE` where nobody has it open for reading.
-/

namespace LinuxSystemProgramming.Fifo

open CMemory Framing

inductive Variant
  | basics
  | nonblock
  deriving DecidableEq

def bufSize : ℕ := 256

def sizeofLen : ℕ := 4

inductive Errno
  | eintr
  | eagain
  | epipe
  | other
  deriving DecidableEq

inductive ReadResult
  | data (bytes : List Byte)
  | eof
  | error (errno : Errno)
  deriving DecidableEq

inductive WriteResult
  | wrote (n : ℕ)
  | error (errno : Errno)
  deriving DecidableEq

inductive PollResult
  | timeout
  | ready (pollin pollhup : Bool)
  | error (errno : Errno)
  deriving DecidableEq

inductive ExitStatus
  | success
  | failure
  deriving DecidableEq

inductive Report
  | perror (msg : String)
  | invalidLength (len : ℕ)
  | closedMidMessage
  | closed
  | brokenPipe
  deriving DecidableEq

/-- A length in host order, then as many bytes; the readers accept lengths from 1 to `BUF_SIZE`. -/
def fifoFormat (o : ByteOrder) : Format Byte where
  headerSize := sizeofLen
  header := uint32Bytes o
  length := uint32Value o
  valid n := decide (0 < n ∧ n ≤ bufSize)
  headerSize_pos := by decide
  header_length := uint32Bytes_length o
  length_header := by
    intro n hn
    have hb : 0 < n ∧ n ≤ 256 := decide_eq_true_iff.mp hn
    exact uint32Value_uint32Bytes o n (by omega)
  header_of_length := uint32Bytes_uint32Value o

@[simp] theorem fifoFormat_headerSize (o : ByteOrder) : (fifoFormat o).headerSize = sizeofLen := rfl

@[simp] theorem fifoFormat_header (o : ByteOrder) : (fifoFormat o).header = uint32Bytes o := rfl

theorem fifoFormat_valid {o : ByteOrder} {n : ℕ} :
    (fifoFormat o).valid n = true ↔ 0 < n ∧ n ≤ bufSize := decide_eq_true_iff

def readAllowed (v : Variant) (queue : List Byte) (connected : Bool) (requested : ℕ) :
    ReadResult → Bool
  | .data bytes => bytes ≠ [] ∧ bytes = queue.take bytes.length ∧ bytes.length ≤ requested
  | .eof => queue = [] ∧ connected = false
  | .error .eagain => v = .nonblock
  | .error .epipe => false
  | .error _ => true

def pollAllowed (queue : List Byte) (hungUp : Bool) : PollResult → Bool
  | .ready pollin pollhup =>
    pollin = !queue.isEmpty ∧ pollhup = hungUp ∧ (pollin = true ∨ pollhup = true)
  | _ => true

def writeAllowed (v : Variant) (offered : List Byte) (readerOpen : Bool) : WriteResult → Bool
  | .wrote n => 0 < n ∧ n ≤ offered.length ∧ readerOpen = true
  | .error .eagain => v = .nonblock
  | .error .epipe => readerOpen = false
  | .error _ => true

theorem readAllowed_bound (v : Variant) {queue bytes : List Byte} (connected : Bool) {k : ℕ}
    (h : readAllowed v queue connected k (.data bytes) = true) :
    bytes = queue.take bytes.length ∧ bytes.length ≤ k := by
  simp only [readAllowed, decide_eq_true_eq] at h
  exact h.2

theorem writeAllowed_bound (v : Variant) {offered : List Byte} {open' : Bool} {k : ℕ}
    (h : writeAllowed v offered open' (.wrote k) = true) : k ≤ offered.length := by
  simp only [writeAllowed, decide_eq_true_eq] at h
  exact h.2.1

end LinuxSystemProgramming.Fifo
